/-
Bytes in hexadecimal digits.

A byte is written as two digits, the high one first, and read back from two digits in either
case.  Text that is not made of whole bytes of digits has no reading.
-/
import Mathlib.Data.List.Basic

namespace Hex

/-- The lower-case digit of a number below sixteen. -/
def digit (n : Nat) : Char := Nat.digitChar n

def value (c : Char) : Option Nat :=
  if '0' ≤ c ∧ c ≤ '9' then some (c.toNat - '0'.toNat)
  else if 'a' ≤ c ∧ c ≤ 'f' then some (c.toNat - 'a'.toNat + 10)
  else if 'A' ≤ c ∧ c ≤ 'F' then some (c.toNat - 'A'.toNat + 10)
  else none

theorem value_digit : ∀ n < 16, value (digit n) = some n := by decide

def encode (bytes : List UInt8) : List Char :=
  bytes.flatMap fun b => [digit (b.toNat / 16), digit (b.toNat % 16)]

def decode : List Char → Option (List UInt8)
  | [] => some []
  | [_] => none
  | a :: b :: rest => do
      let high ← value a
      let low ← value b
      let bytes ← decode rest
      return UInt8.ofNat (16 * high + low) :: bytes

theorem encode_cons (b : UInt8) (bytes : List UInt8) :
    encode (b :: bytes) = digit (b.toNat / 16) :: digit (b.toNat % 16) :: encode bytes := rfl

theorem length_encode (bytes : List UInt8) : (encode bytes).length = 2 * bytes.length := by
  induction bytes with
  | nil => rfl
  | cons b bytes ih =>
      rw [encode_cons, List.length_cons, List.length_cons, ih, List.length_cons]
      omega

/-- **What was written is read back.** -/
theorem decode_encode (bytes : List UInt8) : decode (encode bytes) = some bytes := by
  induction bytes with
  | nil => rfl
  | cons b bytes ih =>
      have hb : b.toNat < 256 := b.toNat_lt
      have hhigh := value_digit (b.toNat / 16) (by omega)
      have hlow := value_digit (b.toNat % 16) (by omega)
      have hbyte : 16 * (b.toNat / 16) + b.toNat % 16 = b.toNat := Nat.div_add_mod ..
      rw [encode_cons, decode, hhigh, hlow, ih]
      simp only [Option.bind_eq_bind, Option.bind_some, hbyte, UInt8.ofNat_toNat]
      rfl

theorem isDigit_of_mem_encode {bytes : List UInt8} {c : Char} (h : c ∈ encode bytes) :
    ∃ n < 16, c = digit n := by
  unfold encode at h
  obtain ⟨b, -, hc⟩ := List.mem_flatMap.mp h
  have hb : b.toNat < 256 := b.toNat_lt
  rcases List.mem_cons.mp hc with rfl | hc
  · exact ⟨b.toNat / 16, by omega, rfl⟩
  · exact ⟨b.toNat % 16, by omega, List.mem_singleton.mp hc⟩

end Hex
