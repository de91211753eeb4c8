/-
The two encodings of a text, and the order of its bytes.

A UTF-16 string is any list of code units; it is well formed when every surrogate in it is one
half of a pair, and those are exactly the strings that spell a list of characters.  Decoding
never fails: a surrogate without its other half stands for U+FFFD.

UTF-8 keeps the order of texts.  Of two different characters neither code begins the other and
the first byte in which they differ is ordered as the characters are, and a code with this
property keeps the lexicographic order whatever it encodes.
-/
import Mathlib.Data.List.Basic
import Mathlib.Data.Char

namespace Utf

/-! ### Codes that keep the order -/

section Order

variable {α β : Type} [LT α] [DecidableLT α] [BEq α] [LT β] [DecidableLT β] [BEq β]

/-- The first list does not come after the second, in the order of their first difference. -/
def upTo : List α → List α → Bool
  | [], _ => true
  | _ :: _, [] => false
  | x :: xs, y :: ys => decide (x < y) || (x == y && upTo xs ys)

/-- Neither list begins the other, and the first is smaller where they first differ. -/
def Parts (a b : List β) : Prop :=
  ∃ lead x y s t, a = lead ++ x :: s ∧ b = lead ++ y :: t ∧ x < y

variable [LawfulBEq α] [LawfulBEq β]

theorem upTo_append_left (hirr : ∀ x : β, ¬ x < x) (lead s t : List β) :
    upTo (lead ++ s) (lead ++ t) = upTo s t := by
  induction lead with
  | nil => rfl
  | cons x lead ih =>
      show (decide (x < x) || (x == x && upTo (lead ++ s) (lead ++ t))) = _
      rw [decide_eq_false (hirr x), beq_self_eq_true, Bool.false_or, Bool.true_and, ih]

theorem Parts.upTo_append (hirr : ∀ x : β, ¬ x < x) {a b : List β} (h : Parts a b) (s t : List β) :
    upTo (a ++ s) (b ++ t) = true := by
  obtain ⟨lead, x, y, s', t', rfl, rfl, hlt⟩ := h
  rw [List.append_assoc, List.append_assoc, upTo_append_left hirr]
  show (decide (x < y) || _) = true
  rw [decide_eq_true hlt, Bool.true_or]

theorem Parts.not_upTo_append (hirr : ∀ x : β, ¬ x < x) (hasymm : ∀ x y : β, x < y → ¬ y < x)
    {a b : List β} (h : Parts a b) (s t : List β) : upTo (b ++ t) (a ++ s) = false := by
  obtain ⟨lead, x, y, s', t', rfl, rfl, hlt⟩ := h
  have hne : (y == x) = false := beq_false_of_ne fun heq => hirr x (heq ▸ hlt)
  rw [List.append_assoc, List.append_assoc, upTo_append_left hirr]
  show (decide (y < x) || (y == x && _)) = false
  rw [decide_eq_false (hasymm x y hlt), hne, Bool.false_and, Bool.false_or]

omit [DecidableLT β] [BEq β] [LawfulBEq β] in
theorem Parts.append_ne (hirr : ∀ x : β, ¬ x < x) {a b : List β} (h : Parts a b) (s t : List β) :
    a ++ s ≠ b ++ t := by
  obtain ⟨lead, x, y, s', t', rfl, rfl, hlt⟩ := h
  intro heq
  rw [List.append_assoc, List.append_assoc] at heq
  have hhead := List.head_eq_of_cons_eq (List.append_cancel_left heq)
  exact hirr y (hhead ▸ hlt)

/-- **A code whose words part in the order of what they stand for keeps the order of texts.** -/
theorem upTo_flatMap {f : α → List β} (hirr : ∀ x : β, ¬ x < x)
    (hasymm : ∀ x y : β, x < y → ¬ y < x) (hirr' : ∀ a : α, ¬ a < a)
    (hasymm' : ∀ a b : α, a < b → ¬ b < a) (htotal : ∀ a b : α, a < b ∨ a = b ∨ b < a)
    (hf : ∀ a b, a < b → Parts (f a) (f b)) (hne : ∀ a, f a ≠ []) (xs ys : List α) :
    upTo (xs.flatMap f) (ys.flatMap f) = upTo xs ys := by
  induction xs generalizing ys with
  | nil => rfl
  | cons x xs ih =>
      cases ys with
      | nil =>
          obtain ⟨z, rest, hz⟩ := List.exists_cons_of_ne_nil (hne x)
          rw [List.flatMap_cons, hz]
          rfl
      | cons y ys =>
          rw [List.flatMap_cons, List.flatMap_cons]
          show _ = (decide (x < y) || (x == y && upTo xs ys))
          rcases htotal x y with hlt | rfl | hgt
          · rw [(hf x y hlt).upTo_append hirr, decide_eq_true hlt, Bool.true_or]
          · rw [upTo_append_left hirr, ih, decide_eq_false (hirr' x), beq_self_eq_true,
              Bool.false_or, Bool.true_and]
          · have hne : (x == y) = false := beq_false_of_ne fun heq => hirr' y (heq ▸ hgt)
            rw [(hf y x hgt).not_upTo_append hirr hasymm, decide_eq_false (hasymm' y x hgt), hne,
              Bool.false_and, Bool.false_or]

end Order

/-! ### UTF-8 -/

def utf8 (cs : List Char) : List UInt8 := cs.flatMap String.utf8EncodeChar

/-- The text the bytes spell, if they are well-formed UTF-8. -/
def decode8 (bytes : List UInt8) : Option (List Char) :=
  bytes.toByteArray.utf8Decode?.map Array.toList

theorem decode8_utf8 (cs : List Char) : decode8 (utf8 cs) = some cs := by
  show Option.map Array.toList cs.utf8Encode.utf8Decode? = some cs
  rw [List.utf8Decode?_utf8Encode]
  rfl

theorem toByteArray_injective {a b : List UInt8} (h : a.toByteArray = b.toByteArray) : a = b := by
  have hdata := congrArg ByteArray.data h
  rw [List.data_toByteArray, List.data_toByteArray] at hdata
  exact List.toArray_inj hdata

/-- **What is decoded is the code of what it is decoded to.** -/
theorem decode8_eq_some {bytes : List UInt8} {cs : List Char} :
    decode8 bytes = some cs ↔ utf8 cs = bytes := by
  refine ⟨fun h => ?_, fun h => h ▸ decode8_utf8 cs⟩
  obtain ⟨array, harray, rfl⟩ := Option.map_eq_some_iff.mp h
  have hsome : bytes.toByteArray.utf8Decode?.isSome := by
    rw [harray]
    rfl
  have hencode := @ByteArray.utf8Encode_get_utf8Decode? bytes.toByteArray hsome
  rw [Option.get_of_eq_some hsome harray] at hencode
  exact toByteArray_injective hencode

theorem utf8EncodeChar_ne_nil (c : Char) : String.utf8EncodeChar c ≠ [] := by
  unfold String.utf8EncodeChar
  simp only
  split_ifs <;> exact List.cons_ne_nil _ _

variable {n v w : Nat} {u : UInt16}

theorem ofNat_lt_ofNat {m : Nat} (hn : n < 256) (h : m < n) : UInt8.ofNat m < UInt8.ofNat n := by
  rw [UInt8.lt_iff_toNat_lt, UInt8.toNat_ofNat', UInt8.toNat_ofNat']
  omega

theorem parts_cons {β : Type} [LT β] {x y : β} {s t : List β} (h : x < y ∨ x = y ∧ Parts s t) :
    Parts (x :: s) (y :: t) := by
  rcases h with hlt | ⟨rfl, lead, x', y', s', t', rfl, rfl, hlt⟩
  · exact ⟨[], x, y, s, t, rfl, rfl, hlt⟩
  · exact ⟨x :: lead, x', y', s', t', rfl, rfl, hlt⟩

theorem parts_digit {m : Nat} {s t : List UInt8} (hn : n < 256) (h : m < n ∨ m = n ∧ Parts s t) :
    Parts (UInt8.ofNat m :: s) (UInt8.ofNat n :: t) := by
  rcases h with hlt | ⟨rfl, hrest⟩
  · exact parts_cons (.inl (ofNat_lt_ofNat hn hlt))
  · exact parts_cons (.inr ⟨rfl, hrest⟩)

theorem parts_tail (hlt : v < w) (hhigh : v / 64 = w / 64) :
    Parts [UInt8.ofNat (v % 64 + 128)] [UInt8.ofNat (w % 64 + 128)] :=
  parts_digit (by omega) (.inl (by omega))

theorem parts_two_tails (hlt : v < w) (hhigh : v / 4096 = w / 4096) :
    Parts [UInt8.ofNat (v / 64 % 64 + 128), UInt8.ofNat (v % 64 + 128)]
      [UInt8.ofNat (w / 64 % 64 + 128), UInt8.ofNat (w % 64 + 128)] := by
  by_cases hnext : v / 64 = w / 64
  · exact parts_digit (by omega) (.inr ⟨by omega, parts_tail hlt hnext⟩)
  · exact parts_digit (by omega) (.inl (by omega))

theorem parts_three_tails (hlt : v < w) (hhigh : v / 262144 = w / 262144) :
    Parts [UInt8.ofNat (v / 4096 % 64 + 128), UInt8.ofNat (v / 64 % 64 + 128),
        UInt8.ofNat (v % 64 + 128)]
      [UInt8.ofNat (w / 4096 % 64 + 128), UInt8.ofNat (w / 64 % 64 + 128),
        UInt8.ofNat (w % 64 + 128)] := by
  by_cases hnext : v / 4096 = w / 4096
  · exact parts_digit (by omega) (.inr ⟨by omega, parts_two_tails hlt hnext⟩)
  · exact parts_digit (by omega) (.inl (by omega))

theorem toNat_lt (c : Char) : c.toNat < 0x110000 := by
  rcases c.valid with hsmall | ⟨_, hsmall⟩ <;> simp only [← Char.toNat_val] <;> omega

/-- **Of two characters neither code begins the other, and the smaller code is the smaller
character's.** -/
theorem utf8EncodeChar_parts {c d : Char} (h : c < d) :
    Parts (String.utf8EncodeChar c) (String.utf8EncodeChar d) := by
  have hlt : c.toNat < d.toNat := UInt32.lt_iff_toNat_lt.mp h
  have hd := toNat_lt d
  unfold String.utf8EncodeChar
  simp only [Char.toNat_val]
  generalize c.toNat = v at hlt
  generalize d.toNat = w at hlt hd
  have hfirst : ∀ {m n : Nat} {s t : List UInt8}, n < 256 → m < n →
      Parts (UInt8.ofNat m :: s) (UInt8.ofNat n :: t) := fun hn h => parts_digit hn (.inl h)
  split_ifs with hw hv hv hv hw hv hv hv hw hv hv hv
  -- the smaller number has the longer code
  any_goals omega
  -- the first byte of the longer code is the larger one
  any_goals first | exact hfirst (by omega) (by omega) | skip
  -- codes of the same length
  · by_cases hnext : v / 64 = w / 64
    · exact parts_digit (by omega) (.inr ⟨by omega, parts_tail hlt hnext⟩)
    · exact hfirst (by omega) (by omega)
  · by_cases hnext : v / 4096 = w / 4096
    · exact parts_digit (by omega) (.inr ⟨by omega, parts_two_tails hlt hnext⟩)
    · exact hfirst (by omega) (by omega)
  · by_cases hnext : v / 262144 = w / 262144
    · exact parts_digit (by omega) (.inr ⟨by omega, parts_three_tails hlt hnext⟩)
    · exact hfirst (by omega) (by omega)

theorem utf8EncodeChar_append_inj {c d : Char} {s t : List UInt8}
    (h : String.utf8EncodeChar c ++ s = String.utf8EncodeChar d ++ t) : c = d := by
  rcases lt_trichotomy c d with hlt | heq | hgt
  · exact absurd h ((utf8EncodeChar_parts hlt).append_ne UInt8.lt_irrefl s t)
  · exact heq
  · exact absurd h.symm ((utf8EncodeChar_parts hgt).append_ne UInt8.lt_irrefl t s)

/-- **The order of the bytes is the order of the characters.** -/
theorem upTo_utf8 (cs ds : List Char) : upTo (utf8 cs) (utf8 ds) = upTo cs ds :=
  upTo_flatMap (fun x => UInt8.lt_irrefl x) (fun _ _ => UInt8.lt_asymm)
    (fun c => Char.lt_irrefl c) (fun _ _ => Char.lt_asymm)
    (fun c d => lt_trichotomy c d)
    (fun _ _ => utf8EncodeChar_parts) utf8EncodeChar_ne_nil cs ds

/-! ### UTF-16 -/

def units (c : Char) : List UInt16 :=
  if c.toNat < 0x10000 then [UInt16.ofNat c.toNat]
  else [UInt16.ofNat (0xD800 + (c.toNat - 0x10000) / 0x400),
    UInt16.ofNat (0xDC00 + (c.toNat - 0x10000) % 0x400)]

/-- The code units of a text. -/
def utf16 (cs : List Char) : List UInt16 := cs.flatMap units

def isHigh (u : UInt16) : Bool := 0xD800 ≤ u && u ≤ 0xDBFF

def isLow (u : UInt16) : Bool := 0xDC00 ≤ u && u ≤ 0xDFFF

/-- The character of a unit that is no half of a pair. -/
def single (u : UInt16) : Char :=
  if isHigh u || isLow u then '\uFFFD' else Char.ofNat u.toNat

def pair (u v : UInt16) : Char :=
  Char.ofNat (0x10000 + (u.toNat - 0xD800) * 0x400 + (v.toNat - 0xDC00))

/-- The text that code units spell. -/
def decode : List UInt16 → List Char
  | [] => []
  | [u] => [single u]
  | u :: v :: rest =>
      if isHigh u && isLow v then pair u v :: decode rest else single u :: decode (v :: rest)

/-- Every surrogate is half of a pair. -/
def wellFormed : List UInt16 → Bool
  | [] => true
  | [u] => !isHigh u && !isLow u
  | u :: v :: rest =>
      if isHigh u && isLow v then wellFormed rest else !isHigh u && !isLow u && wellFormed (v :: rest)

/-! ### Characters and their code units -/

theorem isHigh_eq : isHigh u = true ↔ 0xD800 ≤ u.toNat ∧ u.toNat ≤ 0xDBFF := by
  unfold isHigh
  rw [Bool.and_eq_true, decide_eq_true_iff, decide_eq_true_iff, UInt16.le_iff_toNat_le,
    UInt16.le_iff_toNat_le]
  rfl

theorem isLow_eq : isLow u = true ↔ 0xDC00 ≤ u.toNat ∧ u.toNat ≤ 0xDFFF := by
  unfold isLow
  rw [Bool.and_eq_true, decide_eq_true_iff, decide_eq_true_iff, UInt16.le_iff_toNat_le,
    UInt16.le_iff_toNat_le]
  rfl

theorem isHigh_eq_false : isHigh u = false ↔ u.toNat < 0xD800 ∨ 0xDBFF < u.toNat := by
  rw [← Bool.not_eq_true, isHigh_eq]
  omega

theorem isLow_eq_false : isLow u = false ↔ u.toNat < 0xDC00 ∨ 0xDFFF < u.toNat := by
  rw [← Bool.not_eq_true, isLow_eq]
  omega

/-- A character of the basic plane is its own code unit; any other is a pair. -/
theorem units_cases (c : Char) :
    (∃ u, units c = [u] ∧ isHigh u = false ∧ isLow u = false ∧ single u = c ∧ u.toNat = c.toNat) ∨
      ∃ u v, units c = [u, v] ∧ isHigh u = true ∧ isLow v = true ∧ pair u v = c := by
  have hc := toNat_lt c
  unfold units
  by_cases hplane : c.toNat < 0x10000
  · rw [if_pos hplane]
    have hu : (UInt16.ofNat c.toNat).toNat = c.toNat := by
      rw [UInt16.toNat_ofNat']
      omega
    have hvalid : c.toNat < 0xD800 ∨ 0xDFFF < c.toNat := by
      rcases c.valid with h | ⟨h, _⟩ <;> simp only [Char.toNat_val] at h <;> omega
    have hhigh : isHigh (UInt16.ofNat c.toNat) = false := by
      rw [isHigh_eq_false, hu]
      omega
    have hlow : isLow (UInt16.ofNat c.toNat) = false := by
      rw [isLow_eq_false, hu]
      omega
    refine .inl ⟨_, rfl, hhigh, hlow, ?_, hu⟩
    unfold single
    rw [hhigh, hlow, hu]
    exact Char.ofNat_toNat c
  · rw [if_neg hplane]
    refine .inr ⟨_, _, rfl, ?_, ?_, ?_⟩
    · rw [isHigh_eq, UInt16.toNat_ofNat']; omega
    · rw [isLow_eq, UInt16.toNat_ofNat']; omega
    · have hcode : 0x10000 + (0xD800 + (c.toNat - 0x10000) / 0x400 - 0xD800) * 0x400 +
          (0xDC00 + (c.toNat - 0x10000) % 0x400 - 0xDC00) = c.toNat := by omega
      unfold pair
      rw [UInt16.toNat_ofNat', UInt16.toNat_ofNat', Nat.mod_eq_of_lt (by omega),
        Nat.mod_eq_of_lt (by omega), hcode]
      exact Char.ofNat_toNat c

theorem decode_cons_single (hhigh : isHigh u = false) (s : List UInt16) :
    decode (u :: s) = single u :: decode s := by
  cases s with
  | nil => rfl
  | cons v s =>
      show (if isHigh u && isLow v then pair u v :: decode s else single u :: decode (v :: s)) = _
      rw [hhigh]
      rfl

theorem wellFormed_cons_single (hhigh : isHigh u = false) (hlow : isLow u = false) (s : List UInt16) :
    wellFormed (u :: s) = wellFormed s := by
  cases s with
  | nil =>
      show (!isHigh u && !isLow u) = true
      rw [hhigh, hlow]
      rfl
  | cons v s =>
      show (if isHigh u && isLow v then wellFormed s
        else !isHigh u && !isLow u && wellFormed (v :: s)) = _
      rw [hhigh, hlow]
      rfl

theorem decode_units_append (c : Char) (s : List UInt16) :
    decode (units c ++ s) = c :: decode s := by
  rcases units_cases c with ⟨u, hu, hhigh, _, hsingle, _⟩ | ⟨u, v, huv, hhigh, hlow, hpair⟩
  · rw [hu]
    show decode (u :: s) = _
    rw [decode_cons_single hhigh, hsingle]
  · rw [huv]
    show (if isHigh u && isLow v then pair u v :: decode s else single u :: decode (v :: s)) = _
    rw [hhigh, hlow, hpair]
    rfl

theorem wellFormed_units_append (c : Char) (s : List UInt16) :
    wellFormed (units c ++ s) = wellFormed s := by
  rcases units_cases c with ⟨u, hu, hhigh, hlow, _, _⟩ | ⟨u, v, huv, hhigh, hlow, _⟩
  · rw [hu]; exact wellFormed_cons_single hhigh hlow s
  · rw [huv]
    show (if isHigh u && isLow v then wellFormed s
      else !isHigh u && !isLow u && wellFormed (v :: s)) = _
    rw [hhigh, hlow]
    rfl

@[simp] theorem utf16_nil : utf16 [] = [] := rfl

@[simp] theorem utf16_cons (c : Char) (cs : List Char) : utf16 (c :: cs) = units c ++ utf16 cs := rfl

theorem utf16_append (cs ds : List Char) : utf16 (cs ++ ds) = utf16 cs ++ utf16 ds :=
  List.flatMap_append

/-- **Decoding gives back the characters.** -/
theorem decode_utf16 (cs : List Char) : decode (utf16 cs) = cs := by
  induction cs with
  | nil => rfl
  | cons c cs ih => rw [utf16_cons, decode_units_append, ih]

theorem utf16_injective {cs ds : List Char} (h : utf16 cs = utf16 ds) : cs = ds := by
  rw [← decode_utf16 cs, h, decode_utf16]

theorem wellFormed_utf16_append (cs : List Char) (s : List UInt16) :
    wellFormed (utf16 cs ++ s) = wellFormed s := by
  induction cs with
  | nil => rfl
  | cons c cs ih => rw [utf16_cons, List.append_assoc, wellFormed_units_append, ih]

theorem wellFormed_utf16 (cs : List Char) : wellFormed (utf16 cs) = true := by
  rw [← List.append_nil (utf16 cs), wellFormed_utf16_append]
  rfl

theorem toNat_ofNat (h : n.isValidChar) : (Char.ofNat n).toNat = n := by
  unfold Char.ofNat
  rw [dif_pos h]
  rfl

theorem units_single (hhigh : isHigh u = false) (hlow : isLow u = false) :
    units (single u) = [u] := by
  have hu := u.toNat_lt
  rw [isHigh_eq_false] at hhigh
  rw [isLow_eq_false] at hlow
  have hvalid : u.toNat.isValidChar := by
    unfold Nat.isValidChar
    omega
  have hchar : (single u).toNat = u.toNat := by
    unfold single
    rw [isHigh_eq_false.mpr hhigh, isLow_eq_false.mpr hlow]
    exact toNat_ofNat hvalid
  unfold units
  rw [hchar, if_pos (by omega), UInt16.ofNat_toNat]

theorem units_pair {v : UInt16} (hhigh : isHigh u = true) (hlow : isLow v = true) :
    units (pair u v) = [u, v] := by
  rw [isHigh_eq] at hhigh
  rw [isLow_eq] at hlow
  have hvalid : (0x10000 + (u.toNat - 0xD800) * 0x400 + (v.toNat - 0xDC00)).isValidChar := by
    unfold Nat.isValidChar
    omega
  have hchar : (pair u v).toNat = 0x10000 + (u.toNat - 0xD800) * 0x400 + (v.toNat - 0xDC00) :=
    toNat_ofNat hvalid
  unfold units
  rw [hchar, if_neg (by omega)]
  have hu : 0xD800 + (0x10000 + (u.toNat - 0xD800) * 0x400 + (v.toNat - 0xDC00) - 0x10000) / 0x400
      = u.toNat := by omega
  have hv : 0xDC00 + (0x10000 + (u.toNat - 0xD800) * 0x400 + (v.toNat - 0xDC00) - 0x10000) % 0x400
      = v.toNat := by omega
  rw [hu, hv, UInt16.ofNat_toNat, UInt16.ofNat_toNat]

/-- **A string is well formed if and only if it spells a text.** -/
theorem utf16_decode {s : List UInt16} (h : wellFormed s = true) : utf16 (decode s) = s := by
  induction s using decode.induct with
  | case1 => rfl
  | case2 u =>
      obtain ⟨hhigh, hlow⟩ : isHigh u = false ∧ isLow u = false := by
        simpa [wellFormed] using h
      show units (single u) ++ [] = [u]
      rw [units_single hhigh hlow, List.append_nil]
  | case3 u v rest hpair ih =>
      have h' : (if isHigh u && isLow v then wellFormed rest
        else !isHigh u && !isLow u && wellFormed (v :: rest)) = true := h
      rw [if_pos hpair] at h'
      rw [decode, if_pos hpair, utf16_cons, ih h']
      obtain ⟨hhigh, hlow⟩ := Bool.and_eq_true .. ▸ hpair
      rw [units_pair hhigh hlow]
      rfl
  | case4 u v rest hpair ih =>
      have h' : (if isHigh u && isLow v then wellFormed rest
        else !isHigh u && !isLow u && wellFormed (v :: rest)) = true := h
      rw [if_neg hpair, Bool.and_eq_true, Bool.and_eq_true, Bool.not_eq_true', Bool.not_eq_true'] at h'
      rw [decode, if_neg hpair, utf16_cons, ih h'.2, units_single h'.1.1 h'.1.2]
      rfl

end Utf
