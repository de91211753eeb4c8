/-
Numbers are decided on their text.

An identifier may be written as any JSON number, and what the number is must be known exactly.
The decision never computes the value: it takes the digits without the zeros in front, moves the
point by counting, and refuses whatever has more than sixteen digits left.  `NumberLiteral` is
the grammar of the numbers and `value` what one means, as a rational; the exponent alone can make
that value astronomically large or small, which is why the two are compared by their digits.

The machine has 64 bits for the exponent and for the counts.  `checkedSafeInteger` is the same
decision with every conversion and every step of the arithmetic checked; on texts that fit into a
frame no check fails.
-/
import Mathlib.Algebra.Order.AbsoluteValue.Basic
import Baleyg.Lib.Decimal
import Baleyg.Mcp.Session

namespace Baleyg.Mcp

open Decimal (isInt_iff)

/-! ### The grammar -/

structure ExponentPart where
  mark : Char
  sign : Option Char
  digits : List Char
  mark_mem : mark ∈ ['e', 'E']
  sign_mem : ∀ c ∈ sign, c ∈ ['+', '-']
  digits_ne : digits ≠ []
  digits_all : Mcp.digits digits = true

namespace ExponentPart

def chars (e : ExponentPart) : List Char := e.sign.toList ++ e.digits

def value (e : ExponentPart) : ℤ :=
  if e.sign = some '-' then -(number e.digits) else number e.digits

end ExponentPart

structure NumberLiteral where
  negative : Bool
  integer : List Char
  fraction : Option (List Char)
  exponent : Option ExponentPart
  integer_ne : integer ≠ []
  integer_all : digits integer = true
  integer_lead : integer.head? = some '0' → integer = ['0']
  fraction_all : ∀ f ∈ fraction, f ≠ [] ∧ digits f = true

namespace NumberLiteral

def decimals (l : NumberLiteral) : List Char := l.fraction.getD []

def mantissa (l : NumberLiteral) : List Char :=
  l.integer ++ (l.fraction.map ('.' :: ·)).getD []

def chars (l : NumberLiteral) : List Char :=
  (if l.negative then ['-'] else []) ++
    (l.mantissa ++ (l.exponent.map fun e => e.mark :: e.chars).getD [])

def text (l : NumberLiteral) : String := String.ofList l.chars

def power (l : NumberLiteral) : ℤ := (l.exponent.map ExponentPart.value).getD 0

def value (l : NumberLiteral) : ℚ :=
  (if l.negative then -1 else 1) *
    ((number l.integer + number l.decimals / 10 ^ l.decimals.length) * 10 ^ l.power)

end NumberLiteral

/-! ### Arithmetic with checks -/

/-- `i64::try_from`. -/
def i64 (v : Int) : Option Int := if -2 ^ 63 ≤ v ∧ v < 2 ^ 63 then some v else none

/-- `usize::try_from`. -/
def usize (v : Int) : Option Nat := if 0 ≤ v ∧ v < 2 ^ 64 then some v.toNat else none

/-- `value.checked_mul(10)?.checked_add(..)?`. -/
def checkedDigit (value : Int) (c : Char) : Option Int :=
  (i64 (value * 10)).bind fun value => i64 (value + (c.toNat - '0'.toNat : Nat))

/-- What becomes of the digits that are left and the zeros to be added. -/
def checkedValue (negative : Bool) (significant : List Char) (zeros : Nat) : Option Int := do
  let length ← usize (significant.length + zeros)
  if 16 < length then none
  else
    let value ← significant.foldlM checkedDigit 0
    let value ← (List.replicate zeros ()).foldlM (fun v _ => i64 (v * 10)) value
    if value ≤ safeInteger then some (if negative then -value else value) else none

/-- `exact_safe_integer`, with the arithmetic of the machine. -/
def checkedSafeInteger (raw : String) : Option Int := do
  let (negative, significant, fraction, exponent) ← decimalParts raw
  if significant = [] then return 0
  let scale := (← parseInteger 64 exponent) - fraction
  if scale < 0 then
    let remove ← usize (-scale)
    if trailingZeros significant < remove then none
    else checkedValue negative (significant.take (significant.length - remove)) 0
  else
    let zeros ← usize scale
    checkedValue negative significant zeros

/-- `saturating_add` of 128 bits. -/
def saturatingAdd (a b : Int) : Int := max (-2 ^ 127) (min (2 ^ 127 - 1) (a + b))

/-- `exact_json_integer`, with the arithmetic of the machine. -/
def checkedJsonInteger (raw : String) : Bool :=
  match decimalParts raw with
  | none => false
  | some (_, significant, fraction, exponent) =>
      if significant = [] then true
      else
        match parseInteger 128 exponent with
        | none => exponent.head? ≠ some '-'
        | some exp => fraction ≤ saturatingAdd exp (trailingZeros significant)

/-! ### The parts of a literal -/

theorem splitOnce_of_mem {separator : Char → Bool} {before after missing : List Char} {c : Char}
    (hbefore : ∀ d ∈ before, separator d = false) (hc : separator c = true) :
    splitOnce separator (before ++ c :: after) missing = (before, after) := by
  have hnot : ∀ d ∈ before, (!separator d) = true := fun d hd => by rw [hbefore d hd]; rfl
  have hstop : ¬ (!separator c) = true := by rw [hc]; exact Bool.false_ne_true
  unfold splitOnce
  rw [List.dropWhile_append_of_pos hnot, List.takeWhile_append_of_pos hnot,
    List.dropWhile_cons_of_neg (p := fun d => !separator d) hstop,
    List.takeWhile_cons_of_neg (p := fun d => !separator d) hstop, List.append_nil]

theorem splitOnce_of_not_mem {separator : Char → Bool} {text missing : List Char}
    (h : ∀ d ∈ text, separator d = false) : splitOnce separator text missing = (text, missing) := by
  have hnot : ∀ d ∈ text, (!separator d) = true := fun d hd => by rw [h d hd]; rfl
  unfold splitOnce
  rw [List.dropWhile_eq_nil_iff.mpr hnot]

theorem digits_iff {ds : List Char} : digits ds = true ↔ ∀ c ∈ ds, c.isDigit = true :=
  List.all_eq_true

theorem ne_of_isDigit {c d : Char} (hc : c.isDigit = true) (hd : d.isDigit = false) : c ≠ d :=
  fun heq => by
    rw [heq, hd] at hc
    cases hc

namespace NumberLiteral

variable (l : NumberLiteral)

theorem decimals_all : digits l.decimals = true := by
  unfold decimals
  cases h : l.fraction with
  | none => rfl
  | some f => exact (l.fraction_all f h).2

theorem mantissa_chars {c : Char} (h : c ∈ l.mantissa) : c.isDigit = true ∨ c = '.' := by
  unfold mantissa at h
  rcases List.mem_append.mp h with h | h
  · exact .inl (digits_iff.mp l.integer_all c h)
  · cases hf : l.fraction with
    | none => rw [hf] at h; cases h
    | some f =>
        rw [hf] at h
        rcases List.mem_cons.mp h with rfl | h
        · exact .inr rfl
        · exact .inl (digits_iff.mp (l.fraction_all f hf).2 c h)

def exponentChars : List Char := (l.exponent.map ExponentPart.chars).getD ['0']

def unsigned : List Char := l.mantissa ++ (l.exponent.map fun e => e.mark :: e.chars).getD []

theorem unsigned_head : ∃ c rest, l.unsigned = c :: rest ∧ c.isDigit = true := by
  obtain ⟨c, rest, hint⟩ := List.exists_cons_of_ne_nil l.integer_ne
  refine ⟨c, rest ++ (l.fraction.map ('.' :: ·)).getD [] ++
    (l.exponent.map fun e => e.mark :: e.chars).getD [], ?_, ?_⟩
  · unfold unsigned mantissa
    rw [hint]
    rfl
  · exact digits_iff.mp l.integer_all c (hint ▸ List.mem_cons_self)

theorem split_exponent :
    splitOnce (fun c => c = 'e' ∨ c = 'E') l.unsigned ['0'] = (l.mantissa, l.exponentChars) := by
  have hmantissa : ∀ d ∈ l.mantissa, decide (d = 'e' ∨ d = 'E') = false := fun d hd => by
    refine decide_eq_false ?_
    rcases l.mantissa_chars hd with hdigit | rfl
    · exact not_or.mpr ⟨ne_of_isDigit hdigit rfl, ne_of_isDigit hdigit rfl⟩
    · decide
  unfold unsigned exponentChars
  cases l.exponent with
  | none =>
      show splitOnce _ (l.mantissa ++ []) ['0'] = (l.mantissa, ['0'])
      rw [List.append_nil]
      exact splitOnce_of_not_mem hmantissa
  | some e =>
      refine splitOnce_of_mem hmantissa (decide_eq_true ?_)
      have hmark := e.mark_mem
      rw [List.mem_cons, List.mem_singleton] at hmark
      exact hmark

theorem split_fraction : splitOnce (fun c => c = '.') l.mantissa [] = (l.integer, l.decimals) := by
  have hinteger : ∀ d ∈ l.integer, decide (d = '.') = false := fun d hd =>
    decide_eq_false (ne_of_isDigit (digits_iff.mp l.integer_all d hd) rfl)
  unfold mantissa decimals
  cases l.fraction with
  | none =>
      show splitOnce _ (l.integer ++ []) [] = (l.integer, [])
      rw [List.append_nil]
      exact splitOnce_of_not_mem hinteger
  | some f => exact splitOnce_of_mem hinteger (decide_eq_true rfl)

def significant : List Char := (l.integer ++ l.decimals).dropWhile (· = '0')

/-- **The decision sees the parts of a literal.** -/
theorem decimalParts_text : decimalParts l.text =
    some (l.negative, l.significant, l.decimals.length, l.exponentChars) := by
  have hlist : l.text.toList = l.chars := String.toList_ofList
  have hchars : l.chars = (if l.negative then ['-'] else []) ++ l.unsigned := rfl
  have hfine : ¬ (l.integer = [] ∨ digits l.integer = false ∨ digits l.decimals = false) := by
    rw [l.integer_all, l.decimals_all]
    simp [l.integer_ne]
  unfold decimalParts
  rw [hlist, hchars]
  cases l.negative with
  | true =>
      simp only [if_true, List.singleton_append, split_exponent, split_fraction]
      exact if_neg hfine
  | false =>
      obtain ⟨c, rest, hunsigned, hc⟩ := l.unsigned_head
      have hminus : c ≠ '-' := ne_of_isDigit hc rfl
      simp only [Bool.false_eq_true, if_false, List.nil_append]
      split
      · rename_i heq
        rw [hunsigned] at heq
        exact absurd (List.head_eq_of_cons_eq heq) hminus
      · simp only [split_exponent, split_fraction]
        exact if_neg hfine

/-! ### The exponent -/

theorem parseInteger_digits {bits : Nat} {ds : List Char} (hne : ds ≠ []) (hall : digits ds = true)
    (negative : Bool) :
    (if ds = [] ∨ digits ds = false then none
      else
        let value : Int := if negative then -number ds else number ds
        if -2 ^ (bits - 1) ≤ value ∧ value < 2 ^ (bits - 1) then some value else none) =
      let value : Int := if negative then -number ds else number ds
      if -2 ^ (bits - 1) ≤ value ∧ value < 2 ^ (bits - 1) then some value else none := by
  refine if_neg ?_
  rw [hall]
  simp [hne]

theorem parseInteger_chars (e : ExponentPart) (bits : Nat) : parseInteger bits e.chars =
    if -2 ^ (bits - 1) ≤ e.value ∧ e.value < 2 ^ (bits - 1) then some e.value else none := by
  have hsign := e.sign_mem
  unfold ExponentPart.chars ExponentPart.value
  cases hs : e.sign with
  | none =>
      obtain ⟨c, rest, hdigits⟩ := List.exists_cons_of_ne_nil e.digits_ne
      have hc : c.isDigit = true := digits_iff.mp e.digits_all c (hdigits ▸ List.mem_cons_self)
      rw [Option.toList_none, List.nil_append]
      unfold parseInteger
      split
      rename_i negative ds heq
      split at heq
      · rename_i hhead
        rw [hdigits] at hhead
        exact absurd (List.head_eq_of_cons_eq hhead) (ne_of_isDigit hc rfl)
      · rename_i hhead
        rw [hdigits] at hhead
        exact absurd (List.head_eq_of_cons_eq hhead) (ne_of_isDigit hc rfl)
      · cases heq; exact parseInteger_digits e.digits_ne e.digits_all false
  | some c =>
      have hc := hsign c hs
      rw [List.mem_cons, List.mem_singleton] at hc
      rcases hc with rfl | rfl
      · exact parseInteger_digits e.digits_ne e.digits_all false
      · exact parseInteger_digits e.digits_ne e.digits_all true

/-- **The exponent is read unless it is too large for the bits there are.** -/
theorem parse_exponent (bits : Nat) : parseInteger bits l.exponentChars =
    if -2 ^ (bits - 1) ≤ l.power ∧ l.power < 2 ^ (bits - 1) then some l.power else none := by
  unfold exponentChars power
  cases l.exponent with
  | none =>
      show parseInteger bits ['0'] = if -2 ^ (bits - 1) ≤ (0 : ℤ) ∧ (0 : ℤ) < 2 ^ (bits - 1) then some 0 else none
      rfl
  | some e => exact parseInteger_chars e bits

theorem exponent_minus (h : l.power < 0) : l.exponentChars.head? = some '-' := by
  unfold power at h
  unfold exponentChars
  cases he : l.exponent with
  | none => rw [he] at h; exact absurd h (Int.lt_irrefl 0)
  | some e =>
      rw [he] at h
      have hvalue : e.value < 0 := h
      unfold ExponentPart.value at hvalue
      split at hvalue
      · rename_i hs
        show e.chars.head? = some '-'
        unfold ExponentPart.chars
        rw [hs]
        rfl
      · omega

theorem exponent_plus (h : 0 < l.power) : l.exponentChars.head? ≠ some '-' := by
  unfold power at h
  unfold exponentChars
  cases he : l.exponent with
  | none => rw [he] at h; exact absurd h (Int.lt_irrefl 0)
  | some e =>
      rw [he] at h
      have hvalue : 0 < e.value := h
      unfold ExponentPart.value at hvalue
      split at hvalue
      · omega
      · rename_i hs
        show e.chars.head? ≠ some '-'
        unfold ExponentPart.chars
        cases hsign : e.sign with
        | none =>
            obtain ⟨c, rest, hdigits⟩ := List.exists_cons_of_ne_nil e.digits_ne
            have hc : c.isDigit = true := digits_iff.mp e.digits_all c (hdigits ▸ List.mem_cons_self)
            rw [hdigits]
            exact fun heq => ne_of_isDigit hc rfl (Option.some.inj heq)
        | some c =>
            exact fun heq => hs (hsign.trans heq)

/-! ### The value -/

def scale : ℤ := l.power - l.decimals.length

theorem significant_all : ∀ c ∈ l.significant, c.isDigit = true := by
  intro c hc
  rcases List.mem_append.mp ((List.dropWhile_suffix _).subset hc) with h | h
  · exact digits_iff.mp l.integer_all c h
  · exact digits_iff.mp l.decimals_all c h

theorem significant_head {c : Char} (h : l.significant.head? = some c) : c ≠ '0' := by
  have hnot := List.head?_dropWhile_not (· = '0') (l.integer ++ l.decimals)
  unfold significant at h
  rw [h] at hnot
  simpa using hnot

theorem number_pos (h : l.significant ≠ []) : 0 < Decimal.number l.significant := by
  obtain ⟨c, rest, hcons⟩ := List.exists_cons_of_ne_nil h
  have hfirst : l.significant.head? = some c := by
    rw [hcons]
    rfl
  refine lt_of_lt_of_le (Nat.pow_pos (by omega)) (Decimal.le_number l.significant_all hfirst ?_)
  exact l.significant_head hfirst

/-- **The value of a literal is that of its digits, with the point moved.** -/
theorem value_eq : l.value =
    (if l.negative then -1 else 1) * ((Decimal.number l.significant : ℚ) * 10 ^ l.scale) := by
  have hnumber : Decimal.number l.significant =
      number l.integer * 10 ^ l.decimals.length + number l.decimals := by
    unfold significant
    rw [Decimal.number_dropWhile, Decimal.number_append]
    rfl
  have hten : (10 : ℚ) ≠ 0 := by norm_num
  have hpow : (10 : ℚ) ^ l.decimals.length ≠ 0 := pow_ne_zero _ hten
  unfold value scale
  rw [hnumber, zpow_sub₀ hten, zpow_natCast]
  push_cast
  congr 1
  field_simp

theorem significant_length : l.significant.length ≤ l.chars.length := by
  have hdrop := (List.dropWhile_suffix (l := l.integer ++ l.decimals) (· = '0')).length_le
  refine hdrop.trans ?_
  rw [List.length_append]
  unfold chars mantissa decimals
  cases l.fraction with
  | none | some =>
      simp
      omega

theorem decimals_length : l.decimals.length ≤ l.chars.length := by
  unfold chars mantissa decimals
  cases l.fraction with
  | none => simp
  | some f =>
      simp
      omega

end NumberLiteral

/-! ### Safe integers -/

/-- Digits and zeros behind them, if that is a safe integer. -/
def boundedValue (kept : List Char) (zeros : Nat) : Option Nat :=
  if 16 < kept.length + zeros then none
  else if number kept * 10 ^ zeros ≤ safeInteger then some (number kept * 10 ^ zeros) else none

/-- What is left of some digits when the point is moved, if it is a safe integer. -/
def safeMagnitude (ds : List Char) (scale : ℤ) : Option Nat :=
  if scale < 0 ∧ trailingZeros ds < (-scale).toNat then none
  else boundedValue (ds.take (ds.length - (-scale).toNat)) scale.toNat

def signed (negative : Bool) (v : Nat) : Int := if negative then -(v : Int) else v

section Magnitude

variable {ds : List Char} {scale : ℤ}

theorem number_moved (h : ¬ (scale < 0 ∧ trailingZeros ds < (-scale).toNat)) :
    (Decimal.number ds : ℚ) * 10 ^ scale =
      ((number (ds.take (ds.length - (-scale).toNat)) * 10 ^ scale.toNat : ℕ) : ℚ) := by
  have hten : (10 : ℚ) ≠ 0 := by norm_num
  have hk : (-scale).toNat ≤ Decimal.trailing ds := by
    rcases Int.lt_or_le scale 0 with hneg | hpos
    · exact Nat.not_lt.mp fun hlt => h ⟨hneg, hlt⟩
    · rw [Int.toNat_of_nonpos (by omega)]; exact Nat.zero_le _
  have hscale : scale = (scale.toNat : ℤ) - ((-scale).toNat : ℤ) := by omega
  have hpow : (10 : ℚ) ^ (-scale).toNat ≠ 0 := pow_ne_zero _ hten
  have hexp : (10 : ℚ) ^ scale = 10 ^ scale.toNat / 10 ^ (-scale).toNat := by
    conv_lhs => rw [hscale]
    rw [zpow_sub₀ hten, zpow_natCast, zpow_natCast]
  have hnumber : (Decimal.number ds : ℚ) =
      number (ds.take (ds.length - (-scale).toNat)) * 10 ^ (-scale).toNat := by
    exact_mod_cast (Decimal.number_take hk).symm
  rw [hnumber, hexp]
  push_cast
  field_simp

/-- **The digits are decided exactly.** -/
theorem safeMagnitude_eq_some (hall : ∀ c ∈ ds, c.isDigit = true) (hne : ds ≠ [])
    (hhead : ∀ c, ds.head? = some c → c ≠ '0') {v : Nat} :
    safeMagnitude ds scale = some v ↔
      (Decimal.number ds : ℚ) * 10 ^ scale = v ∧ v ≤ safeInteger := by
  have hpos : 0 < Decimal.number ds := by
    obtain ⟨c, rest, rfl⟩ := List.exists_cons_of_ne_nil hne
    exact lt_of_lt_of_le (Nat.pow_pos (by omega)) (Decimal.le_number hall rfl (hhead c rfl))
  unfold safeMagnitude
  by_cases hneg : scale < 0 ∧ trailingZeros ds < (-scale).toNat
  · -- the point would be moved over a digit that is not zero
    rw [if_pos hneg]
    constructor
    · intro h; cases h
    · rintro ⟨hvalue, -⟩
      obtain ⟨hdvd, hmax⟩ := Decimal.number_trailing hall hpos
      have hle := (isInt_iff hdvd hmax).mp ⟨(v : ℤ), by rw [hvalue]; norm_cast⟩
      have htrailing : trailingZeros ds = Decimal.trailing ds := rfl
      omega
  · rw [if_neg hneg, number_moved hneg]
    have hmoved := number_moved hneg
    generalize hkept : ds.take (ds.length - (-scale).toNat) = kept at hmoved ⊢
    unfold boundedValue
    by_cases hlong : 16 < kept.length + scale.toNat
    · -- too many digits: the first one is not zero
      simp only [if_pos hlong]
      constructor
      · intro h; cases h
      · rintro ⟨hvalue, hle⟩
        have hkeptNe : kept ≠ [] := fun hnil => by
          rw [hnil] at hmoved
          have hten : (10 : ℚ) ^ scale ≠ 0 := zpow_ne_zero _ (by norm_num)
          have hzero : (Decimal.number ds : ℚ) * 10 ^ scale = 0 := by
            rw [hmoved]
            simp [number]
          rcases mul_eq_zero.mp hzero with hds | hds
          · exact absurd (Nat.cast_eq_zero.mp hds) (Nat.pos_iff_ne_zero.mp hpos)
          · exact hten hds
        obtain ⟨c, rest, hcons⟩ := List.exists_cons_of_ne_nil hkeptNe
        have hfirst : ds.head? = some c := by
          have htake : (ds.take (ds.length - (-scale).toNat)).head? = some c := by
            rw [hkept, hcons]
            rfl
          rw [List.head?_take] at htake
          split at htake
          · cases htake
          · exact htake
        have hkeptAll : ∀ d ∈ kept, d.isDigit = true := fun d hd =>
          hall d (List.mem_of_mem_take (hkept ▸ hd))
        have hlow := Decimal.le_number hkeptAll (by rw [hcons]; rfl) (hhead c hfirst)
        have hvalue : number kept * 10 ^ scale.toNat = v := by exact_mod_cast hvalue
        have hbig : 10 ^ 16 ≤ v := by
          calc 10 ^ 16 ≤ 10 ^ (kept.length - 1 + scale.toNat) :=
                Nat.pow_le_pow_right (by omega) (by
                  have := List.length_pos_iff.mpr hkeptNe
                  omega)
            _ = 10 ^ (kept.length - 1) * 10 ^ scale.toNat := pow_add _ _ _
            _ ≤ number kept * 10 ^ scale.toNat := Nat.mul_le_mul_right _ hlow
            _ = v := hvalue
        unfold safeInteger at hle
        omega
    · simp only [if_neg hlong]
      generalize number kept * 10 ^ scale.toNat = value
      constructor
      · intro h
        split at h
        · rename_i hle
          cases h
          exact ⟨rfl, hle⟩
        · cases h
      · rintro ⟨hvalue, hle⟩
        have heq : value = v := by exact_mod_cast hvalue
        rw [heq, if_pos hle]

end Magnitude

/-! ### The decisions on a literal -/

namespace NumberLiteral

variable (l : NumberLiteral)

theorem exactSafeInteger_parts : exactSafeInteger l.text =
    if l.significant = [] then some 0
    else if -2 ^ 63 ≤ l.power ∧ l.power < 2 ^ 63 then
      (safeMagnitude l.significant l.scale).map (signed l.negative)
    else none := by
  unfold exactSafeInteger
  rw [l.decimalParts_text]
  by_cases hzero : l.significant = []
  · simp [hzero]
  · rw [if_neg hzero]
    simp only [Option.bind_eq_bind, Option.bind_some, hzero, if_false, l.parse_exponent]
    by_cases hrange : -2 ^ 63 ≤ l.power ∧ l.power < 2 ^ 63
    · rw [if_pos hrange, if_pos hrange]
      simp only [Option.bind_some]
      unfold safeMagnitude boundedValue signed scale
      split_ifs <;> rfl
    · rw [if_neg hrange, if_neg hrange]; rfl

variable {l}

/-- A power that does not fit into its bits leaves no safe integer of so few digits. -/
theorem safeMagnitude_of_range (h : l.chars.length ≤ requestBytes)
    (hrange : ¬ (-2 ^ 63 ≤ l.power ∧ l.power < 2 ^ 63)) :
    safeMagnitude l.significant l.scale = none := by
  have hsignificant := l.significant_length.trans h
  have hdecimals := l.decimals_length.trans h
  have htrailing : trailingZeros l.significant ≤ l.significant.length := Decimal.trailing_le _
  unfold requestBytes at hsignificant hdecimals
  unfold safeMagnitude
  by_cases hlow : l.power < -2 ^ 63
  · rw [if_pos]
    unfold scale
    omega
  · rw [if_neg]
    · unfold boundedValue
      rw [if_pos]
      unfold scale
      omega
    · unfold scale
      omega

theorem signed_iff {x : ℚ} (hx : 0 ≤ x) {n : ℤ} :
    (∃ v : Nat, (x = v ∧ v ≤ safeInteger) ∧ signed l.negative v = n) ↔
      (if l.negative then -1 else 1) * x = n ∧ |n| ≤ safeInteger := by
  unfold signed
  constructor
  · rintro ⟨v, ⟨rfl, hle⟩, rfl⟩
    split_ifs
    · refine ⟨by push_cast; ring, ?_⟩
      rw [abs_neg, Nat.abs_cast]
      exact_mod_cast hle
    · refine ⟨by push_cast; ring, ?_⟩
      rw [Nat.abs_cast]
      exact_mod_cast hle
  · rintro ⟨hvalue, hle⟩
    have habs : x = ((n.natAbs : ℕ) : ℚ) := by
      rw [Nat.cast_natAbs, Int.cast_abs, ← hvalue, abs_mul, abs_of_nonneg hx]
      split_ifs <;> simp
    rw [← Int.natCast_natAbs] at hle
    generalize n.natAbs = v at habs hle
    refine ⟨v, ⟨habs, by exact_mod_cast hle⟩, ?_⟩
    have hint : ((if l.negative then -(v : ℤ) else (v : ℤ) : ℤ) : ℚ) = n := by
      rw [← hvalue, habs]
      split_ifs <;> push_cast <;> ring
    exact_mod_cast hint

/-- **A safe integer is decided exactly.** -/
theorem exactSafeInteger_iff (h : l.chars.length ≤ requestBytes) (n : ℤ) :
    exactSafeInteger l.text = some n ↔ l.value = n ∧ |n| ≤ safeInteger := by
  have hsafe : (0 : ℤ) ≤ safeInteger := Int.natCast_nonneg _
  rw [l.exactSafeInteger_parts, l.value_eq]
  by_cases hzero : l.significant = []
  · rw [if_pos hzero, hzero]
    have hnumber : (Decimal.number [] : ℚ) = 0 := Nat.cast_zero
    rw [hnumber, zero_mul, mul_zero]
    constructor
    · intro hn
      cases hn
      exact ⟨by norm_num, by rw [abs_zero]; exact hsafe⟩
    · rintro ⟨hn, -⟩
      rw [show n = 0 by exact_mod_cast hn.symm]
  · have hmagnitude : (if -2 ^ 63 ≤ l.power ∧ l.power < 2 ^ 63 then
        (safeMagnitude l.significant l.scale).map (signed l.negative) else none) =
        (safeMagnitude l.significant l.scale).map (signed l.negative) := by
      by_cases hrange : -2 ^ 63 ≤ l.power ∧ l.power < 2 ^ 63
      · rw [if_pos hrange]
      · rw [if_neg hrange, safeMagnitude_of_range h hrange]; rfl
    rw [if_neg hzero, hmagnitude, Option.map_eq_some_iff, ← signed_iff (by positivity)]
    refine exists_congr fun v => and_congr_left fun _ => ?_
    exact safeMagnitude_eq_some l.significant_all hzero fun c hc => l.significant_head hc

/-! ### Integers of any size -/

theorem exactJsonInteger_parts (h : l.chars.length ≤ requestBytes) :
    exactJsonInteger l.text = decide (l.significant = [] ∨ 0 ≤ l.scale + trailingZeros l.significant) := by
  have hdecimals := l.decimals_length.trans h
  have hsignificant := l.significant_length.trans h
  have htrailing : trailingZeros l.significant ≤ l.significant.length := Decimal.trailing_le _
  unfold requestBytes at hsignificant hdecimals
  unfold exactJsonInteger
  rw [l.decimalParts_text]
  simp only [l.parse_exponent]
  by_cases hzero : l.significant = []
  · rw [if_pos hzero, decide_eq_true (.inl hzero)]
  · rw [if_neg hzero]
    have hscale : l.scale = l.power - l.decimals.length := rfl
    by_cases hrange : -2 ^ 127 ≤ l.power ∧ l.power < 2 ^ 127
    · simp only [if_pos hrange]
      rw [decide_eq_decide, hscale, or_iff_right hzero]
      omega
    · -- the power alone decides
      simp only [if_neg hrange]
      rw [decide_eq_decide, hscale, or_iff_right hzero]
      by_cases hlow : l.power < -2 ^ 127
      · have hminus := l.exponent_minus (by omega)
        constructor
        · exact fun hne => absurd hminus hne
        · omega
      · have hplus := l.exponent_plus (by omega)
        constructor
        · omega
        · exact fun _ => hplus

/-- **An integer is decided exactly.** -/
theorem exactJsonInteger_iff (h : l.chars.length ≤ requestBytes) :
    exactJsonInteger l.text = true ↔ ∃ n : ℤ, l.value = n := by
  rw [exactJsonInteger_parts h, decide_eq_true_iff, l.value_eq]
  by_cases hzero : l.significant = []
  · have hnumber : (Decimal.number [] : ℚ) = 0 := Nat.cast_zero
    rw [hzero, hnumber, zero_mul, mul_zero]
    exact ⟨fun _ => ⟨0, Int.cast_zero.symm⟩, fun _ => .inl rfl⟩
  · obtain ⟨hdvd, hmax⟩ := Decimal.number_trailing l.significant_all (l.number_pos hzero)
    have hsign : (∃ n : ℤ, (if l.negative then -1 else 1) *
        ((Decimal.number l.significant : ℚ) * 10 ^ l.scale) = n) ↔
        ∃ n : ℤ, (Decimal.number l.significant : ℚ) * 10 ^ l.scale = n := by
      cases l.negative with
      | false => simp only [Bool.false_eq_true, if_false, one_mul]
      | true =>
          simp only [if_true, neg_one_mul]
          constructor
          · rintro ⟨n, hn⟩
            exact ⟨-n, by rw [Int.cast_neg, ← hn, neg_neg]⟩
          · rintro ⟨n, hn⟩
            exact ⟨-n, by rw [Int.cast_neg, ← hn]⟩
    rw [hsign, isInt_iff hdvd hmax]
    exact ⟨fun hor => hor.resolve_left hzero, .inr⟩

/-! ### No check fails -/

theorem i64_natCast {v : Nat} (h : v < 2 ^ 63) : i64 v = some (v : Int) := by
  unfold i64
  exact if_pos (by omega)

theorem checkedDigit_eq {c : Char} {v : Nat} (h : v * 10 + Decimal.digit c < 2 ^ 63) :
    checkedDigit v c = some ((v * 10 + Decimal.digit c : Nat) : Int) := by
  have hmul : i64 ((v : Int) * 10) = some ((v * 10 : Nat) : Int) :=
    i64_natCast (v := v * 10) (by omega)
  unfold checkedDigit
  rw [hmul, Option.bind_some]
  exact i64_natCast h

theorem foldlM_digits {ds : List Char} {v : Nat}
    (h : v * 10 ^ ds.length + Decimal.number ds < 2 ^ 63) :
    ds.foldlM checkedDigit (v : Int) =
      some ((v * 10 ^ ds.length + Decimal.number ds : Nat) : Int) := by
  induction ds generalizing v with
  | nil => simp [Decimal.number]
  | cons c ds ih =>
      have hpow : 0 < 10 ^ ds.length := Nat.pow_pos (by omega)
      have hnext : v * 10 ^ (c :: ds).length + Decimal.number (c :: ds) =
          (v * 10 + Decimal.digit c) * 10 ^ ds.length + Decimal.number ds := by
        rw [Decimal.number_cons, List.length_cons, pow_succ]
        ring
      rw [hnext] at h ⊢
      have hsmall : v * 10 + Decimal.digit c < 2 ^ 63 := by
        have hle := Nat.le_mul_of_pos_right (v * 10 + Decimal.digit c) hpow
        omega
      rw [List.foldlM_cons, checkedDigit_eq hsmall]
      exact ih h

theorem foldlM_zeros {zeros v : Nat} (h : v * 10 ^ zeros < 2 ^ 63) :
    (List.replicate zeros ()).foldlM (fun v _ => i64 (v * 10)) (v : Int) =
      some ((v * 10 ^ zeros : Nat) : Int) := by
  induction zeros generalizing v with
  | zero => simp
  | succ zeros ih =>
      have hpow : 0 < 10 ^ zeros := Nat.pow_pos (by omega)
      have hnext : v * 10 ^ (zeros + 1) = v * 10 * 10 ^ zeros := by
        rw [pow_succ]
        ring
      rw [hnext] at h ⊢
      have hsmall : v * 10 < 2 ^ 63 := lt_of_le_of_lt (Nat.le_mul_of_pos_right _ hpow) h
      have hmul : i64 ((v : Int) * 10) = some ((v * 10 : Nat) : Int) := i64_natCast hsmall
      rw [List.replicate_succ, List.foldlM_cons, hmul]
      exact ih h

theorem checkedValue_eq {kept : List Char} {zeros : Nat} (hall : ∀ c ∈ kept, c.isDigit = true)
    (hlength : kept.length + zeros < 2 ^ 64) (negative : Bool) :
    checkedValue negative kept zeros = (boundedValue kept zeros).map (signed negative) := by
  have husize : usize ((kept.length : Int) + zeros) = some (kept.length + zeros) := by
    unfold usize
    rw [if_pos (by omega)]
    rfl
  unfold checkedValue boundedValue signed
  rw [husize]
  simp only [Option.bind_eq_bind, Option.bind_some]
  by_cases hlong : 16 < kept.length + zeros
  · rw [if_pos hlong, if_pos hlong]; rfl
  · rw [if_neg hlong, if_neg hlong]
    have hkept := Decimal.number_lt hall
    have hsmall : number kept * 10 ^ zeros < 2 ^ 63 := by
      calc number kept * 10 ^ zeros ≤ 10 ^ kept.length * 10 ^ zeros :=
            Nat.mul_le_mul_right _ (Nat.le_of_lt hkept)
        _ = 10 ^ (kept.length + zeros) := (pow_add _ _ _).symm
        _ ≤ 10 ^ 16 := Nat.pow_le_pow_right (by omega) (by omega)
        _ < 2 ^ 63 := by norm_num
    have hdigits : kept.foldlM checkedDigit 0 = some ((number kept : Nat) : Int) := by
      have hfits : 0 * 10 ^ kept.length + Decimal.number kept < 2 ^ 63 := by
        rw [Nat.zero_mul, Nat.zero_add]
        exact lt_of_le_of_lt (Nat.le_mul_of_pos_right _ (Nat.pow_pos (by omega))) hsmall
      have hfold := foldlM_digits hfits
      rwa [Nat.zero_mul, Nat.zero_add] at hfold
    rw [hdigits, Option.bind_some, foldlM_zeros hsmall, Option.bind_some]
    simp only [Nat.cast_le]
    split_ifs <;> rfl

/-- **Within a frame no check of the machine's arithmetic fails.** -/
theorem checkedSafeInteger_eq (h : l.chars.length ≤ requestBytes) :
    checkedSafeInteger l.text = exactSafeInteger l.text := by
  have hdecimals := l.decimals_length.trans h
  have hsignificant := l.significant_length.trans h
  unfold requestBytes at hsignificant hdecimals
  rw [exactSafeInteger_parts]
  unfold checkedSafeInteger
  rw [l.decimalParts_text]
  simp only [Option.bind_eq_bind, Option.bind_some, l.parse_exponent]
  by_cases hzero : l.significant = []
  · simp [hzero]
  · simp only [if_neg hzero]
    by_cases hrange : -2 ^ 63 ≤ l.power ∧ l.power < 2 ^ 63
    · simp only [if_pos hrange, Option.bind_some]
      have hscale : l.power - l.decimals.length = l.scale := rfl
      have hlow : -2 ^ 63 - 16384 ≤ l.scale := by omega
      have hhigh : l.scale < 2 ^ 63 := by omega
      rw [hscale]
      unfold safeMagnitude
      by_cases hneg : l.scale < 0
      · have hremove : usize (-l.scale) = some (-l.scale).toNat := by
          unfold usize
          exact if_pos (by omega)
        have hzeros : l.scale.toNat = 0 := Int.toNat_of_nonpos (by omega)
        rw [if_pos hneg, hremove, Option.bind_some, hzeros]
        by_cases htrailing : trailingZeros l.significant < (-l.scale).toNat
        · rw [if_pos htrailing, if_pos ⟨hneg, htrailing⟩]; rfl
        · have hlength := List.length_take_le (l.significant.length - (-l.scale).toNat) l.significant
          rw [if_neg htrailing, if_neg fun hboth => htrailing hboth.2]
          refine checkedValue_eq (fun c hc => l.significant_all c (List.mem_of_mem_take hc)) ?_ _
          omega
      · have hzeros : usize l.scale = some l.scale.toNat := by
          unfold usize
          exact if_pos (by omega)
        have hremove : (-l.scale).toNat = 0 := Int.toNat_of_nonpos (by omega)
        rw [if_neg hneg, hzeros, Option.bind_some, hremove, Nat.sub_zero, List.take_length,
          if_neg fun hboth => hneg hboth.1]
        exact checkedValue_eq l.significant_all (by omega) _
    · simp only [if_neg hrange]
      rfl

theorem checkedJsonInteger_eq (h : l.chars.length ≤ requestBytes) :
    checkedJsonInteger l.text = exactJsonInteger l.text := by
  have hdecimals := l.decimals_length.trans h
  have hsignificant := l.significant_length.trans h
  have htrailing : trailingZeros l.significant ≤ l.significant.length := Decimal.trailing_le _
  unfold requestBytes at hsignificant hdecimals
  unfold checkedJsonInteger exactJsonInteger
  rw [l.decimalParts_text]
  simp only [l.parse_exponent]
  by_cases hzero : l.significant = []
  · rw [if_pos hzero, if_pos hzero]
  · rw [if_neg hzero, if_neg hzero]
    by_cases hrange : -2 ^ 127 ≤ l.power ∧ l.power < 2 ^ 127
    · simp only [if_pos hrange]
      unfold saturatingAdd
      rw [decide_eq_decide]
      omega
    · simp only [if_neg hrange]

end NumberLiteral

/-- **JSON numbers are decided exactly.**  Of a number that fits into a frame `exactSafeInteger`
says which safe integer it is, if it is one, and `exactJsonInteger` whether it is an integer at
all, by the exact value and without any overflow; so two identifiers that are the same number
have the same key. -/
theorem numbers_exact (l : NumberLiteral) (h : l.chars.length ≤ requestBytes) :
    (∀ n : ℤ, exactSafeInteger l.text = some n ↔ l.value = n ∧ |n| ≤ safeInteger) ∧
      (exactJsonInteger l.text = true ↔ ∃ n : ℤ, l.value = n) ∧
      (checkedSafeInteger l.text = exactSafeInteger l.text ∧
        checkedJsonInteger l.text = exactJsonInteger l.text) ∧
      ∀ l' : NumberLiteral, l'.chars.length ≤ requestBytes → l'.value = l.value →
        keyFor (.num l'.text) = keyFor (.num l.text) ∧
          decodeId [("id", .num l'.text)] = decodeId [("id", .num l.text)] := by
  refine ⟨NumberLiteral.exactSafeInteger_iff h, NumberLiteral.exactJsonInteger_iff h,
    ⟨NumberLiteral.checkedSafeInteger_eq h, NumberLiteral.checkedJsonInteger_eq h⟩,
    fun l' h' hvalue => ?_⟩
  have hsame : exactSafeInteger l'.text = exactSafeInteger l.text := by
    refine Option.ext fun n => ?_
    rw [NumberLiteral.exactSafeInteger_iff h', NumberLiteral.exactSafeInteger_iff h, hvalue]
  constructor
  · show (exactSafeInteger l'.text).map IdKey.integer = (exactSafeInteger l.text).map IdKey.integer
    rw [hsame]
  · unfold decodeId
    simp only [Json.get, List.find?_cons, decide_true, Option.map_some, hsame]

/-- `10e-1` is one. -/
theorem numbers_exact_ten :
    let ten : NumberLiteral := ⟨false, ['1', '0'], none,
      some ⟨'e', some '-', ['1'], by decide, fun c hc => by cases hc; decide, by decide,
        by decide⟩,
      by decide, by decide, by decide, by decide⟩
    ten.text = "10e-1" ∧ ten.value = 1 ∧ exactSafeInteger "10e-1" = some 1 := by
  intro ten
  have htext : ten.text = "10e-1" := rfl
  have hvalue : ten.value = 1 := by
    show (1 : ℚ) * (((10 : ℕ) + (0 : ℕ) / 10 ^ 0) * 10 ^ (-1 : ℤ)) = 1
    norm_num
  have hlength : ten.chars.length = 5 := rfl
  have hfits : ten.chars.length ≤ requestBytes := by
    rw [hlength]
    unfold requestBytes
    omega
  have hexact := (numbers_exact ten hfits).1 1
  refine ⟨htext, hvalue, ?_⟩
  rw [htext] at hexact
  exact hexact.mpr ⟨by rw [hvalue]; norm_num, by decide⟩

end Baleyg.Mcp
