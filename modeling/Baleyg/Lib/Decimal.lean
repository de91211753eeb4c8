/-
Decimal digits and powers of ten.

A list of digits stands for a number, and a number times a power of ten is an integer if and
only if the power takes no more away than the number ends in zeros.  The digits say both how
large the number is and how many zeros there are, so that neither the number nor the power has
to be computed.
-/
import Mathlib.Algebra.Order.Field.Power
import Mathlib.Data.List.TakeWhile
import Mathlib.Tactic.FieldSimp
import Mathlib.Tactic.Linarith
import Mathlib.Tactic.Ring

namespace Decimal

/-! ### Digits -/

def digit (c : Char) : Nat := c.toNat - '0'.toNat

/-- The number some digits spell, most significant digit first. -/
def number (ds : List Char) : Nat := ds.foldl (fun n c => 10 * n + digit c) 0

variable {c : Char} {ds : List Char}

theorem digit_le (h : c.isDigit = true) : digit c ≤ 9 := by
  unfold Char.isDigit at h
  rw [Bool.and_eq_true, decide_eq_true_iff, decide_eq_true_iff] at h
  have hle : c.toNat ≤ '9'.toNat := h.2
  have hnine : '9'.toNat = '0'.toNat + 9 := rfl
  unfold digit
  omega

theorem digit_pos (h : c.isDigit = true) (hc : c ≠ '0') : 0 < digit c := by
  unfold Char.isDigit at h
  rw [Bool.and_eq_true, decide_eq_true_iff, decide_eq_true_iff] at h
  have hge : '0'.toNat ≤ c.toNat := h.1
  have hne : c.toNat ≠ '0'.toNat := fun heq => hc (Char.toNat_inj.mp heq)
  unfold digit
  omega

theorem foldl_digits (n : Nat) (ds : List Char) :
    ds.foldl (fun n c => 10 * n + digit c) n = n * 10 ^ ds.length + number ds := by
  unfold number
  induction ds generalizing n with
  | nil => simp
  | cons c ds ih =>
      rw [List.foldl_cons, List.foldl_cons, ih (10 * n + digit c), ih (10 * 0 + digit c),
        List.length_cons, pow_succ]
      ring

theorem number_append (ds es : List Char) :
    number (ds ++ es) = number ds * 10 ^ es.length + number es := by
  unfold number
  rw [List.foldl_append, foldl_digits]
  rfl

theorem number_cons (c : Char) (ds : List Char) :
    number (c :: ds) = digit c * 10 ^ ds.length + number ds := by
  have h := number_append [c] ds
  rw [List.singleton_append] at h
  rw [h]
  unfold number
  simp

theorem number_dropWhile (ds : List Char) : number (ds.dropWhile (· = '0')) = number ds := by
  induction ds with
  | nil => rfl
  | cons c ds ih =>
      rw [List.dropWhile_cons]
      by_cases hc : c = '0'
      · have hzero : digit '0' = 0 := rfl
        rw [if_pos (decide_eq_true hc), ih, hc, number_cons, hzero, Nat.zero_mul, Nat.zero_add]
      · rw [if_neg (by simpa using hc)]

theorem number_lt (h : ∀ c ∈ ds, c.isDigit = true) : number ds < 10 ^ ds.length := by
  induction ds with
  | nil => exact Nat.one_pos
  | cons c ds ih =>
      rw [number_cons, List.length_cons, pow_succ]
      have hc := digit_le (h c List.mem_cons_self)
      have hds := ih fun d hd => h d (List.mem_cons_of_mem c hd)
      nlinarith

/-- **Digits without a zero in front say how large the number is.** -/
theorem le_number (h : ∀ c ∈ ds, c.isDigit = true) (hhead : ds.head? = some c) (hc : c ≠ '0') :
    10 ^ (ds.length - 1) ≤ number ds := by
  cases ds with
  | nil => cases hhead
  | cons d ds =>
      obtain rfl := Option.some.inj hhead
      rw [number_cons, List.length_cons, Nat.add_sub_cancel]
      have hpos := digit_pos (h d List.mem_cons_self) hc
      have hpow : 0 < 10 ^ ds.length := Nat.pow_pos (by omega)
      nlinarith

/-! ### Zeros at the end -/

/-- How many zeros there are at the end. -/
def trailing (ds : List Char) : Nat := (ds.reverse.takeWhile (· = '0')).length

theorem takeWhile_zeros (ds : List Char) :
    ds.takeWhile (· = '0') = List.replicate (ds.takeWhile (· = '0')).length '0' := by
  refine List.eq_replicate_iff.mpr ⟨rfl, fun c hc => ?_⟩
  simpa using List.mem_takeWhile_imp hc

/-- **Digits are some that do not end in a zero, and then the zeros.** -/
theorem exists_append_zeros (ds : List Char) :
    ∃ front, ds = front ++ List.replicate (trailing ds) '0' ∧ front.getLast? ≠ some '0' := by
  refine ⟨(ds.reverse.dropWhile (· = '0')).reverse, ?_, ?_⟩
  · have hsplit := List.takeWhile_append_dropWhile (p := (· = '0')) (l := ds.reverse)
    rw [takeWhile_zeros] at hsplit
    have hreverse := congrArg List.reverse hsplit
    rw [List.reverse_append, List.reverse_replicate, List.reverse_reverse] at hreverse
    exact hreverse.symm
  · rw [List.getLast?_reverse]
    intro hhead
    have hnot := List.head?_dropWhile_not (· = '0') ds.reverse
    rw [hhead] at hnot
    simp at hnot

theorem trailing_le (ds : List Char) : trailing ds ≤ ds.length := by
  unfold trailing
  have h := (List.takeWhile_prefix (l := ds.reverse) fun c => decide (c = '0')).length_le
  rwa [List.length_reverse] at h

theorem number_zeros (t : Nat) : number (List.replicate t '0') = 0 := by
  induction t with
  | zero => rfl
  | succ t ih =>
      have hzero : digit '0' = 0 := rfl
      rw [List.replicate_succ, number_cons, ih, hzero, Nat.zero_mul]

theorem number_take {k : Nat} (hk : k ≤ trailing ds) :
    number (ds.take (ds.length - k)) * 10 ^ k = number ds := by
  obtain ⟨front, hds, -⟩ := exists_append_zeros ds
  generalize trailing ds = t at hk hds
  have hsub : ds.length - k = front.length + (t - k) := by
    rw [hds, List.length_append, List.length_replicate]
    omega
  have hmin : min (t - k) t = t - k := by omega
  have hadd : t - k + k = t := by omega
  rw [hsub, hds, List.take_length_add_append, List.take_replicate, hmin, number_append,
    number_append, number_zeros, number_zeros, List.length_replicate, List.length_replicate,
    Nat.add_zero, Nat.add_zero, Nat.mul_assoc, ← pow_add, hadd]

/-- **A number ends in as many zeros as its digits.** -/
theorem number_trailing (h : ∀ c ∈ ds, c.isDigit = true) (hpos : 0 < number ds) :
    10 ^ trailing ds ∣ number ds ∧ ¬ 10 ^ (trailing ds + 1) ∣ number ds := by
  obtain ⟨front, hds, hlast⟩ := exists_append_zeros ds
  have hvalue : number ds = number front * 10 ^ trailing ds := by
    conv_lhs => rw [hds]
    rw [number_append, number_zeros, List.length_replicate, Nat.add_zero]
  refine ⟨⟨number front, by rw [hvalue, Nat.mul_comm]⟩, fun hdvd => ?_⟩
  rw [hvalue, pow_succ, Nat.mul_comm (number front)] at hdvd
  have hten : 10 ∣ number front := Nat.dvd_of_mul_dvd_mul_left (Nat.pow_pos (by omega)) hdvd
  rcases List.eq_nil_or_concat front with rfl | ⟨init, c, rfl⟩
  · rw [hvalue] at hpos; exact absurd hpos (by simp [number])
  · rw [List.concat_eq_append] at hds hlast hten
    have hc : c ≠ '0' := fun heq => hlast (by rw [List.getLast?_concat, heq])
    have hdigit : c.isDigit = true := by
      refine h c ?_
      rw [hds]
      simp
    have hnumber : number (init ++ [c]) = number init * 10 + digit c := by
      rw [number_append, number_cons]
      simp [number]
    have hlow := digit_pos hdigit hc
    have hhigh := digit_le hdigit
    omega

/-! ### Powers of ten -/

/-- **A power of ten leaves an integer unless it takes more away than there are zeros.** -/
theorem isInt_iff {n t : Nat} {s : ℤ} (hdvd : 10 ^ t ∣ n) (hmax : ¬ 10 ^ (t + 1) ∣ n) :
    (∃ z : ℤ, (n : ℚ) * 10 ^ s = z) ↔ 0 ≤ s + t := by
  obtain ⟨m, rfl⟩ := hdvd
  have hten : (10 : ℚ) ≠ 0 := by norm_num
  have hscale : ((10 ^ t * m : ℕ) : ℚ) * 10 ^ s = m * 10 ^ (s + t) := by
    push_cast
    rw [zpow_add₀ hten, zpow_natCast]
    ring
  rw [hscale]
  constructor
  · rintro ⟨z, hz⟩
    by_contra hneg
    obtain ⟨k, hk⟩ := Int.eq_ofNat_of_zero_le (show 0 ≤ -(s + t) - 1 by omega)
    have hexp : s + t = -((k + 1 : ℕ) : ℤ) := by
      push_cast
      omega
    rw [hexp, zpow_neg, zpow_natCast] at hz
    have hpow : (10 : ℚ) ^ (k + 1) ≠ 0 := pow_ne_zero _ hten
    have hm : (m : ℚ) = z * 10 ^ (k + 1) := by
      rw [← hz]
      field_simp
    have hint : (m : ℤ) = z * 10 ^ (k + 1) := by exact_mod_cast hm
    refine hmax ?_
    rw [pow_succ]
    refine Nat.mul_dvd_mul_left _ (Int.natCast_dvd_natCast.mp ⟨z * 10 ^ k, ?_⟩)
    rw [hint]
    push_cast
    ring
  · intro hnonneg
    obtain ⟨k, hk⟩ := Int.eq_ofNat_of_zero_le hnonneg
    refine ⟨m * 10 ^ k, ?_⟩
    rw [hk]
    push_cast
    rw [zpow_natCast]

end Decimal
