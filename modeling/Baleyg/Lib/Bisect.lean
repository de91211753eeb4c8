/-
Where a partitioned list changes over.

A list whose first elements satisfy a condition and whose others do not has one place where it
changes over.  Halving the stretch that holds the place finds it: everything below the stretch
satisfies the condition, and nothing above it does.
-/
import Mathlib.Data.List.Basic

namespace Bisect

variable {α : Type*} {p : α → Bool} {xs : List α} {k : Nat}

/-- Of so many elements the first so many satisfy the condition, and the others do not. -/
structure Partitioned (p : α → Bool) (xs : List α) (k : Nat) : Prop where
  le : k ≤ xs.length
  iff : ∀ i (h : i < xs.length), p xs[i] = true ↔ i < k

/-- The stretch is halved until it has one element. -/
def narrow (p : α → Bool) (xs : List α) (base size : Nat) : Nat :=
  if 1 < size then
    if (xs[base + size / 2]?).any p = true then narrow p xs (base + size / 2) (size - size / 2)
    else narrow p xs base (size - size / 2)
  else base
termination_by size

def partitionPoint (p : α → Bool) (xs : List α) : Nat :=
  if xs.length = 0 then 0
  else if (xs[narrow p xs 0 xs.length]?).any p = true then narrow p xs 0 xs.length + 1
  else narrow p xs 0 xs.length

theorem Partitioned.any_iff (h : Partitioned p xs k) {i : Nat} (hi : i < xs.length) :
    (xs[i]?).any p = true ↔ i < k := by
  rw [List.getElem?_eq_getElem hi, Option.any_some]
  exact h.iff i hi

/-- **The stretch always holds the place where the list changes over.** -/
theorem Partitioned.narrow (h : Partitioned p xs k) {base size : Nat} (hsize : 0 < size)
    (hin : base + size ≤ xs.length) (hbelow : base < k ∨ base = 0) (habove : k ≤ base + size) :
    narrow p xs base size < xs.length ∧ (narrow p xs base size < k ∨ narrow p xs base size = 0) ∧
      k ≤ narrow p xs base size + 1 := by
  induction size using Nat.strongRecOn generalizing base with
  | ind size ih =>
      rw [Bisect.narrow]
      by_cases hone : 1 < size
      · rw [if_pos hone]
        have hmid : base + size / 2 < xs.length := by omega
        by_cases hlow : (xs[base + size / 2]?).any p = true
        · rw [if_pos hlow]
          have hlt := (h.any_iff hmid).mp hlow
          exact ih _ (by omega) (by omega) (by omega) (.inl hlt) (by omega)
        · rw [if_neg hlow]
          have hge : ¬ base + size / 2 < k := fun hlt => hlow ((h.any_iff hmid).mpr hlt)
          exact ih _ (by omega) (by omega) (by omega) hbelow (by omega)
      · rw [if_neg hone]; exact ⟨by omega, hbelow, by omega⟩

/-- **The place is found.** -/
theorem Partitioned.partitionPoint (h : Partitioned p xs k) : partitionPoint p xs = k := by
  unfold Bisect.partitionPoint
  by_cases hempty : xs.length = 0
  · rw [if_pos hempty]
    have hle := h.le
    omega
  · rw [if_neg hempty]
    have hle := h.le
    obtain ⟨hin, hbelow, habove⟩ :=
      h.narrow (Nat.pos_of_ne_zero hempty) (by omega) (.inr rfl) (by omega)
    by_cases hlow : (xs[Bisect.narrow p xs 0 xs.length]?).any p = true
    · rw [if_pos hlow]
      have hlt := (h.any_iff hin).mp hlow
      omega
    · rw [if_neg hlow]
      have hge : ¬ Bisect.narrow p xs 0 xs.length < k := fun hlt => hlow ((h.any_iff hin).mpr hlt)
      omega

/-- Where all of one list satisfy the condition and none of another do, it changes over between
them. -/
theorem partitioned_append {ys : List α} (hxs : ∀ x ∈ xs, p x = true) (hys : ∀ y ∈ ys, p y = false) :
    Partitioned p (xs ++ ys) xs.length := by
  refine ⟨by rw [List.length_append]; omega, fun i hi => ?_⟩
  by_cases hlt : i < xs.length
  · rw [List.getElem_append_left hlt]
    exact ⟨fun _ => hlt, fun _ => hxs _ (List.getElem_mem hlt)⟩
  · rw [List.getElem_append_right (Nat.le_of_not_lt hlt), hys _ (List.getElem_mem _)]
    exact ⟨fun h => (nomatch h), fun h => absurd h hlt⟩

end Bisect
