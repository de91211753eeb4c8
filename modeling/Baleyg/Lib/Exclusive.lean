/-
An exclusive lock that the operating system keeps.

Every party is at some point of its own, and a predicate says at which points it has the
lock.  The lock is taken when it is free, let go by the party that has it, and let go for a
party that dies.  `Locked` says that the lock and the points agree; it is kept by each of
these steps and by every step on one side of the lock, and it is what makes the lock
exclusive.
-/
import Mathlib.Logic.Function.Basic

namespace Exclusive

variable {ι P : Type*} {holds : P → Bool} {phase : ι → P} {lock : Option ι} {i j : ι} {p : P}

/-- Whoever is past the lock has it, and the other way round. -/
def Locked (holds : P → Bool) (phase : ι → P) (lock : Option ι) : Prop :=
  ∀ i, holds (phase i) = true ↔ lock = some i

/-- **One party at most is past the lock.** -/
theorem Locked.unique (h : Locked holds phase lock) (hi : holds (phase i) = true)
    (hj : holds (phase j) = true) : i = j :=
  Option.some.inj (((h i).mp hi).symm.trans ((h j).mp hj))

theorem Locked.not_holds (h : Locked holds phase lock) (hi : holds (phase i) = true)
    (hj : j ≠ i) : holds (phase j) = false := by
  cases hholds : holds (phase j) with
  | false => rfl
  | true => exact absurd (h.unique hholds hi) hj

theorem Locked.free (h : Locked holds phase none) (i : ι) : holds (phase i) = false := by
  cases hholds : holds (phase i) with
  | false => rfl
  | true => cases (h i).mp hholds

theorem Locked.holder (h : Locked holds phase lock) (hheld : lock ≠ none) :
    ∃ i, lock = some i ∧ holds (phase i) = true := by
  cases hlock : lock with
  | none => exact absurd hlock hheld
  | some i => exact ⟨i, rfl, (h i).mpr hlock⟩

variable [DecidableEq ι]

theorem Locked.keep (h : Locked holds phase lock) (hp : holds p = holds (phase i)) :
    Locked holds (Function.update phase i p) lock := by
  intro j
  by_cases hj : j = i
  · subst hj
    rw [Function.update_self, hp]
    exact h j
  · rw [Function.update_of_ne hj]; exact h j

theorem Locked.take (h : Locked holds phase lock) (hp : holds p = true) (hfree : lock = none) :
    Locked holds (Function.update phase i p) (some i) := by
  subst hfree
  intro j
  by_cases hj : j = i
  · subst hj
    rw [Function.update_self]
    exact iff_of_true hp rfl
  · rw [Function.update_of_ne hj, h.free j]
    exact iff_of_false Bool.false_ne_true fun hsame => hj (Option.some.inj hsame).symm

theorem Locked.drop (h : Locked holds phase lock) (hp : holds p = false)
    (hheld : holds (phase i) = true) : Locked holds (Function.update phase i p) none := by
  intro j
  refine iff_of_false (fun hholds => ?_) (fun hlock => by cases hlock)
  by_cases hj : j = i
  · subst hj
    rw [Function.update_self, hp] at hholds
    cases hholds
  · rw [Function.update_of_ne hj, h.not_holds hheld hj] at hholds; cases hholds

theorem Locked.crash (h : Locked holds phase lock) (hp : holds p = false) :
    Locked holds (Function.update phase i p) (if lock = some i then none else lock) := by
  by_cases hlock : lock = some i
  · rw [if_pos hlock]; exact h.drop hp ((h i).mpr hlock)
  · rw [if_neg hlock]
    refine h.keep ?_
    rw [hp]
    exact (Bool.eq_false_iff.mpr fun hholds => hlock ((h i).mp hholds)).symm

end Exclusive
