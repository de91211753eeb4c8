/-
Loops that may be left.

A loop over a list that can be left in the middle is a `foldlM` in `Except σ`: to leave it is to
raise the state there is.  What holds of the items done so far is an invariant `I done s`.  A loop
that runs through ends with `I` of the whole list; one that is left had `I` of the items before
the one at which it was left, and that item raised.
-/
import Mathlib.Data.List.Basic

namespace Loops

variable {α σ ε : Type} {f : σ → α → Except ε σ} {I : List α → σ → Prop}

/-- The state a loop ends in, left or run through. -/
def outcome : Except σ σ → σ
  | .ok s => s
  | .error s => s

/-- **A loop that runs through has done every item.** -/
theorem foldlM_ok {xs : List α} {s t : σ} (hstep : ∀ done, ∀ x ∈ xs, ∀ s t, I done s →
      f s x = .ok t → I (done ++ [x]) t) {done : List α} (h : I done s)
    (hrun : xs.foldlM f s = .ok t) : I (done ++ xs) t := by
  induction xs generalizing done s with
  | nil =>
      rw [List.foldlM_nil] at hrun
      cases hrun
      rw [List.append_nil]
      exact h
  | cons x xs ih =>
      rw [List.foldlM_cons] at hrun
      cases hx : f s x with
      | error e => rw [hx] at hrun; cases hrun
      | ok u =>
          rw [hx] at hrun
          have hfirst := hstep done x List.mem_cons_self s u h hx
          have hrest := ih (fun done y hy => hstep done y (List.mem_cons_of_mem x hy)) hfirst hrun
          rw [List.append_assoc] at hrest
          exact hrest

/-- **A loop that is left has done the items before.** -/
theorem foldlM_error {xs : List α} {s : σ} {e : ε} (hstep : ∀ done, ∀ x ∈ xs, ∀ s t, I done s →
      f s x = .ok t → I (done ++ [x]) t) {done : List α} (h : I done s)
    (hrun : xs.foldlM f s = .error e) :
    ∃ before x after u, xs = before ++ x :: after ∧ I (done ++ before) u ∧ f u x = .error e := by
  induction xs generalizing done s with
  | nil => cases hrun
  | cons x xs ih =>
      rw [List.foldlM_cons] at hrun
      cases hx : f s x with
      | error e' =>
          rw [hx] at hrun
          cases hrun
          refine ⟨[], x, xs, s, rfl, ?_, hx⟩
          rw [List.append_nil]
          exact h
      | ok u =>
          rw [hx] at hrun
          have hfirst := hstep done x List.mem_cons_self s u h hx
          obtain ⟨before, y, after, v, hxs, hv, hy⟩ :=
            ih (fun done y hy => hstep done y (List.mem_cons_of_mem x hy)) hfirst hrun
          refine ⟨x :: before, y, after, v, ?_, ?_, hy⟩
          · rw [hxs]; rfl
          · rw [List.append_assoc] at hv; exact hv

end Loops
