/-
Runs of a step relation.

A system is a state type `σ` and a relation saying which state one step may lead
to; a run is Mathlib's `Relation.ReflTransGen` of it.  What a verification wants
of a run is almost always one of two things: that a predicate which held before
still holds after (an invariant), or that every later state stands in some
relation to every earlier one (a row, once written, stays written).  Both follow
from one step by the same induction, which is done here once.
-/
import Mathlib.Logic.Relation

namespace Runs

open Relation

variable {σ : Type*} {step : σ → σ → Prop}

/-- A state some initial state runs to. -/
def Reachable (init : σ → Prop) (step : σ → σ → Prop) (s : σ) : Prop :=
  ∃ s₀, init s₀ ∧ ReflTransGen step s₀ s

theorem Reachable.start {init : σ → Prop} {s : σ} (h : init s) : Reachable init step s :=
  ⟨s, h, .refl⟩

theorem Reachable.then {init : σ → Prop} {s t : σ} (h : Reachable init step s)
    (hrun : ReflTransGen step s t) : Reachable init step t := by
  obtain ⟨s₀, h₀, hs⟩ := h
  exact ⟨s₀, h₀, hs.trans hrun⟩

/-- **An invariant of one step is an invariant of every run.** -/
theorem keeps_run {I : σ → Prop} (hstep : ∀ s t, step s t → I s → I t) {s t : σ}
    (hrun : ReflTransGen step s t) (hs : I s) : I t := by
  induction hrun with
  | refl => exact hs
  | tail _ hlast ih => exact hstep _ _ hlast ih

theorem Reachable.keeps {init I : σ → Prop} (hinit : ∀ s, init s → I s)
    (hstep : ∀ s t, step s t → I s → I t) {s : σ} (h : Reachable init step s) : I s := by
  obtain ⟨s₀, h₀, hrun⟩ := h
  exact keeps_run hstep hrun (hinit s₀ h₀)

/-- **What one step does to a state, a run does**, when the relation is a
preorder and the step may rely on an invariant. -/
theorem relates_run {I : σ → Prop} {R : σ → σ → Prop} [Std.Refl R] [IsTrans σ R]
    (hI : ∀ s t, step s t → I s → I t) (hR : ∀ s t, step s t → I s → R s t) {s t : σ}
    (hrun : ReflTransGen step s t) (hs : I s) : R s t := by
  induction hrun with
  | refl => exact Std.Refl.refl s
  | tail hfirst hlast ih =>
      exact IsTrans.trans _ _ _ ih (hR _ _ hlast (keeps_run hI hfirst hs))

/-- **A step that lowers a measure comes to rest.**  Whenever the invariant
holds, either the system is at rest or it has a step that keeps the invariant and
lowers a well-founded measure; then some run ends at rest. -/
theorem comes_to_rest {I rest : σ → Prop} {β : Type*} {lt : β → β → Prop}
    (hwf : WellFounded lt) (measure : σ → β)
    (hstep : ∀ s, I s → rest s ∨ ∃ t, step s t ∧ I t ∧ lt (measure t) (measure s)) {s : σ}
    (hs : I s) : ∃ t, ReflTransGen step s t ∧ rest t ∧ I t := by
  induction h : measure s using hwf.induction generalizing s with
  | _ b ih =>
      rcases hstep s hs with hrest | ⟨t, hst, ht, hlt⟩
      · exact ⟨s, .refl, hrest, hs⟩
      · rw [h] at hlt
        obtain ⟨u, htu, hu⟩ := ih (measure t) hlt ht rfl
        exact ⟨u, .head hst htu, hu⟩

theorem exists_sequence {s t : σ} (hrun : ReflTransGen step s t) :
    ∃ (w : Nat → σ) (n : Nat), w 0 = s ∧ (∀ k, n ≤ k → w k = t) ∧
      ∀ k, k < n → step (w k) (w (k + 1)) := by
  induction hrun with
  | refl => exact ⟨fun _ => s, 0, rfl, fun _ _ => rfl, fun k hk => absurd hk (Nat.not_lt_zero k)⟩
  | @tail b c _ hlast ih =>
      obtain ⟨w, n, hstart, hend, hsteps⟩ := ih
      refine ⟨fun k => if k ≤ n then w k else c, n + 1, ?_, fun k hk => ?_, fun k hk => ?_⟩
      · show (if 0 ≤ n then w 0 else c) = s
        rw [if_pos (Nat.zero_le n)]
        exact hstart
      · show (if k ≤ n then w k else c) = c
        rw [if_neg (Nat.not_le_of_lt hk)]
      · show step (if k ≤ n then w k else c) (if k + 1 ≤ n then w (k + 1) else c)
        rw [if_pos (Nat.le_of_lt_succ hk)]
        by_cases hkn : k + 1 ≤ n
        · rw [if_pos hkn]; exact hsteps k hkn
        · rw [if_neg hkn, hend k (Nat.le_of_not_lt hkn)]; exact hlast

/-! ### Who did what -/

section Traces

variable {ι : Type*} {act : σ → ι → σ → Prop}

/-- A run of a system whose steps are somebody's, with the steps it takes. -/
inductive Trace (act : σ → ι → σ → Prop) : σ → List (σ × ι × σ) → σ → Prop where
  | nil (s : σ) : Trace act s [] s
  | snoc {s t u : σ} {i : ι} {steps : List (σ × ι × σ)} (h : Trace act s steps t)
      (hlast : act t i u) : Trace act s (steps ++ [(t, i, u)]) u

theorem Trace.run {s t : σ} {steps : List (σ × ι × σ)} (h : Trace act s steps t) :
    ReflTransGen (fun a b => ∃ i, act a i b) s t := by
  induction h with
  | nil => exact .refl
  | snoc _ hlast ih => exact ih.tail ⟨_, hlast⟩

/-- **What a step brings about for good is so in the end.** -/
theorem Trace.stays {F : σ → Prop} {P : σ × ι × σ → Prop}
    (hstays : ∀ t i u, act t i u → F t → F u) (hbrings : ∀ t i u, act t i u → P (t, i, u) → F u)
    {s t : σ} {steps : List (σ × ι × σ)} (h : Trace act s steps t) :
    ∀ step ∈ steps, P step → F t := by
  induction h with
  | nil => exact fun _ hmem => absurd hmem List.not_mem_nil
  | snoc _ hlast ih =>
      intro step hmem hP
      rcases List.mem_append.mp hmem with hmem | hmem
      · exact hstays _ _ _ hlast (ih step hmem hP)
      · rw [List.mem_singleton] at hmem
        subst hmem
        exact hbrings _ _ _ hlast hP

end Traces

end Runs
