/-
Possible-path sequences.

A sequence is a tree of steps.  A step has the lists of the two ways below it, and what is drawn
in one list happens one after the other; so a list is a branch, and two steps are under one
common branch when they are in one list.

A group stands for a run of steps that a reader may want to see as one.  It keeps the run as its
children, so a view with groups has a view without any, in which every group is its children
again.
-/
import Baleyg.Behavior.Syntax
import Baleyg.Queue.Row

namespace Baleyg.Behavior

open View (SourceRange)

/-! ### The contract -/

inductive Resolution where
  | internal
  | external
  | unresolved
  | ambiguous
  deriving DecidableEq

structure Participant where
  id : String
  label : String
  kind : String
  identification : String
  deriving DecidableEq

/-- A step of a drawing; what is below it has two sides. -/
structure SequenceStep where
  id : String
  kind : String
  label : String
  path : String
  range : SourceRange
  callId : Option String
  target : Option String
  resolution : Option Resolution
  children : List SequenceStep
  alternate : List SequenceStep
  hidden : Bool

structure SequenceView where
  revision : IndexPin
  seed : View.Symbol
  participants : List Participant
  steps : List SequenceStep
  warnings : List String
  hiddenSteps : Nat
  truncated : Bool

namespace SequenceStep

def extent (s : SequenceStep) : Nat × Nat := (s.range.startByte, s.range.endByte)

/-- A call with the call site that was measured for it. -/
def measured (s : SequenceStep) : Bool := s.kind == "call" && s.callId.isSome

def isGroup (s : SequenceStep) : Bool := s.kind == "group"

end SequenceStep

/-! ### Trees of steps -/

theorem sizeOf_lists (s : SequenceStep) :
    sizeOf s.children < sizeOf s ∧ sizeOf s.alternate < sizeOf s := by
  cases s
  simp only [SequenceStep.mk.sizeOf_spec]
  omega

/-- A property of every list of steps, from the lists below its first step and its rest. -/
@[elab_as_elim]
theorem steps_induction {P : List SequenceStep → Prop} (nil : P [])
    (cons : ∀ s rest, P s.children → P s.alternate → P rest → P (s :: rest)) :
    ∀ steps, P steps
  | [] => nil
  | s :: rest =>
      cons s rest (steps_induction nil cons s.children) (steps_induction nil cons s.alternate)
        (steps_induction nil cons rest)
termination_by steps => sizeOf steps
decreasing_by
  all_goals
    have hlists := sizeOf_lists s
    simp only [List.cons.sizeOf_spec]
    omega

mutual

/-- The step and all below it. -/
def SequenceStep.every : SequenceStep → List SequenceStep
  | s@{ children, alternate, .. } => s :: (every children ++ every alternate)

/-- The steps of a list and all that is below them, in order. -/
def every : List SequenceStep → List SequenceStep
  | [] => []
  | s :: rest => s.every ++ every rest

end

@[simp] theorem every_nil : every [] = [] := rfl

theorem every_cons (s : SequenceStep) (rest : List SequenceStep) :
    every (s :: rest) = s :: (every s.children ++ every s.alternate) ++ every rest := by
  cases s
  rfl

theorem every_append (first second : List SequenceStep) :
    every (first ++ second) = every first ++ every second := by
  induction first with
  | nil => rfl
  | cons s rest ih =>
      rw [List.cons_append, every_cons, every_cons, ih, List.append_assoc]

theorem mem_every {steps : List SequenceStep} {s : SequenceStep} (h : s ∈ steps) :
    s ∈ every steps := by
  obtain ⟨first, second, rfl⟩ := List.append_of_mem h
  rw [every_append, every_cons]
  exact List.mem_append_right _ List.mem_cons_self

def innerLists (steps : List SequenceStep) : List (List SequenceStep) :=
  (every steps).flatMap fun s => [s.children, s.alternate]

/-- The lists of steps, outermost first. -/
def branches (steps : List SequenceStep) : List (List SequenceStep) := steps :: innerLists steps

theorem innerLists_append (first second : List SequenceStep) :
    innerLists (first ++ second) = innerLists first ++ innerLists second := by
  unfold innerLists
  rw [every_append, List.flatMap_append]

theorem mem_innerLists_cons {branch : List SequenceStep} {s : SequenceStep}
    {rest : List SequenceStep} : branch ∈ innerLists (s :: rest) ↔
      branch ∈ branches s.children ∨ branch ∈ branches s.alternate ∨ branch ∈ innerLists rest := by
  unfold branches innerLists
  rw [every_cons, List.flatMap_append, List.flatMap_cons, List.flatMap_append]
  simp only [List.mem_append, List.mem_cons, List.not_mem_nil, or_false]
  tauto

/-- The groups, at whatever depth. -/
def groups (steps : List SequenceStep) : List SequenceStep :=
  (every steps).filter SequenceStep.isGroup

/-- Where the measured calls are. -/
def spots (steps : List SequenceStep) : List (Nat × Nat) :=
  ((every steps).filter SequenceStep.measured).map SequenceStep.extent

mutual

/-- A step without groups: a group is its children. -/
def SequenceStep.ungroup : SequenceStep → List SequenceStep
  | s@{ kind, children, alternate, .. } =>
      if kind = "group" then ungroup children
      else [{ s with children := ungroup children, alternate := ungroup alternate }]

/-- The steps with what was grouped back in its place. -/
def ungroup : List SequenceStep → List SequenceStep
  | [] => []
  | s :: rest => s.ungroup ++ ungroup rest

end

theorem SequenceStep.ungroup_eq (s : SequenceStep) : s.ungroup =
    if s.kind = "group" then Behavior.ungroup s.children
    else [{ s with children := Behavior.ungroup s.children
                   alternate := Behavior.ungroup s.alternate }] := by
  cases s
  rfl

theorem ungroup_append (first second : List SequenceStep) :
    ungroup (first ++ second) = ungroup first ++ ungroup second := by
  induction first with
  | nil => rfl
  | cons s rest ih =>
      show s.ungroup ++ ungroup (rest ++ second) = s.ungroup ++ ungroup rest ++ ungroup second
      rw [ih, List.append_assoc]

/-- Where there is no group, nothing is put back. -/
theorem ungroup_eq_self (steps : List SequenceStep) :
    (∀ s ∈ every steps, s.kind ≠ "group") → ungroup steps = steps := by
  induction steps using steps_induction with
  | nil => exact fun _ => rfl
  | cons s rest hchildren halternate hrest =>
      intro h
      rw [every_cons] at h
      have hbelow : ∀ t, t ∈ every s.children ∨ t ∈ every s.alternate → t.kind ≠ "group" :=
        fun t ht => h t (List.mem_append_left _
          (List.mem_cons_of_mem _ (List.mem_append.mpr ht)))
      have hself : s.kind ≠ "group" := h s (List.mem_append_left _ List.mem_cons_self)
      show s.ungroup ++ ungroup rest = s :: rest
      rw [hrest fun t ht => h t (List.mem_append_right _ ht), SequenceStep.ungroup_eq,
        if_neg hself, hchildren fun t ht => hbelow t (Or.inl ht),
        halternate fun t ht => hbelow t (Or.inr ht)]
      cases s
      rfl

end Baleyg.Behavior
