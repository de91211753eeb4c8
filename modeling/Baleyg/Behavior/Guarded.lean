/-
What stands behind a guard.

Some steps of a sequence may leave: after one of them, or after a step with one of them below it,
the next step of the same list is reached only perhaps.  `Guarded` says that such a next step is
shielded, by being a guard for instance.  A list is put together from pieces that are guarded, and
stays so as long as a piece that is not quiet is followed by nothing, or by what is shielded.

A walk says with its flow whether its piece is quiet.  `Told` is that it says so truly, and `block`
needs no more of the walks it calls: what it draws after a walk that says it may leave is a guard.
-/
import Baleyg.Behavior.Placed

namespace Baleyg.Behavior

open Stateful

section Lists

-- the steps that may leave, and those that may come after one
variable (transfer shielded : SequenceStep → Bool)

/-- Nothing that may leave, on whatever level. -/
def Quiet (steps : List SequenceStep) : Prop := ∀ s ∈ every steps, transfer s = false

/-- **After what may leave there is only what is shielded.** -/
def Guarded (list : List SequenceStep) : Prop :=
  list.Pairwise fun s t => Quiet transfer [s] ∨ shielded t = true

def AllGuarded (steps : List SequenceStep) : Prop :=
  ∀ list ∈ branches steps, Guarded transfer shielded list

variable {transfer shielded} {first second steps others : List SequenceStep} {s : SequenceStep}

theorem quiet_nil : Quiet transfer [] := fun _ hs => absurd hs List.not_mem_nil

theorem quiet_append : Quiet transfer (first ++ second) ↔
    Quiet transfer first ∧ Quiet transfer second := by
  unfold Quiet
  rw [every_append]
  simp only [List.mem_append, or_imp, forall_and]

theorem quiet_cons : Quiet transfer (s :: steps) ↔ transfer s = false ∧
    Quiet transfer s.children ∧ Quiet transfer s.alternate ∧ Quiet transfer steps := by
  unfold Quiet
  rw [every_cons]
  simp only [List.mem_append, List.mem_cons, or_imp, forall_and, forall_eq, and_assoc]

theorem quiet_single : Quiet transfer [s] ↔ transfer s = false ∧
    Quiet transfer s.children ∧ Quiet transfer s.alternate := by
  rw [quiet_cons]
  simp only [quiet_nil, and_true]

theorem Quiet.of_mem (h : Quiet transfer steps) (hs : s ∈ steps) : Quiet transfer [s] := by
  obtain ⟨front, back, rfl⟩ := List.append_of_mem hs
  obtain ⟨hself, hchildren, halternate, -⟩ := quiet_cons.mp (quiet_append.mp h).2
  exact quiet_single.mpr ⟨hself, hchildren, halternate⟩

theorem allGuarded_nil : AllGuarded transfer shielded [] := by
  intro list hlist
  rw [List.mem_singleton.mp hlist]
  exact List.Pairwise.nil

theorem allGuarded_cons : AllGuarded transfer shielded (s :: steps) ↔
    Guarded transfer shielded (s :: steps) ∧ AllGuarded transfer shielded s.children ∧
      AllGuarded transfer shielded s.alternate ∧
      ∀ list ∈ innerLists steps, Guarded transfer shielded list := by
  unfold AllGuarded
  simp only [branches, List.mem_cons, or_imp, forall_and, forall_eq, mem_innerLists_cons]

/-- **Pieces are put together** where the first is quiet or the second shielded. -/
theorem AllGuarded.append (h : AllGuarded transfer shielded first)
    (h' : AllGuarded transfer shielded second)
    (hbetween : Quiet transfer first ∨ ∀ t ∈ second, shielded t = true) :
    AllGuarded transfer shielded (first ++ second) := by
  intro list hlist
  rcases List.mem_cons.mp hlist with rfl | hinner
  · refine List.pairwise_append.mpr
      ⟨h first List.mem_cons_self, h' second List.mem_cons_self, fun s hs t ht => ?_⟩
    exact hbetween.imp (fun hquiet => hquiet.of_mem hs) (fun hall => hall t ht)
  · rw [innerLists_append] at hinner
    rcases List.mem_append.mp hinner with hfirst | hsecond
    · exact h list (List.mem_cons_of_mem _ hfirst)
    · exact h' list (List.mem_cons_of_mem _ hsecond)

theorem allGuarded_single : AllGuarded transfer shielded [s] ↔
    AllGuarded transfer shielded s.children ∧ AllGuarded transfer shielded s.alternate := by
  rw [allGuarded_cons]
  refine ⟨fun h => ⟨h.2.1, h.2.2.1⟩, fun h => ⟨List.pairwise_singleton _ s, h.1, h.2, ?_⟩⟩
  exact fun list hlist => absurd hlist List.not_mem_nil

theorem Quiet.allGuarded (steps : List SequenceStep) :
    Quiet transfer steps → AllGuarded transfer shielded steps := by
  induction steps using steps_induction with
  | nil => exact fun _ => allGuarded_nil
  | cons s rest hchildren halternate hrest =>
      intro h
      obtain ⟨hself, hbelow, hother, hafter⟩ := quiet_cons.mp h
      have hsingle : AllGuarded transfer shielded [s] :=
        allGuarded_single.mpr ⟨hchildren hbelow, halternate hother⟩
      exact hsingle.append (hrest hafter) (Or.inl (quiet_single.mpr ⟨hself, hbelow, hother⟩))

end Lists

/-! ### Flows -/

section Flows

variable (transfer shielded : SequenceStep → Bool)

/-- **What a walk says is true**: its lists are guarded, and it is quiet unless it says that it may
leave. -/
structure Told (f : Flow) : Prop where
  guarded : AllGuarded transfer shielded f.steps
  quiet : f.exits = false → Quiet transfer f.steps

/-- A walk of what cannot leave. -/
structure Calm (f : Flow) : Prop where
  quiet : Quiet transfer f.steps
  exits : f.exits = false

variable {transfer shielded} {f : Flow}

theorem Calm.told (h : Calm transfer f) : Told transfer shielded f :=
  ⟨Quiet.allGuarded _ h.quiet, fun _ => h.quiet⟩

theorem calm_empty : Calm transfer Flow.empty := ⟨quiet_nil, rfl⟩

theorem told_empty : Told transfer shielded Flow.empty := calm_empty.told

end Flows

/-! ### Drawing -/

section Drawing

variable {src : Source} {transfer shielded : SequenceStep → Bool}

/-- A step as `step` makes it, with its label. -/
structure SequenceStep.Labelled (kind label : String) (s : SequenceStep) : Prop
    extends SequenceStep.Fresh kind s where
  label_eq : s.label = bounded label

theorem produces_labelled (n : Node) (kind label : String) :
    Produces (step src n kind label) fun o => ∀ s ∈ o, s.Labelled kind label := by
  unfold step
  refine produces_bind fun b => Produces.ite (fun _ => ?_) (fun _ => ?_)
  · exact produces_bind fun _ => produces_pure fun s hs => absurd hs (by simp)
  · refine produces_bind fun _ => produces_pure fun s hs => ?_
    cases hs
    exact ⟨⟨rfl, rfl, rfl, rfl⟩, rfl⟩

theorem produces_labelled_bind {β : Type} {P : β → Prop} (n : Node) (kind label : String)
    {f : Option SequenceStep → Build β}
    (hsome : ∀ s, s.Labelled kind label → Produces (f (some s)) P)
    (hnone : Produces (f none) P) : Produces (step src n kind label >>= f) P := by
  refine (produces_labelled n kind label).bind fun o ho => ?_
  cases o with
  | none => exact hnone
  | some s => exact hsome s (ho s rfl)

namespace SequenceStep.Labelled

variable {kind label : String} {s : SequenceStep} {steps : List SequenceStep}

/-- There is nothing below a step that was just made. -/
theorem quiet_below (h : s.Labelled kind label) :
    Quiet transfer s.children ∧ Quiet transfer s.alternate := by
  rw [h.children_eq, h.alternate_eq]
  exact ⟨quiet_nil, quiet_nil⟩

theorem quiet (h : s.Labelled kind label) (hs : transfer s = false) : Quiet transfer [s] :=
  quiet_single.mpr ⟨hs, h.quiet_below⟩

theorem guarded_below (h : s.Labelled kind label) :
    AllGuarded transfer shielded s.children ∧ AllGuarded transfer shielded s.alternate := by
  rw [h.children_eq, h.alternate_eq]
  exact ⟨allGuarded_nil, allGuarded_nil⟩

theorem allGuarded (h : s.Labelled kind label) : AllGuarded transfer shielded [s] :=
  allGuarded_single.mpr h.guarded_below

end SequenceStep.Labelled

variable {below : Below} {n : Node}

theorem field_produces {P : Flow → Prop} (hempty : P Flow.empty) (name : String)
    (hwalk : ∀ c, n.childByFieldName name = some c → Produces (below.walk c) P) :
    Produces (field below n name) P := by
  unfold field
  cases hc : n.childByFieldName name with
  | none => exact produces_pure hempty
  | some c => exact hwalk c hc

/-- The guard `block` draws. -/
def guardLabel : String := "only if the preceding path continues normally"

variable (hguard : ∀ s : SequenceStep, s.kind = "branch" → s.label = bounded guardLabel →
  shielded s = true)
include hguard

theorem guardSuffix_told {out : Flow} {next : Node} {rest : List Node}
    (hout : Told transfer shielded out) (hexits : out.exits = true)
    (hsuffix : ∀ suffix ∈ below.suffix, Produces (suffix rest) (Told transfer shielded)) :
    Produces (guardSuffix src below out next rest) (Told transfer shielded) := by
  unfold guardSuffix
  cases hbelow : below.suffix with
  | none => exact produces_bind fun _ => produces_pure hout
  | some suffix =>
      refine produces_labelled_bind _ _ _ (fun guard hdrawn => ?_) (produces_pure hout)
      refine (hsuffix suffix hbelow).bind fun f hf => produces_pure ⟨?_, fun hquiet => ?_⟩
      · refine hout.guarded.append (allGuarded_single.mpr ⟨hf.guarded, hdrawn.guarded_below.2⟩)
          (Or.inr fun t ht => ?_)
        rw [List.mem_singleton.mp ht]
        exact hguard _ hdrawn.kind_eq hdrawn.label_eq
      · have hor : (out.exits || f.exits) = false := hquiet
        rw [hexits] at hor
        cases hor

/-- **A block is told truly where its walks are.** -/
theorem blockFrom_told (nodes : List Node) : ∀ {out : Flow}, Told transfer shielded out →
    out.exits = false →
    (∀ c ∈ nodes, Produces (below.walk c) (Told transfer shielded)) →
    (∀ suffix ∈ below.suffix, ∀ rest : List Node, rest ⊆ nodes →
      Produces (suffix rest) (Told transfer shielded)) →
    Produces (blockFrom src below out nodes) (Told transfer shielded) := by
  induction nodes with
  | nil => exact fun hout _ _ _ => produces_pure hout
  | cons n rest ih =>
      intro out hout hexits hwalk hsuffix
      unfold blockFrom
      refine produces_bind fun isFull => Produces.ite (fun _ => ?_) (fun _ => ?_)
      · exact produces_bind fun _ => produces_pure hout
      refine (hwalk n List.mem_cons_self).bind fun f hf => ?_
      have hdrawn : ∀ continues, Told transfer shielded
          ⟨out.steps ++ f.steps, continues, out.exits || f.exits⟩ := fun continues =>
        ⟨hout.guarded.append hf.guarded (Or.inl (hout.quiet hexits)), fun hquiet =>
          quiet_append.mpr ⟨hout.quiet hexits, hf.quiet (Bool.or_eq_false_iff.mp hquiet).2⟩⟩
      refine Produces.ite (fun _ => ?_) (fun _ => ?_)
      · exact Produces.ite (fun _ => produces_bind fun _ => produces_pure (hdrawn false))
          (fun _ => produces_pure (hdrawn false))
      cases rest.head? with
      | none => exact produces_pure (hdrawn _)
      | some next =>
          refine Produces.ite (fun hleaves => ?_) (fun hstays => ?_)
          · refine guardSuffix_told hguard (hdrawn _) ?_ fun suffix hs =>
              hsuffix suffix hs rest (List.subset_cons_self n rest)
            show (out.exits || f.exits) = true
            rw [hleaves, Bool.or_true]
          · refine ih (hdrawn _) ?_ (fun c hc => hwalk c (List.mem_cons_of_mem _ hc))
              fun suffix hs nodes hsub => hsuffix suffix hs nodes
                (List.subset_cons_of_subset n hsub)
            show (out.exits || f.exits) = false
            rw [hexits, Bool.false_or]
            exact Bool.not_eq_true _ ▸ hstays

theorem block_told {nodes : List Node}
    (hwalk : ∀ c ∈ nodes, Produces (below.walk c) (Told transfer shielded))
    (hsuffix : ∀ suffix ∈ below.suffix, ∀ rest : List Node, rest ⊆ nodes →
      Produces (suffix rest) (Told transfer shielded)) :
    Produces (block src below nodes) (Told transfer shielded) :=
  blockFrom_told hguard nodes told_empty rfl hwalk hsuffix

end Drawing

section Calm

variable {src : Source} {transfer : SequenceStep → Bool} {below : Below}

theorem blockFrom_calm (nodes : List Node) : ∀ {out : Flow}, Calm transfer out →
    (∀ c ∈ nodes, Produces (below.walk c) (Calm transfer)) →
    Produces (blockFrom src below out nodes) (Calm transfer) := by
  induction nodes with
  | nil => exact fun hout _ => produces_pure hout
  | cons n rest ih =>
      intro out hout hwalk
      unfold blockFrom
      refine produces_bind fun isFull => Produces.ite (fun _ => ?_) (fun _ => ?_)
      · exact produces_bind fun _ => produces_pure hout
      refine (hwalk n List.mem_cons_self).bind fun f hf => ?_
      have hdrawn : ∀ continues, Calm transfer
          ⟨out.steps ++ f.steps, continues, out.exits || f.exits⟩ := fun continues =>
        ⟨quiet_append.mpr ⟨hout.quiet, hf.quiet⟩, Bool.or_eq_false_iff.mpr ⟨hout.exits, hf.exits⟩⟩
      refine Produces.ite (fun _ => ?_) (fun _ => ?_)
      · exact Produces.ite (fun _ => produces_bind fun _ => produces_pure (hdrawn false))
          (fun _ => produces_pure (hdrawn false))
      cases rest.head? with
      | none => exact produces_pure (hdrawn _)
      | some next =>
          refine Produces.ite (fun hleaves => ?_) (fun _ => ?_)
          · rw [hf.exits] at hleaves; cases hleaves
          · exact ih (hdrawn _) fun c hc => hwalk c (List.mem_cons_of_mem _ hc)

theorem block_calm {nodes : List Node}
    (hwalk : ∀ c ∈ nodes, Produces (below.walk c) (Calm transfer)) :
    Produces (block src below nodes) (Calm transfer) :=
  blockFrom_calm nodes calm_empty hwalk

end Calm

end Baleyg.Behavior
