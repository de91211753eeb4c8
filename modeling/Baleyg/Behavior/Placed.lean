/-
No call site is drawn twice.

`Places S steps` says that the measured calls of some steps lie at different places, all of them
in `S`.  Two lists that place their calls in sets with nothing in common can be put together, one
behind the other or one below a step of the other, and that is all a walk ever does: what it puts
together comes from children in different fields, from different named children, or from a call
and its parts.
-/
import Baleyg.Behavior.Rust

namespace Baleyg.Behavior

open Stateful

/-- A step a walk may draw: never a group, and a call has nothing below it. -/
def SequenceStep.Plain (s : SequenceStep) : Prop :=
  s.kind ≠ "group" ∧ (s.kind = "call" → s.children = [] ∧ s.alternate = [])

/-- A step as `step` makes it. -/
structure SequenceStep.Fresh (kind : String) (s : SequenceStep) : Prop where
  kind_eq : s.kind = kind
  callId_eq : s.callId = none
  children_eq : s.children = []
  alternate_eq : s.alternate = []

/-- **Where the measured calls of some steps are.** -/
structure Places (S : Nat × Nat → Prop) (steps : List SequenceStep) : Prop where
  nodup : (spots steps).Nodup
  within : ∀ r ∈ spots steps, S r
  plain : ∀ s ∈ every steps, s.Plain

theorem spots_append (first second : List SequenceStep) :
    spots (first ++ second) = spots first ++ spots second := by
  unfold spots
  rw [every_append, List.filter_append, List.map_append]

/-- A step comes before what is below it. -/
theorem spots_cons (s : SequenceStep) (rest : List SequenceStep) :
    spots (s :: rest) = (if s.measured then [s.extent] else []) ++
      (spots s.children ++ spots s.alternate) ++ spots rest := by
  unfold spots
  rw [every_cons, List.filter_append, List.map_append, List.filter_cons]
  cases s.measured
  · simp only [Bool.false_eq_true, if_false, List.filter_append, List.map_append,
      List.nil_append]
  · simp only [if_true, List.map_cons, List.filter_append, List.map_append,
      List.singleton_append]

section Places

variable {S T U : Nat × Nat → Prop} {first second : List SequenceStep} {s : SequenceStep}

theorem places_nil : Places S [] :=
  ⟨List.nodup_nil, fun _ hr => absurd hr List.not_mem_nil,
    fun _ hs => absurd hs List.not_mem_nil⟩

/-- What is drawn in a place is drawn in a larger one. -/
theorem Places.mono (h : Places S first) (hST : ∀ r, S r → T r) : Places T first :=
  ⟨h.nodup, fun r hr => hST r (h.within r hr), h.plain⟩

theorem Places.append (h : Places S first) (h' : Places T second)
    (hST : ∀ r, S r → T r → False) : Places (fun r => S r ∨ T r) (first ++ second) where
  nodup := by
    rw [spots_append]
    exact List.nodup_append'.mpr ⟨h.nodup, h'.nodup, fun r hr hr' =>
      hST r (h.within r hr) (h'.within r hr')⟩
  within r hr := by
    rw [spots_append, List.mem_append] at hr
    exact hr.imp (h.within r) (h'.within r)
  plain s hs := by
    rw [every_append, List.mem_append] at hs
    exact hs.elim (h.plain s) (h'.plain s)

theorem places_step (hgroup : s.kind ≠ "group") (hcall : s.kind ≠ "call")
    (h : Places S s.children) (h' : Places T s.alternate) (hST : ∀ r, S r → T r → False) :
    Places (fun r => S r ∨ T r) [s] := by
  have hboth := h.append h' hST
  have hmeasured : s.measured = false := by
    unfold SequenceStep.measured
    rw [beq_eq_false_iff_ne.mpr hcall, Bool.false_and]
  have hspots : spots [s] = spots (s.children ++ s.alternate) := by
    rw [spots_cons, hmeasured, spots_append]
    show [] ++ (spots s.children ++ spots s.alternate) ++ [] = _
    rw [List.append_nil, List.nil_append]
  refine ⟨?_, ?_, fun t ht => ?_⟩
  · rw [hspots]; exact hboth.nodup
  · rw [hspots]; exact hboth.within
  · rw [every_cons, every_nil, List.append_nil, List.mem_cons, ← every_append] at ht
    rcases ht with rfl | ht
    · exact ⟨hgroup, fun h => absurd h hcall⟩
    · exact hboth.plain t ht

/-- A step with one side is drawn where that side is. -/
theorem places_guard (hgroup : s.kind ≠ "group") (hcall : s.kind ≠ "call")
    (h : Places S s.children) (halternate : s.alternate = []) : Places S [s] := by
  have hnone : Places (fun _ => False) s.alternate := by
    rw [halternate]
    exact places_nil
  exact (places_step hgroup hcall h hnone fun _ _ h => h).mono fun r hr => hr.elim id False.elim

theorem places_call (hchildren : s.children = []) (halternate : s.alternate = [])
    (hkind : s.kind ≠ "group") : Places (· = s.extent) [s] := by
  have hspots : spots [s] = if s.measured then [s.extent] else [] := by
    rw [spots_cons, hchildren, halternate]
    show (if s.measured then [s.extent] else []) ++ ([] ++ []) ++ [] = _
    rw [List.append_nil, List.append_nil, List.append_nil]
  refine ⟨?_, fun r hr => ?_, fun t ht => ?_⟩
  · rw [hspots]
    cases s.measured
    · exact List.nodup_nil
    · exact List.nodup_singleton _
  · rw [hspots] at hr
    cases hm : s.measured
    · rw [hm] at hr; exact absurd hr List.not_mem_nil
    · rw [hm] at hr; exact List.mem_singleton.mp hr
  · rw [every_cons, hchildren, halternate] at ht
    rcases List.mem_singleton.mp ht with rfl
    exact ⟨hkind, fun _ => ⟨hchildren, halternate⟩⟩

end Places

/-! ### What is drawn -/

section Builder

variable {src : Source} {S T : Nat × Nat → Prop}

theorem produces_step (n : Node) (kind label : String) :
    Produces (step src n kind label) fun o => ∀ s ∈ o, s.Fresh kind := by
  unfold step
  refine produces_bind fun b => Produces.ite (fun _ => ?_) (fun _ => ?_)
  · exact produces_bind fun _ => produces_pure fun s hs => absurd hs (by simp)
  · refine produces_bind fun _ => produces_pure fun s hs => ?_
    cases hs
    exact ⟨rfl, rfl, rfl, rfl⟩

theorem produces_step_bind {β : Type} {P : β → Prop} (n : Node) (kind label : String)
    {f : Option SequenceStep → Build β} (hsome : ∀ s, s.Fresh kind → Produces (f (some s)) P)
    (hnone : Produces (f none) P) : Produces (step src n kind label >>= f) P := by
  refine (produces_step n kind label).bind fun o ho => ?_
  cases o with
  | none => exact hnone
  | some s => exact hsome s (ho s rfl)

namespace SequenceStep.Fresh

variable {kind : String} {s : SequenceStep} {steps others : List SequenceStep}

theorem fork (h : s.Fresh kind) (hgroup : kind ≠ "group") (hcall : kind ≠ "call")
    (hsteps : Places S steps) (hothers : Places T others) (hST : ∀ r, S r → T r → False) :
    Places (fun r => S r ∨ T r) [{ s with children := steps, alternate := others }] := by
  have hkind : s.kind ≠ "group" ∧ s.kind ≠ "call" := by
    rw [h.kind_eq]
    exact ⟨hgroup, hcall⟩
  exact places_step hkind.1 hkind.2 hsteps hothers hST

theorem guard (h : s.Fresh kind) (hgroup : kind ≠ "group") (hcall : kind ≠ "call")
    (hsteps : Places S steps) : Places S [{ s with children := steps }] := by
  have hkind : s.kind ≠ "group" ∧ s.kind ≠ "call" := by
    rw [h.kind_eq]
    exact ⟨hgroup, hcall⟩
  exact places_guard hkind.1 hkind.2 hsteps h.alternate_eq

theorem places (h : s.Fresh kind) (hgroup : kind ≠ "group") (hcall : kind ≠ "call") :
    Places S [s] := by
  have hchildren : Places S s.children := by
    rw [h.children_eq]
    exact places_nil
  cases s
  exact h.guard hgroup hcall hchildren

end SequenceStep.Fresh

theorem produces_event (n : Node) (kind label : String) (hgroup : kind ≠ "group")
    (hcall : kind ≠ "call") : Produces (event src n kind label) fun f => Places S f.steps := by
  unfold event
  refine produces_step_bind n kind label (fun s hs => ?_) (produces_pure places_nil)
  exact produces_pure (hs.places hgroup hcall)

theorem produces_boundary (n : Node) (message : String) :
    Produces (boundary src n message) fun f => Places S f.steps :=
  produces_bind fun _ => produces_event n "boundary" message (by decide) (by decide)

/-- Somewhere in one of the nodes. -/
def Among (nodes : List Node) (r : Nat × Nat) : Prop := ∃ c ∈ nodes, c.Covers r

/-- Somewhere in a field of the node. -/
def InField (n : Node) (name : String) (r : Nat × Nat) : Prop :=
  ∃ c, n.childByFieldName name = some c ∧ c.Covers r

/-- The recursive calls of a form place the calls where they are told to walk. -/
structure Below.Sound (below : Below) : Prop where
  walk : ∀ c : Node, c.Shaped → Produces (below.walk c) fun f => Places c.Covers f.steps
  suffix : ∀ suffix ∈ below.suffix, ∀ nodes : List Node, (∀ c ∈ nodes, c.Shaped) →
    nodes.Pairwise Node.Apart → Produces (suffix nodes) fun f => Places (Among nodes) f.steps

variable {below : Below} {n : Node} {name name' : String}

theorem InField.covers (h : n.Shaped) {r : Nat × Nat} (hr : InField n name r) : n.Covers r := by
  obtain ⟨c, hc, hcovers⟩ := hr
  exact h.covers (Node.mem_of_childByFieldName hc) hcovers

/-- Fields of one node share no place. -/
theorem InField.apart (h : n.Shaped) (hne : name ≠ name') {r : Nat × Nat}
    (hr : InField n name r) (hr' : InField n name' r) : False := by
  obtain ⟨c, hc, hcovers⟩ := hr
  obtain ⟨c', hc', hcovers'⟩ := hr'
  exact h.fields_apart hc hc' hne r hcovers hcovers'

theorem Among.covers (h : n.Shaped) {r : Nat × Nat} (hr : Among n.named r) : n.Covers r := by
  obtain ⟨c, hc, hcovers⟩ := hr
  exact h.covers (Node.mem_of_named hc) hcovers

theorem field_places (hbelow : below.Sound) (h : n.Shaped) (name : String) :
    Produces (field below n name) fun f => Places (InField n name) f.steps := by
  unfold field
  cases hc : n.childByFieldName name with
  | none => exact produces_pure places_nil
  | some c =>
      refine (hbelow.walk c (h.child (Node.mem_of_childByFieldName hc))).mono fun f hf => ?_
      exact hf.mono fun r hr => ⟨c, hc, hr⟩

theorem guardSuffix_places (hbelow : below.Sound) {out : Flow} {next : Node} {rest : List Node}
    (hout : Places S out.steps) (hshaped : ∀ c ∈ rest, c.Shaped)
    (hapart : rest.Pairwise Node.Apart) (hST : ∀ r, S r → Among rest r → False) :
    Produces (guardSuffix src below out next rest) fun f =>
      Places (fun r => S r ∨ Among rest r) f.steps := by
  have hkeep : Places (fun r => S r ∨ Among rest r) out.steps := hout.mono fun r hr => Or.inl hr
  unfold guardSuffix
  cases hsuffix : below.suffix with
  | none => exact produces_bind fun _ => produces_pure hkeep
  | some suffix =>
      refine produces_step_bind _ _ _ (fun guard hguard => ?_) (produces_pure hkeep)
      refine (hbelow.suffix suffix hsuffix rest hshaped hapart).bind fun f hf => ?_
      exact produces_pure (hout.append (hguard.guard (by decide) (by decide) hf) hST)

theorem blockFrom_places (hbelow : below.Sound) (nodes : List Node) :
    ∀ {out : Flow} {S : Nat × Nat → Prop}, Places S out.steps → (∀ c ∈ nodes, c.Shaped) →
      nodes.Pairwise Node.Apart → (∀ r, S r → Among nodes r → False) →
      Produces (blockFrom src below out nodes) fun f =>
        Places (fun r => S r ∨ Among nodes r) f.steps := by
  induction nodes with
  | nil => intro out S hout _ _ _; exact produces_pure (hout.mono fun r hr => Or.inl hr)
  | cons n rest ih =>
      intro out S hout hshaped hapart hST
      obtain ⟨hfirst, hrest⟩ := List.pairwise_cons.mp hapart
      unfold blockFrom
      refine produces_bind fun isFull => Produces.ite (fun _ => ?_) (fun _ => ?_)
      · exact produces_bind fun _ => produces_pure (hout.mono fun r hr => Or.inl hr)
      refine (hbelow.walk n (hshaped n List.mem_cons_self)).bind fun f hf => ?_
      have hdrawn : Places (fun r => S r ∨ n.Covers r) (out.steps ++ f.steps) :=
        hout.append hf fun r hr hn => hST r hr ⟨n, List.mem_cons_self, hn⟩
      have hwider : ∀ r, (S r ∨ n.Covers r) → S r ∨ Among (n :: rest) r := fun r hr =>
        hr.imp id fun hn => ⟨n, List.mem_cons_self, hn⟩
      have hnext : ∀ r, (S r ∨ n.Covers r) ∨ Among rest r → S r ∨ Among (n :: rest) r := by
        rintro r (hr | ⟨c, hc, hcovers⟩)
        · exact hwider r hr
        · exact Or.inr ⟨c, List.mem_cons_of_mem _ hc, hcovers⟩
      have hdisjoint : ∀ r, (S r ∨ n.Covers r) → Among rest r → False := by
        rintro r (hr | hn) ⟨c, hc, hcovers⟩
        · exact hST r hr ⟨c, List.mem_cons_of_mem _ hc, hcovers⟩
        · exact hfirst c hc r hn hcovers
      have hshaped' : ∀ c ∈ rest, c.Shaped := fun c hc => hshaped c (List.mem_cons_of_mem _ hc)
      refine Produces.ite (fun _ => ?_) (fun _ => ?_)
      · exact Produces.ite (fun _ => produces_bind fun _ => produces_pure (hdrawn.mono hwider))
          (fun _ => produces_pure (hdrawn.mono hwider))
      cases rest.head? with
      | none => exact produces_pure (hdrawn.mono hwider)
      | some next =>
          refine Produces.ite (fun _ => ?_) (fun _ => ?_)
          · exact (guardSuffix_places hbelow hdrawn hshaped' hrest hdisjoint).mono
              fun g hg => hg.mono hnext
          · exact (ih hdrawn hshaped' hrest hdisjoint).mono fun g hg => hg.mono hnext

/-- **A block places what its nodes cover.** -/
theorem block_places (hbelow : below.Sound) {nodes : List Node} (hshaped : ∀ c ∈ nodes, c.Shaped)
    (hapart : nodes.Pairwise Node.Apart) :
    Produces (block src below nodes) fun f => Places (Among nodes) f.steps := by
  have hempty : Places (fun _ => False) Flow.empty.steps := places_nil
  exact (blockFrom_places hbelow nodes hempty hshaped hapart fun r hr _ => hr).mono
    fun f hf => hf.mono fun r hr => hr.elim False.elim id

end Builder

end Baleyg.Behavior
