/-
The Rust walk draws every measured call once.

Each form of the walk is a few walks of its parts put together by `andThen`, so each has the same
short proof: which parts it walks, and why no two of them cover the same place.  For a call that
is that its parts are narrower than the call; for everything else, that the parts are different
children.
-/
import Baleyg.Behavior.Placed

namespace Baleyg.Behavior.Rust

open Stateful

section Forms

variable {src : Source} {below : Below} {n : Node} {S T : Nat × Nat → Prop}

/-! ### Evaluation

Fields of one node lie apart, and so do its children; this is all that the forms of
evaluation need, whatever they draw in between.
-/

/-- Parts that are joined draw what each of them draws, where they cover different places. -/
theorem andThen_places {first next : Flow} (h : Places S first.steps) (h' : Places T next.steps)
    (hST : ∀ r, S r → T r → False) (n : Node) :
    Produces (andThen src first next n) fun f => Places (fun r => S r ∨ T r) f.steps := by
  have hkeep : Places (fun r => S r ∨ T r) first.steps := h.mono fun r hr => Or.inl hr
  have hjoined : Produces (joined src first next n) fun steps =>
      Places (fun r => S r ∨ T r) steps := by
    unfold joined
    refine Produces.ite (fun _ => ?_) (fun _ => produces_pure (h.append h' hST))
    refine produces_step_bind _ _ _ (fun guard hguard => ?_) (produces_pure hkeep)
    exact produces_pure (h.append (hguard.guard (by decide) (by decide) h') hST)
  unfold andThen
  refine Produces.ite (fun _ => produces_pure hkeep) (fun _ => ?_)
  exact hjoined.bind fun steps hsteps => produces_pure hsteps

/-- What comes after a part and draws no call adds none. -/
theorem andThen_places_left {first next : Flow} (h : Places S first.steps)
    (h' : Places (fun _ => False) next.steps) (n : Node) :
    Produces (andThen src first next n) fun f => Places S f.steps :=
  (andThen_places h h' (fun _ _ h => h) n).mono fun _ hf => hf.mono fun _ hr =>
    hr.elim id False.elim

/-- A boundary draws no call. -/
theorem unknown_places (n : Node) (label : String) :
    Produces (unknown src n label) fun f => Places S f.steps := by
  unfold unknown
  exact (produces_boundary (S := S) n label).bind fun f hf => produces_pure hf

theorem transfer_places : Produces (transfer src n) fun f => Places S f.steps := by
  unfold transfer
  exact (produces_boundary (S := S) n _).bind fun f hf => produces_pure hf

variable (hbelow : below.Sound) (h : n.Shaped)
include hbelow h

/-- The children are drawn one after the other, and they lie apart. -/
theorem children_places : Produces (children src below n) fun f => Places (Among n.named) f.steps :=
  block_places hbelow (fun _ hc => h.child (Node.mem_of_named hc)) h.named_apart

theorem letDeclaration_places :
    Produces (letDeclaration src below n) fun f => Places (InField n "value") f.steps := by
  unfold letDeclaration
  refine (field_places hbelow h "value").bind fun f hf => ?_
  refine Produces.ite (fun _ => ?_) (fun _ => produces_pure hf)
  exact (unknown_places (S := fun _ => False) n _).bind fun b hb => andThen_places_left hf hb n

/-- Each branch is drawn below the fork, on a side of its own. -/
theorem ifStep_places : Produces (ifStep src below n) fun f =>
    Places (fun r => InField n "consequence" r ∨ InField n "alternative" r) f.steps := by
  unfold ifStep
  refine produces_step_bind _ _ _ (fun s hs => ?_) (produces_pure places_nil)
  refine (field_places hbelow h "consequence").bind fun yes hyes => ?_
  refine (field_places hbelow h "alternative").bind fun no hno => produces_pure ?_
  exact hs.fork (by decide) (by decide) hyes hno fun r => InField.apart h (by decide)

theorem ifExpression_places :
    Produces (ifExpression src below n) fun f => Places n.Covers f.steps := by
  unfold ifExpression
  refine (field_places hbelow h "condition").bind fun condition hcondition => ?_
  refine (ifStep_places hbelow h).bind fun f hf => ?_
  refine (andThen_places hcondition hf ?_ n).mono fun g hg => hg.mono ?_
  · rintro r hr (hyes | hno)
    · exact InField.apart h (by decide) hr hyes
    · exact InField.apart h (by decide) hr hno
  · rintro r (hr | hr | hr)
    · exact hr.covers h
    · exact hr.covers h
    · exact hr.covers h

/-- What may not be evaluated is drawn below a guard. -/
theorem rightHandSide_places (label : String) :
    Produces (rightHandSide src below n label) fun f => Places (InField n "right") f.steps := by
  unfold rightHandSide
  refine produces_step_bind _ _ _ (fun s hs => ?_) (produces_pure places_nil)
  refine (field_places hbelow h "right").bind fun right hright => produces_pure ?_
  exact hs.guard (by decide) (by decide) hright

theorem binaryExpression_places :
    Produces (binaryExpression src below n) fun f => Places n.Covers f.steps := by
  unfold binaryExpression
  refine Produces.ite (fun _ => ?_) (fun _ => ?_)
  · refine (field_places hbelow h "left").bind fun left hleft => ?_
    refine (rightHandSide_places hbelow h _).bind fun f hf => ?_
    refine (andThen_places hleft hf (fun r => InField.apart h (by decide)) n).mono
      fun g hg => hg.mono fun r hr => ?_
    exact hr.elim (InField.covers h) (InField.covers h)
  · exact (children_places hbelow h).mono fun f hf => hf.mono fun r => Among.covers h

theorem returnExpression_places :
    Produces (returnExpression src below n) fun f => Places n.Covers f.steps := by
  unfold returnExpression
  refine (children_places hbelow h).bind fun value hvalue => ?_
  refine (produces_event (S := fun _ => False) n "return" _ (by decide) (by decide)).bind fun f hf => ?_
  have hleaves : Places (fun _ => False) { f with exits := true, continues := false }.steps := hf
  exact (andThen_places_left hvalue hleaves n).mono fun g hg => hg.mono fun r => Among.covers h

omit hbelow h in
/-- The early return of `?` draws no call. -/
theorem residual_places (n : Node) :
    Produces (residual src n) fun steps => Places (fun _ => False) steps := by
  unfold residual
  refine produces_step_bind _ _ _ (fun s hs => ?_) (produces_pure places_nil)
  refine (produces_step n "return" _).bind fun early hearly => produces_pure ?_
  have hchildren : Places (fun _ => False) s.children := by
    rw [hs.children_eq]
    exact places_nil
  have halternate : Places (fun _ => False) early.toList := by
    cases early with
    | none => exact places_nil
    | some t => exact (hearly t rfl).places (by decide) (by decide)
  exact (hs.fork (by decide) (by decide) hchildren halternate fun _ _ h => h).mono
    fun r hr => hr.elim id id

theorem tryExpression_places :
    Produces (tryExpression src below n) fun f => Places n.Covers f.steps := by
  unfold tryExpression
  refine (children_places hbelow h).bind fun value hvalue => ?_
  refine (residual_places n).bind fun steps hsteps => ?_
  exact (andThen_places_left hvalue hsteps n).mono fun g hg => hg.mono fun r => Among.covers h

theorem awaitExpression_places :
    Produces (awaitExpression src below n) fun f => Places n.Covers f.steps := by
  unfold awaitExpression
  refine (children_places hbelow h).bind fun value hvalue => ?_
  refine (produces_event (S := fun _ => False) n "await" _ (by decide) (by decide)).bind fun f hf => ?_
  exact (andThen_places_left hvalue hf n).mono fun g hg => hg.mono fun r => Among.covers h

/-- The value is drawn first, then where it is assigned. -/
theorem assignmentExpression_places :
    Produces (assignmentExpression src below n) fun f => Places n.Covers f.steps := by
  unfold assignmentExpression
  refine (field_places hbelow h "right").bind fun right hright => ?_
  refine (field_places hbelow h "left").bind fun left hleft => ?_
  refine (andThen_places hright hleft (fun r => InField.apart h (by decide)) n).bind
    fun values hvalues => ?_
  refine (produces_event (S := fun _ => False) n "effect" _ (by decide) (by decide)).bind
    fun effect heffect => ?_
  refine (andThen_places_left hvalues heffect n).mono fun g hg => hg.mono fun r hr => ?_
  exact hr.elim (InField.covers h) (InField.covers h)

/-! ### Arms of a match -/

/-- The condition of an arm stands in its pattern, so it lies apart from the value. -/
theorem armBody_places {f : Flow} {a : SequenceStep} (ha : a.Fresh "branch") :
    Produces (armBody src below f a n) fun o => Places n.Covers [o.2] := by
  unfold armBody
  refine (field_places hbelow h "value").bind fun result hresult => ?_
  have hinside : Places n.Covers result.steps := hresult.mono fun r => InField.covers h
  cases hguard : (n.childByFieldName "pattern").bind fun p => p.childByFieldName "condition" with
  | none => exact produces_pure (ha.guard (by decide) (by decide) hinside)
  | some g =>
      obtain ⟨p, hp, hg⟩ := Option.bind_eq_some_iff.mp hguard
      have hpattern : p.Shaped := h.child (Node.mem_of_childByFieldName hp)
      have hgshaped : g.Shaped := hpattern.child (Node.mem_of_childByFieldName hg)
      have hgcovers : ∀ r, g.Covers r → InField n "pattern" r := fun r hr =>
        ⟨p, hp, hpattern.covers (Node.mem_of_childByFieldName hg) hr⟩
      refine (hbelow.walk g hgshaped).bind fun evaluated hevaluated => ?_
      have hbefore : Places (InField n "pattern") evaluated.steps := hevaluated.mono hgcovers
      refine produces_step_bind _ _ _ (fun selected hselected => ?_)
        (produces_pure (ha.places (by decide) (by decide)))
      have hselect : Places (InField n "value")
          (Flow.steps { Flow.empty with steps := [{ selected with children := result.steps }] }) :=
        hselected.guard (by decide) (by decide) hresult
      have hapart : ∀ r, InField n "pattern" r → InField n "value" r → False :=
        fun r => InField.apart h (by decide)
      refine (andThen_places hbefore hselect hapart n).bind fun inside hin => produces_pure ?_
      refine (ha.guard (by decide) (by decide) hin).mono fun r hr => ?_
      exact hr.elim (InField.covers h) (InField.covers h)

omit h in
/-- Arms that were drawn lie apart from those that are still to be drawn. -/
theorem arms_places (nodes : List Node) :
    ∀ {f : Flow} {drawn : List SequenceStep} {S : Nat × Nat → Prop}, Places S drawn →
      (∀ c ∈ nodes, c.Shaped) → nodes.Pairwise Node.Apart →
      (∀ r, S r → Among nodes r → False) →
      Produces (arms src below f drawn nodes) fun o =>
        Places (fun r => S r ∨ Among nodes r) o.2 := by
  induction nodes with
  | nil =>
      intro f drawn S hdrawn _ _ _
      exact produces_pure (hdrawn.mono fun r hr => Or.inl hr)
  | cons arm rest ih =>
      intro f drawn S hdrawn hshaped hapart hST
      obtain ⟨hfirst, hrest⟩ := List.pairwise_cons.mp hapart
      have hshaped' : ∀ c ∈ rest, c.Shaped := fun c hc => hshaped c (List.mem_cons_of_mem _ hc)
      have hlater : ∀ r, Among rest r → Among (arm :: rest) r := by
        rintro r ⟨c, hc, hcovers⟩
        exact ⟨c, List.mem_cons_of_mem _ hc, hcovers⟩
      unfold arms
      refine produces_bind fun isFull => Produces.ite (fun _ => ?_) (fun _ => ?_)
      · exact produces_bind fun _ => produces_pure (hdrawn.mono fun r hr => Or.inl hr)
      refine produces_step_bind _ _ _ (fun a ha => ?_) ?_
      · refine (armBody_places hbelow (hshaped arm List.mem_cons_self) ha).bind fun o ho => ?_
        have hboth := hdrawn.append ho fun r hr hn => hST r hr ⟨arm, List.mem_cons_self, hn⟩
        refine (ih hboth hshaped' hrest ?_).mono fun o ho => ho.mono fun r hr => ?_
        · rintro r (hr | hn) hrest'
          · exact hST r hr (hlater r hrest')
          · obtain ⟨c, hc, hcovers⟩ := hrest'
            exact hfirst c hc r hn hcovers
        · rcases hr with (hr | hn) | hr
          · exact Or.inl hr
          · exact Or.inr ⟨arm, List.mem_cons_self, hn⟩
          · exact Or.inr (hlater r hr)
      · refine (ih hdrawn hshaped' hrest fun r hr hn => hST r hr (hlater r hn)).mono
          fun o ho => ho.mono fun r hr => ?_
        exact hr.imp id (hlater r)

theorem selection_places :
    Produces (selection src below n) fun f => Places (InField n "body") f.steps := by
  unfold selection
  refine produces_step_bind _ _ _ (fun s hs => ?_) (produces_pure places_nil)
  cases hbody : n.childByFieldName "body" with
  | none => exact produces_pure (hs.places (by decide) (by decide))
  | some body =>
      have hshaped : body.Shaped := h.child (Node.mem_of_childByFieldName hbody)
      have hmem : ∀ c ∈ body.named.filter fun a => a.kind = "match_arm", c ∈ body.children :=
        fun c hc => Node.mem_of_named (List.mem_of_mem_filter hc)
      have hnone : Places (fun _ => False) [] := places_nil
      refine (arms_places hbelow _ hnone (fun c hc => hshaped.child (hmem c hc))
        (hshaped.named_apart.sublist List.filter_sublist) fun r hr _ => hr).bind fun o ho => ?_
      have hchildren : Places (fun _ => False) s.children := by
        rw [hs.children_eq]
        exact places_nil
      refine produces_pure ((hs.fork (by decide) (by decide) hchildren ho
        fun _ h _ => h).mono ?_)
      rintro r (hr | hr | ⟨c, hc, hcovers⟩)
      · exact hr.elim
      · exact hr.elim
      · exact ⟨body, hbody, hshaped.covers (hmem c hc) hcovers⟩

theorem matchStep_places :
    Produces (matchStep src below n) fun f => Places n.Covers f.steps := by
  unfold matchStep
  refine (field_places hbelow h "value").bind fun value hvalue => ?_
  refine (selection_places hbelow h).bind fun f hf => ?_
  refine (andThen_places hvalue hf (fun r => InField.apart h (by decide)) n).mono
    fun g hg => hg.mono fun r hr => ?_
  exact hr.elim (InField.covers h) (InField.covers h)

/-! ### Loops -/

/-- The condition is drawn once, in front of the body. -/
theorem iterations_places : Produces (iterations src below n) fun f =>
    Places (fun r => InField n "condition" r ∨ InField n "body" r) f.steps := by
  unfold iterations
  refine produces_step_bind _ _ _ (fun s hs => ?_) (produces_pure places_nil)
  refine (field_places hbelow h "condition").bind fun cond hcond => ?_
  refine (field_places hbelow h "body").bind fun body hbody => ?_
  refine produces_step_bind _ _ _ (fun g hg => ?_)
    (produces_pure (hs.places (by decide) (by decide)))
  have hinner : Places (InField n "body")
      (Flow.steps { Flow.empty with steps := [{ g with children := body.steps }] }) :=
    hg.guard (by decide) (by decide) hbody
  have hapart : ∀ r, InField n "condition" r → InField n "body" r → False :=
    fun r => InField.apart h (by decide)
  refine (andThen_places hcond hinner hapart n).bind fun f hf => produces_pure ?_
  exact hs.guard (by decide) (by decide) hf

theorem loopInit_places :
    Produces (loopInit below n) fun f => Places (InField n "value") f.steps :=
  Produces.ite (fun _ => field_places hbelow h "value") fun _ => produces_pure places_nil

theorem loopStep_places :
    Produces (loopStep src below n) fun f => Places n.Covers f.steps := by
  unfold loopStep
  refine Produces.ite (fun _ => unknown_places n _) (fun _ => ?_)
  refine (loopInit_places hbelow h).bind fun init hinit => ?_
  refine (iterations_places hbelow h).bind fun f hf => ?_
  refine (andThen_places hinit hf ?_ n).mono fun g hg => hg.mono ?_
  · rintro r hr (hcond | hbody)
    · exact InField.apart h (by decide) hr hcond
    · exact InField.apart h (by decide) hr hbody
  · rintro r (hr | hr | hr)
    · exact hr.covers h
    · exact hr.covers h
    · exact hr.covers h

/-! ### Calls -/

variable {digest : String → String}

omit hbelow h in
/-- The step of a call stands where the call stands. -/
theorem callStep_places {c : View.CallSite} (hc : src.measuredCall n = some c) :
    Produces (callStep src digest n c) fun f => Places (· = n.extent) f.steps := by
  unfold callStep
  refine produces_bind fun target => ?_
  refine produces_step_bind _ _ _ (fun s hs => produces_pure ?_) (produces_pure places_nil)
  have hkind : s.kind ≠ "group" := by
    rw [hs.kind_eq]
    split
    · decide
    · decide
  rw [← src.measuredCall_extent hc]
  have hplaced := places_call (s := { s with callId := some c.id, range := c.range })
    hs.children_eq hs.alternate_eq hkind
  exact hplaced

/-- No part of a call is as wide as the call, so none of them draws it. -/
theorem call_places (hkind : n.kind = "call_expression") (herror : n.hasError = false) :
    Produces (call src digest below n) fun f => Places n.Covers f.steps := by
  unfold call
  refine (children_places hbelow h).bind fun evaluation hevaluation => ?_
  refine Produces.ite (fun _ => produces_pure (hevaluation.mono fun r => Among.covers h))
    (fun _ => ?_)
  cases hc : src.measuredCall n with
  | none =>
      refine (unknown_places (S := fun _ => False) n _).bind fun f hf => ?_
      exact (andThen_places_left hevaluation hf n).mono fun g hg => hg.mono fun r => Among.covers h
  | some c =>
      refine (callStep_places hc).bind fun f hf => ?_
      refine (andThen_places hevaluation hf ?_ n).mono fun g hg => hg.mono ?_
      · rintro r ⟨part, hpart, hcovers⟩ hr
        exact h.ne_extent hkind herror (Node.mem_of_named hpart) hcovers hr
      · rintro r (hr | rfl)
        · exact hr.covers h
        · exact ⟨le_refl _, le_refl _, (h.call hkind herror).1⟩

/-! ### The walk -/

/-- **A form draws every call of its node once.** -/
theorem form_places (herror : n.hasError = false) :
    Produces (form src digest below n) fun f => Places n.Covers f.steps := by
  have hfield : ∀ name, Produces (field below n name) fun f => Places n.Covers f.steps :=
    fun name => (field_places hbelow h name).mono fun f hf => hf.mono fun r => InField.covers h
  have hchildren : Produces (children src below n) fun f => Places n.Covers f.steps :=
    (children_places hbelow h).mono fun f hf => hf.mono fun r => Among.covers h
  have hlet : Produces (letDeclaration src below n) fun f => Places n.Covers f.steps :=
    (letDeclaration_places hbelow h).mono fun f hf => hf.mono fun r => InField.covers h
  unfold form
  refine Produces.ite (fun _ => produces_boundary n _) (fun _ => ?_)
  refine Produces.ite (fun _ => produces_boundary n _) (fun _ => ?_)
  refine Produces.ite (fun _ => unknown_places n _) (fun _ => ?_)
  refine Produces.ite (fun _ => transfer_places) (fun _ => ?_)
  refine Produces.ite (fun _ => unknown_places n _) (fun _ => ?_)
  refine Produces.ite (fun _ => unknown_places n _) (fun _ => ?_)
  refine Produces.ite (fun _ => hchildren) (fun _ => ?_)
  refine Produces.ite (fun _ => hfield _) (fun _ => ?_)
  refine Produces.ite (fun _ => hlet) (fun _ => ?_)
  refine Produces.ite (fun _ => hfield _) (fun _ => ?_)
  refine Produces.ite (fun _ => ifExpression_places hbelow h) (fun _ => ?_)
  refine Produces.ite (fun _ => matchStep_places hbelow h) (fun _ => ?_)
  refine Produces.ite (fun _ => loopStep_places hbelow h) (fun _ => ?_)
  refine Produces.ite (fun _ => binaryExpression_places hbelow h) (fun _ => ?_)
  refine Produces.ite (fun hkind => call_places hbelow h hkind herror) (fun _ => ?_)
  refine Produces.ite (fun _ => returnExpression_places hbelow h) (fun _ => ?_)
  refine Produces.ite (fun _ => tryExpression_places hbelow h) (fun _ => ?_)
  refine Produces.ite (fun _ => awaitExpression_places hbelow h) (fun _ => ?_)
  refine Produces.ite (fun _ => assignmentExpression_places hbelow h) (fun _ => ?_)
  refine Produces.ite (fun _ => unknown_places n _) (fun _ => ?_)
  refine Produces.ite (fun _ => hfield _) (fun _ => ?_)
  refine Produces.ite (fun _ => hfield _) (fun _ => ?_)
  refine Produces.ite (fun _ => hchildren) (fun _ => ?_)
  refine Produces.ite (fun _ => hfield _) (fun _ => ?_)
  refine Produces.ite (fun _ => hchildren) (fun _ => ?_)
  exact Produces.ite (fun _ => produces_pure places_nil) (fun _ => unknown_places n _)

end Forms

section Walk

variable {src : Source} {digest : String → String}

/-- **Whatever room is left, what a form walks below it draws every call once.** -/
theorem below_sound (room : Nat) : Below.Sound ⟨walk src digest room, suffix src digest room⟩ := by
  induction room with
  | zero =>
      refine ⟨fun c hc => ?_, fun suffix hsuffix => absurd hsuffix (by simp [Rust.suffix])⟩
      show Produces (walk src digest 0 c) _
      unfold walk
      refine produces_bind fun isFull => Produces.ite (fun _ => ?_) (fun _ => ?_)
      · exact produces_bind fun _ => produces_pure places_nil
      · exact produces_bind fun _ => unknown_places c _
  | succ room ih =>
      refine ⟨fun c hc => ?_, fun suffix hsuffix nodes hshaped hapart => ?_⟩
      · show Produces (walk src digest (room + 1) c) _
        unfold walk
        refine produces_bind fun isFull => Produces.ite (fun _ => ?_) (fun _ => ?_)
        · exact produces_bind fun _ => produces_pure places_nil
        refine Produces.ite (fun _ => unknown_places c _) (fun hsound => ?_)
        rw [Bool.or_eq_true, not_or, Bool.not_eq_true] at hsound
        exact form_places ih hc hsound.1
      · rw [Rust.suffix, Option.mem_some_iff] at hsuffix
        subst hsuffix
        exact block_places ih hshaped hapart

end Walk

end Baleyg.Behavior.Rust
