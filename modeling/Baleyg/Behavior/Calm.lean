/-
What a JavaScript sequence draws of what cannot leave.

Steps are told apart by kind and, for boundaries, by message.  A form of which no part transfers
draws no step that leaves or stands for what may, and says so.
-/
import Baleyg.Behavior.Transfers

namespace Baleyg.Behavior.JavaScript

open Stateful

/-- The label of the guard before the end of a round. -/
def iterationLabel : String := "only if iteration continues normally"

/-- A step that leaves, or stands for what may. -/
def transferStep (s : SequenceStep) : Bool :=
  decide (s.kind ∈ ["return", "throw"]) ||
    (decide (s.kind = "boundary") &&
      decide (s.label ∈ [complexMessage, transferMessage, loopMessage]))

/-- A guard, or the note of a finalizer. -/
def shieldedStep (s : SequenceStep) : Bool :=
  (decide (s.kind = "branch") && decide (s.label ∈ [guardLabel, iterationLabel])) ||
    decide (s.kind = "note")

abbrev Calm (f : Flow) : Prop := Behavior.Calm transferStep f

abbrev Told (f : Flow) : Prop := Behavior.Told transferStep shieldedStep f

abbrev Still (steps : List SequenceStep) : Prop := Quiet transferStep steps

/-! ### Steps -/

/-- A message of a boundary that does not stand for a transfer. -/
def Harmless (message : String) : Prop :=
  bounded message ∉ [complexMessage, transferMessage, loopMessage]

instance (message : String) : Decidable (Harmless message) := by
  unfold Harmless
  infer_instance

/-- Messages that begin differently are different ones, however much of them is kept. -/
theorem harmless_of_take {message : String} {k : Nat} (hk : k ≤ 180)
    (h : ∀ other ∈ [complexMessage, transferMessage, loopMessage],
      message.toList.take k ≠ other.toList.take k) : Harmless message := by
  have htake : (bounded message).toList.take k = message.toList.take k := by
    unfold bounded
    rw [String.toList_ofList]
    split
    · rename_i hlong
      rw [List.take_append_of_le_length (by rw [List.length_take]; omega), List.take_take,
        Nat.min_eq_left hk]
    · rfl
  intro hmem
  exact h _ hmem (htake.symm.trans rfl)

/-- Steps of most kinds never leave. -/
theorem transferStep_of_kind {s : SequenceStep} {kind : String} (h : s.kind = kind)
    (hkind : kind ∉ ["return", "throw", "boundary"]) : transferStep s = false := by
  simp only [List.mem_cons, List.not_mem_nil, or_false, not_or] at hkind
  unfold transferStep
  rw [h, decide_eq_false (by simp [hkind.1, hkind.2.1]), decide_eq_false hkind.2.2]
  rfl

theorem transferStep_of_message {s : SequenceStep} {message : String} (h : s.kind = "boundary")
    (hlabel : s.label = bounded message) (hm : Harmless message) : transferStep s = false := by
  unfold transferStep
  rw [h, hlabel, decide_eq_false (show bounded message ∉ _ from hm)]
  decide

section Steps

variable {src : Source} {n : Node}

theorem boundary_calm {message : String} (hm : Harmless message) :
    Produces (boundary src n message) Calm := by
  unfold boundary event
  refine produces_bind fun _ => produces_labelled_bind _ _ _ (fun s hs => ?_) (produces_pure calm_empty)
  exact produces_pure ⟨hs.quiet (transferStep_of_message hs.kind_eq hs.label_eq hm), rfl⟩

/-- A boundary has no suffix that would have to be guarded. -/
theorem boundary_guarded (message : String) : Produces (boundary src n message) fun f =>
    AllGuarded transferStep shieldedStep f.steps := by
  unfold boundary event
  refine produces_bind fun _ => produces_labelled_bind _ _ _ (fun s hs => ?_)
    (produces_pure allGuarded_nil)
  exact produces_pure hs.allGuarded

variable {out : Flow}

/-- Whatever is appended to calm steps, nothing before it has to be guarded. -/
theorem append_guarded (hout : Calm out) (kind label : String) :
    Produces (append src out n kind label) fun f =>
      AllGuarded transferStep shieldedStep f.steps := by
  have hbefore : AllGuarded transferStep shieldedStep out.steps := Quiet.allGuarded _ hout.quiet
  unfold append
  refine produces_labelled_bind _ _ _ (fun s hs => ?_) ?_
  · exact produces_pure (hbefore.append hs.allGuarded (Or.inl hout.quiet))
  · exact produces_pure (hbefore.append allGuarded_nil (Or.inl hout.quiet))

theorem appendBoundary_guarded (hout : Calm out) (message : String) :
    Produces (appendBoundary src out n message) fun f =>
      AllGuarded transferStep shieldedStep f.steps := by
  unfold appendBoundary
  exact (boundary_guarded message).bind fun f hf =>
    produces_pure ((Quiet.allGuarded _ hout.quiet).append hf (Or.inl hout.quiet))

theorem append_calm (hout : Calm out) {kind label : String}
    (hkind : kind ∉ ["return", "throw", "boundary"]) :
    Produces (append src out n kind label) Calm := by
  unfold append
  refine produces_labelled_bind _ _ _ (fun s hs => ?_) ?_
  · exact produces_pure ⟨quiet_append.mpr ⟨hout.quiet,
      hs.quiet (transferStep_of_kind hs.kind_eq hkind)⟩, hout.exits⟩
  · refine produces_pure ⟨?_, hout.exits⟩
    show Still (out.steps ++ [])
    rw [List.append_nil]
    exact hout.quiet

theorem appendBoundary_calm (hout : Calm out) {message : String} (hm : Harmless message) :
    Produces (appendBoundary src out n message) Calm := by
  unfold appendBoundary
  exact (boundary_calm hm).bind fun f hf =>
    produces_pure ⟨quiet_append.mpr ⟨hout.quiet, hf.quiet⟩, hout.exits⟩

theorem write_calm (hout : Calm out) : Produces (write src out n) Calm :=
  append_calm hout (by decide)

/-- A step that does not leave is still where what is below it is. -/
theorem still_step {s : SequenceStep} {kind : String} {yes no : List SequenceStep}
    (h : s.kind = kind) (hkind : kind ∉ ["return", "throw", "boundary"]) (hyes : Still yes)
    (hno : Still no) : Still [{ s with children := yes, alternate := no }] := by
  have hself : transferStep { s with children := yes, alternate := no } = false :=
    transferStep_of_kind h hkind
  exact quiet_single.mpr ⟨hself, hyes, hno⟩

end Steps

/-! ### Forms that cannot leave

Each form is calm where its parts are: the walk below it is taken as a parameter, and
the recursion over a tree is closed once, elsewhere.
-/

section Calm

variable {src : Source} {below : Below} {n : Node}

section Parts

variable (hbelow : ∀ c ∈ n.children, Produces (below.walk c) Calm)
include hbelow

theorem field_calm (name : String) : Produces (field below n name) Calm :=
  field_produces calm_empty name fun c hc => hbelow c (Node.mem_of_childByFieldName hc)

theorem children_calm : Produces (children src below n) Calm :=
  block_calm fun c hc => hbelow c (Node.mem_of_named hc)

theorem ifForm_calm : Produces (ifForm src below n) Calm := by
  unfold ifForm
  refine (field_calm hbelow "condition").bind fun out hout => ?_
  refine produces_labelled_bind _ _ _ (fun s hs => ?_) (produces_pure hout)
  refine (field_calm hbelow "consequence").bind fun yes hyes => ?_
  refine (field_calm hbelow "alternative").bind fun no hno => produces_pure ⟨?_, ?_⟩
  · exact quiet_append.mpr ⟨hout.quiet, still_step hs.kind_eq (by decide) hyes.quiet hno.quiet⟩
  · show (out.exits || yes.exits || no.exits) = false
    rw [hout.exits, hyes.exits, hno.exits]
    rfl

theorem rightHandSide_calm : Produces (rightHandSide src below n) Calm := by
  unfold rightHandSide
  refine (field_calm hbelow "right").bind fun right hright => ?_
  exact Produces.ite (fun _ => write_calm hright) (fun _ => produces_pure hright)

/-- What may not be evaluated is drawn below a guard. -/
theorem shortCircuit_calm : Produces (shortCircuit src below n) Calm := by
  unfold shortCircuit
  refine (field_calm hbelow "left").bind fun out hout => ?_
  refine produces_labelled_bind _ _ _ (fun s hs => ?_) (produces_pure hout)
  refine (rightHandSide_calm hbelow).bind fun right hright => produces_pure ⟨?_, hout.exits⟩
  exact quiet_append.mpr
    ⟨hout.quiet, still_step hs.kind_eq (by decide) hright.quiet hs.quiet_below.2⟩

theorem binaryForm_calm : Produces (binaryForm src below n) Calm := by
  unfold binaryForm
  refine Produces.ite (fun _ => shortCircuit_calm hbelow) (fun _ => ?_)
  refine Produces.ite (fun _ => ?_) (fun _ => children_calm hbelow)
  exact (children_calm hbelow).bind fun out hout => write_calm hout

theorem awaitExpression_calm : Produces (awaitExpression src below n) Calm := by
  unfold awaitExpression
  exact (children_calm hbelow).bind fun out hout => append_calm hout (by decide)

theorem destructuring_calm {value message : String} (hm : Harmless message) :
    Produces (destructuring src below n value message) Calm := by
  unfold destructuring
  exact (field_calm hbelow value).bind fun out hout => appendBoundary_calm hout hm

theorem unaryExpression_calm : Produces (unaryExpression src below n) Calm := by
  unfold unaryExpression
  refine (children_calm hbelow).bind fun out hout => ?_
  exact Produces.ite (fun _ => append_calm hout (by decide)) (fun _ => produces_pure hout)

/-! ### Loops and exceptions -/

theorem loopHeader_calm : Produces (loopHeader below n) Calm := by
  unfold loopHeader
  refine Produces.ite (fun _ => field_calm hbelow _) (fun _ => ?_)
  exact Produces.ite (fun _ => field_calm hbelow _) (fun _ => produces_pure calm_empty)

theorem loopTest_still : Produces (loopTest below n) Still := by
  unfold loopTest
  refine Produces.ite (fun _ => produces_pure quiet_nil) (fun _ => ?_)
  exact (field_calm hbelow "condition").bind fun f hf => produces_pure hf.quiet

/-- What a round binds, which may be taken apart. -/
theorem loopBinding_still : Produces (loopBinding src below n) Still := by
  unfold loopBinding
  refine Produces.ite (fun _ => ?_) (fun _ => produces_pure quiet_nil)
  cases hleft : n.childByFieldName "left" with
  | none => exact produces_pure quiet_nil
  | some left =>
      have htarget : Produces (loopTarget src below left) Calm :=
        Produces.ite (fun _ => boundary_calm (by decide +kernel))
          (fun _ => hbelow left (Node.mem_of_childByFieldName hleft))
      exact htarget.bind fun f hf => produces_pure hf.quiet

/-- The end of a round: the increment, and the test where it comes last. -/
theorem loopTail_still : Produces (loopTail below n) Still := by
  unfold loopTail
  refine (field_calm hbelow "increment").bind fun increment hincrement => ?_
  refine Produces.ite (fun _ => ?_) (fun _ => produces_pure hincrement.quiet)
  exact (field_calm hbelow "condition").bind fun test htest =>
    produces_pure (quiet_append.mpr ⟨hincrement.quiet, htest.quiet⟩)

/-- The end of a round is guarded where the body may leave. -/
theorem iterationEnd_still {body : Flow} : Produces (iterationEnd src below n body) Still := by
  unfold iterationEnd
  refine Produces.ite (fun _ => ?_) (fun _ => produces_pure quiet_nil)
  refine (loopTail_still hbelow).bind fun tail htail => ?_
  refine Produces.ite (fun _ => ?_) (fun _ => produces_pure htail)
  refine produces_labelled_bind _ _ _ (fun g hg => ?_) (produces_pure quiet_nil)
  exact produces_pure (still_step hg.kind_eq (by decide) htail hg.quiet_below.2)

theorem iterations_calm {out : Flow} (hout : Calm out) : Produces (iterations src below out n) Calm := by
  unfold iterations
  refine produces_labelled_bind _ _ _ (fun s hs => ?_) (produces_pure hout)
  refine (loopTest_still hbelow).bind fun test htest => ?_
  refine (loopBinding_still hbelow).bind fun binding hbinding => ?_
  refine (field_calm hbelow "body").bind fun body hbody => ?_
  refine (iterationEnd_still hbelow).bind fun tail htail => produces_pure ⟨?_, hbody.exits⟩
  have hinside : Still (test ++ binding ++ body.steps ++ tail) :=
    quiet_append.mpr ⟨quiet_append.mpr ⟨quiet_append.mpr ⟨htest, hbinding⟩, hbody.quiet⟩, htail⟩
  exact quiet_append.mpr ⟨hout.quiet, still_step hs.kind_eq (by decide) hinside hs.quiet_below.2⟩

theorem loopStep_calm (hloop : loopTransfer n = false) : Produces (loopStep src below n) Calm := by
  unfold loopStep
  refine (loopHeader_calm hbelow).bind fun out hout => ?_
  refine Produces.ite (fun htransfer => ?_) (fun _ => iterations_calm hbelow hout)
  rw [hloop] at htransfer
  cases htransfer

omit hbelow in
theorem handlerBinding_calm (handler : Node) : Produces (handlerBinding src handler) Calm := by
  unfold handlerBinding
  cases handler.childByFieldName "parameter" with
  | none => exact produces_pure calm_empty
  | some parameter =>
      exact Produces.ite (fun _ => produces_pure calm_empty)
        (fun _ => boundary_calm (by decide +kernel))

section Clauses

variable (hclause : ∀ name ∈ ["handler", "finalizer"], ∀ clause, n.childByFieldName name = some clause →
  ∀ c ∈ clause.children, Produces (below.walk c) Calm)
include hclause

omit hbelow in
/-- A handler is drawn below a step of its own. -/
theorem handlerStep_calm {out : Flow} (hout : out.exits = false) :
    Produces (handlerStep src below out n) fun o => o.1.exits = false ∧ Still o.2 := by
  unfold handlerStep
  cases hhandler : n.childByFieldName "handler" with
  | none => exact produces_pure ⟨hout, quiet_nil⟩
  | some handler =>
      refine produces_labelled_bind _ _ _ (fun c hc => ?_) (produces_pure ⟨hout, quiet_nil⟩)
      refine (field_calm (hclause "handler" (by decide) handler hhandler) "body").bind fun f hf => ?_
      refine (handlerBinding_calm handler).bind fun bound hbound => produces_pure ⟨?_, ?_⟩
      · show (out.exits || f.exits) = false
        rw [hout, hf.exits]
        rfl
      · exact still_step hc.kind_eq (by decide) (quiet_append.mpr ⟨hbound.quiet, hf.quiet⟩)
          hc.quiet_below.2

omit hbelow in
theorem finalizerStep_calm {out : Flow} (hout : out.exits = false) :
    Produces (finalizerStep src below out n) fun o => o.1.exits = false ∧ Still o.2 := by
  unfold finalizerStep
  cases hfinalizer : n.childByFieldName "finalizer" with
  | none => exact produces_pure ⟨hout, quiet_nil⟩
  | some finalizer =>
      refine produces_labelled_bind _ _ _ (fun c hc => ?_) (produces_pure ⟨hout, quiet_nil⟩)
      refine (field_calm (hclause "finalizer" (by decide) finalizer hfinalizer) "body").bind
        fun f hf => produces_pure ⟨?_, ?_⟩
      · show (out.exits || f.exits) = false
        rw [hout, hf.exits]
        rfl
      · exact still_step hc.kind_eq (by decide) hf.quiet hc.quiet_below.2

theorem tryStep_calm : Produces (tryStep src below n) Calm := by
  unfold tryStep
  refine produces_bind fun _ => ?_
  refine produces_labelled_bind _ _ _ (fun s hs => ?_) (produces_pure calm_empty)
  refine (field_calm hbelow "body").bind fun body hbody => ?_
  have hexits : ({ body with steps := [] } : Flow).exits = false := hbody.exits
  refine (handlerStep_calm hclause hexits).bind ?_
  rintro ⟨out, handler⟩ ⟨hout, hhandler⟩
  refine (finalizerStep_calm hclause hout).bind ?_
  rintro ⟨last, finalizer⟩ ⟨hlast, hfinalizer⟩
  exact produces_pure ⟨still_step hs.kind_eq (by decide) hbody.quiet
    (quiet_append.mpr ⟨hhandler, hfinalizer⟩), hlast⟩

end Clauses

/-! ### Calls -/

omit hbelow in
/-- A call is one step, or a boundary where there is no room for who is called. -/
theorem callStep_still {around : Surroundings} (c : View.CallSite) :
    Produces (callStep src around n c) Still := by
  have hlimit : ∀ label, Harmless ("Participant limit: " ++ bounded label) := fun label =>
    harmless_of_take (k := 11) (by decide) fun other hother => by
      rw [String.toList_append, List.take_append_of_le_length (by decide)]
      revert other
      decide +kernel
  unfold callStep
  refine produces_bind fun room => Produces.ite (fun _ => ?_) (fun _ => ?_)
  · refine produces_labelled_bind _ _ _ (fun s hs => ?_) (produces_pure quiet_nil)
    refine produces_bind fun _ => produces_pure ?_
    have hstep : s.kind = "call" := hs.kind_eq
    exact quiet_single.mpr ⟨transferStep_of_kind hstep (by decide), hs.quiet_below⟩
  · refine produces_labelled_bind _ _ _ (fun s hs => ?_) (produces_pure quiet_nil)
    exact produces_pure (quiet_single.mpr
      ⟨transferStep_of_message hs.kind_eq hs.label_eq (hlimit _), hs.quiet_below⟩)

omit hbelow in
/-- That a step stands for a call changes nothing. -/
theorem still_attach (c : View.CallSite) {steps : List SequenceStep} (h : Still steps) :
    Still (attach c steps) := by
  cases steps with
  | nil => exact h
  | cons s rest =>
      obtain ⟨hself, hchildren, halternate, hrest⟩ := quiet_cons.mp h
      exact quiet_cons.mpr ⟨hself, hchildren, halternate, hrest⟩

theorem call_calm {around : Surroundings} : Produces (call src below around n) Calm := by
  unfold call
  refine Produces.ite (fun _ => ?_) (fun _ => ?_)
  · refine (boundary_calm (by decide +kernel)).bind fun out hout => ?_
    cases src.measuredCall n with
    | none => exact produces_pure hout
    | some c => exact produces_pure ⟨still_attach c hout.quiet, hout.exits⟩
  · refine (children_calm hbelow).bind fun out hout => ?_
    cases src.measuredCall n with
    | none => exact appendBoundary_calm hout (by decide +kernel)
    | some c =>
        exact (callStep_still c).bind fun steps hsteps =>
          produces_pure ⟨quiet_append.mpr ⟨hout.quiet, hsteps⟩, hout.exits⟩

end Parts

/-- The message about an unknown form is no message about a transfer. -/
theorem harmless_form (kind : String) :
    Harmless ("Unsupported JavaScript form '" ++ kind ++ "': behavior unknown.") := by
  refine harmless_of_take (k := 13) (by decide) fun other hother => ?_
  rw [String.toList_append, String.toList_append, List.append_assoc,
    List.take_append_of_le_length (by decide)]
  revert other
  decide +kernel

/-- **A form that cannot leave draws nothing that may.** -/
theorem form_calm {around : Surroundings} (h : transfers n = false)
    (hwalk : ∀ c, transfers c = false → Produces (below.walk c) Calm) :
    Produces (form src around below n) Calm := by
  unfold form
  refine Produces.ite (fun _ => boundary_calm (by decide +kernel)) (fun hplain => ?_)
  rw [not_or, Bool.not_eq_true, Bool.not_eq_true] at hplain
  obtain ⟨hkind, hclauses, hparts⟩ := parts_of_transfers h hplain.1 hplain.2
  have hbelow : ∀ c ∈ n.children, Produces (below.walk c) Calm := fun c hc => hwalk c (hparts c hc)
  have hclause : ∀ name ∈ ["handler", "finalizer"], ∀ clause, n.childByFieldName name = some clause →
      ∀ c ∈ clause.children, Produces (below.walk c) Calm := by
    intro name hname clause hfield c hc
    obtain ⟨hcallable, hclass, -⟩ := clause_of_clauses hclauses hname hfield
    have hquiet := hparts clause (Node.mem_of_childByFieldName hfield)
    exact hwalk c ((parts_of_transfers hquiet hcallable hclass).2.2 c hc)
  have hnot : ∀ kinds : List String, (∀ kind ∈ kinds, kind ∈ leaving) → n.kind ∉ kinds :=
    fun kinds hsub hmem => hkind (hsub n.kind hmem)
  refine Produces.ite (fun _ => children_calm hbelow) (fun _ => ?_)
  refine Produces.ite (fun _ => ifForm_calm hbelow) (fun _ => ?_)
  refine Produces.ite (fun _ => binaryForm_calm hbelow) (fun _ => ?_)
  refine Produces.ite (fun _ => call_calm hbelow) (fun _ => ?_)
  refine Produces.ite (fun _ => boundary_calm (by decide +kernel)) (fun _ => ?_)
  refine Produces.ite (fun hleave => absurd hleave (hnot _ (by decide))) (fun _ => ?_)
  refine Produces.ite (fun _ => awaitExpression_calm hbelow) (fun _ => ?_)
  refine Produces.ite (fun _ => loopStep_calm hbelow (loopTransfer_of_transfers n h)) (fun _ => ?_)
  refine Produces.ite (fun _ => tryStep_calm hbelow hclause) (fun _ => ?_)
  refine Produces.ite (fun hleave => absurd hleave (hnot _ (by decide))) (fun _ => ?_)
  refine Produces.ite (fun hleave => absurd hleave (hnot _ (by decide))) (fun _ => ?_)
  refine Produces.ite (fun _ => destructuring_calm hbelow (by decide +kernel)) (fun _ => ?_)
  refine Produces.ite (fun _ => destructuring_calm hbelow (by decide +kernel)) (fun _ => ?_)
  refine Produces.ite (fun _ => ?_) (fun _ => ?_)
  · exact (children_calm hbelow).bind fun out hout => write_calm hout
  refine Produces.ite (fun _ => unaryExpression_calm hbelow) (fun _ => ?_)
  refine Produces.ite (fun _ => children_calm hbelow) (fun _ => ?_)
  exact Produces.ite (fun _ => produces_pure calm_empty) (fun _ => boundary_calm (harmless_form _))

end Calm

end Baleyg.Behavior.JavaScript
