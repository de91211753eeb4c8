/-
What a JavaScript sequence keeps behind guards.

In a settled tree every step that is drawn after a transfer in its list is a guard, or the note of
a finalizer, which runs either way.  A form that does not hand on what its parts say has only parts
that cannot leave, and draws nothing that can; a form that hands it on is a block, a choice, a loop
or a `try`, and says of itself what its parts say.
-/
import Baleyg.Behavior.Calm

namespace Baleyg.Behavior.JavaScript

open Stateful

/-! ### Forms that may leave -/

/-- The recursive calls of a form tell what may leave. -/
structure Tells (src : Source) (below : Below) : Prop where
  calm : ∀ c, transfers c = false → Produces (below.walk c) Calm
  told : ∀ c, settled src c = true → Produces (below.walk c) Told
  suffix : ∀ suffix ∈ below.suffix, ∀ rest : List Node, (∀ c ∈ rest, settled src c = true) →
    Produces (suffix rest) Told

theorem shielded_guard (s : SequenceStep) (hkind : s.kind = "branch")
    (hlabel : s.label = bounded guardLabel) : shieldedStep s = true := by
  have hbounded : bounded guardLabel = guardLabel := by decide +kernel
  unfold shieldedStep
  rw [hkind, hlabel, hbounded]
  decide

theorem shielded_iteration (s : SequenceStep) (hkind : s.kind = "branch")
    (hlabel : s.label = bounded iterationLabel) : shieldedStep s = true := by
  have hbounded : bounded iterationLabel = iterationLabel := by decide +kernel
  unfold shieldedStep
  rw [hkind, hlabel, hbounded]
  decide

/-- Choices, loops and `try`, which hand on some of their parts. -/
def control : List String :=
  ["if_statement", "ternary_expression", "while_statement", "do_statement", "for_statement",
    "for_in_statement", "try_statement"]

variable {src : Source}

theorem operands_eq_children {n : Node} (hcontrol : n.kind ∉ control)
    (hhands : handsOn src n = false) (hkind : n.kind ∉ replaced) : operands src n = n.children := by
  simp only [control, List.mem_cons, List.not_mem_nil, or_false, not_or] at hcontrol
  obtain ⟨h1, h2, h3, h4, h5, h6, h7⟩ := hcontrol
  unfold operands
  rw [if_neg (by simp [h1, h2]), if_neg (by simp [h3, h4, h5, h6]), if_neg h7,
    if_neg (by simp [hhands, hkind])]

theorem handsOn_eq_false {n : Node}
    (h : n.kind ∉ ["binary_expression", "unary_expression", "statement_block", "program",
      "catch_clause", "finally_clause"]) (hstructural : n.kind ∉ structural) : handsOn src n = false := by
  have hmember : n.kind ∉ ["member_expression", "subscript_expression"] := fun hmem => by
    simp only [List.mem_cons, List.not_mem_nil, or_false] at hmem
    refine hstructural ?_
    rcases hmem with hkind | hkind
    · rw [hkind]; decide
    · rw [hkind]; decide
  have hdeclarator : n.kind ≠ "variable_declarator" := fun hkind => by
    refine hstructural ?_
    rw [hkind]
    decide
  simp only [List.mem_cons, List.not_mem_nil, or_false, not_or] at h
  obtain ⟨hbinary, hunary, hblock, hprogram, hcatch, hfinally⟩ := h
  unfold handsOn
  rw [if_neg hbinary, if_neg hunary, if_neg hmember, if_neg hdeclarator,
    decide_eq_false hstructural, decide_eq_false (by simp [hblock, hprogram, hcatch, hfinally])]
  rfl

section Told

variable {src : Source} {below : Below} {n : Node} (hbelow : Tells src below)
include hbelow

theorem field_told (hparts : ∀ part ∈ n.children, settled src part = true) (name : String) :
    Produces (field below n name) Told :=
  field_produces told_empty name fun c hc =>
    hbelow.told c (hparts c (Node.mem_of_childByFieldName hc))

theorem operand_calm (hoperands : ∀ part ∈ operands src n, transfers part = false) {name : String}
    (hname : ∀ c, n.childByFieldName name = some c → c ∈ operands src n) :
    Produces (field below n name) Calm :=
  field_produces calm_empty name fun c hc => hbelow.calm c (hoperands c (hname c hc))

theorem children_told (hparts : ∀ part ∈ n.children, settled src part = true) :
    Produces (children src below n) Told := by
  refine block_told shielded_guard (fun c hc => hbelow.told c (hparts c (Node.mem_of_named hc)))
    fun suffix hsuffix rest hrest => hbelow.suffix suffix hsuffix rest fun c hc => ?_
  exact hparts c (Node.mem_of_named (hrest hc))

theorem ifForm_told (hkind : n.kind ∈ ["if_statement", "ternary_expression"])
    (hoperands : ∀ part ∈ operands src n, transfers part = false)
    (hparts : ∀ part ∈ n.children, settled src part = true) :
    Produces (ifForm src below n) Told := by
  have hcondition : Produces (field below n "condition") Calm := by
    refine operand_calm hbelow hoperands fun c hc => ?_
    unfold operands
    rw [if_pos hkind, hc]
    exact List.mem_singleton_self c
  unfold ifForm
  refine hcondition.bind fun out hout => ?_
  refine produces_labelled_bind _ _ _ (fun s hs => ?_) (produces_pure hout.told)
  refine (field_told hbelow hparts "consequence").bind fun yes hyes => ?_
  refine (field_told hbelow hparts "alternative").bind fun no hno => produces_pure ⟨?_, fun h => ?_⟩
  · exact (Quiet.allGuarded _ hout.quiet).append
      (allGuarded_single.mpr ⟨hyes.guarded, hno.guarded⟩) (Or.inl hout.quiet)
  · have hexits : (out.exits || yes.exits || no.exits) = false := h
    obtain ⟨hboth, hnoexits⟩ := Bool.or_eq_false_iff.mp hexits
    have hyesexits := (Bool.or_eq_false_iff.mp hboth).2
    exact quiet_append.mpr ⟨hout.quiet, still_step hs.kind_eq (by decide) (hyes.quiet hyesexits)
      (hno.quiet hnoexits)⟩

omit hbelow in
theorem told_of_exits {f : Flow} (h : AllGuarded transferStep shieldedStep f.steps)
    (hexits : f.exits = true) : Told f :=
  ⟨h, fun hfalse => by rw [hexits] at hfalse; cases hfalse⟩

theorem leave_told (hoperands : ∀ part ∈ n.children, transfers part = false) :
    Produces (leave src below n) Told := by
  unfold leave
  refine (children_calm fun c hc => hbelow.calm c (hoperands c hc)).bind fun out hout => ?_
  exact (append_guarded hout _ _).bind fun f hf => produces_pure (told_of_exits hf rfl)

omit hbelow in
theorem complex_told : Produces (complex src n) Told := by
  unfold complex
  exact (boundary_guarded _).bind fun out hout => produces_pure (told_of_exits hout rfl)

omit hbelow in
theorem transfer_told : Produces (transfer src n) Told := by
  unfold transfer
  exact (boundary_guarded _).bind fun out hout => produces_pure (told_of_exits hout rfl)

/-! ### Loops -/

omit hbelow in
theorem iterationEnd_told {body : Flow}
    (hfield : ∀ name ∈ ["increment", "condition"], Produces (field below n name) Calm) :
    Produces (iterationEnd src below n body) fun tail =>
      Still tail ∧ (body.exits = true → ∀ t ∈ tail, shieldedStep t = true) := by
  have hnone : Still [] ∧ (body.exits = true → ∀ t ∈ ([] : List SequenceStep),
      shieldedStep t = true) := ⟨quiet_nil, fun _ t ht => absurd ht List.not_mem_nil⟩
  have htail : Produces (loopTail below n) Still := by
    unfold loopTail
    refine (hfield "increment" (by decide)).bind fun increment hincrement => ?_
    refine Produces.ite (fun _ => ?_) (fun _ => produces_pure hincrement.quiet)
    exact (hfield "condition" (by decide)).bind fun test htest =>
      produces_pure (quiet_append.mpr ⟨hincrement.quiet, htest.quiet⟩)
  unfold iterationEnd
  refine Produces.ite (fun _ => ?_) (fun _ => produces_pure hnone)
  refine htail.bind fun tail hstill => ?_
  refine Produces.ite (fun _ => ?_) (fun hnot => produces_pure ⟨hstill, fun hexits t ht => ?_⟩)
  · refine produces_labelled_bind _ _ _ (fun g hg => ?_) (produces_pure hnone)
    refine produces_pure ⟨still_step hg.kind_eq (by decide) hstill hg.quiet_below.2, fun _ t ht => ?_⟩
    rw [List.mem_singleton.mp ht]
    exact shielded_iteration _ hg.kind_eq hg.label_eq
  · exact absurd ⟨hexits, List.ne_nil_of_mem ht⟩ hnot

theorem iterations_told {out : Flow} (hout : Calm out)
    (hfield : ∀ name ∈ ["increment", "condition", "left"], Produces (field below n name) Calm)
    (hparts : ∀ part ∈ n.children, settled src part = true) :
    Produces (iterations src below out n) Told := by
  have htest : Produces (loopTest below n) Still := by
    unfold loopTest
    refine Produces.ite (fun _ => produces_pure quiet_nil) (fun _ => ?_)
    exact (hfield "condition" (by decide)).bind fun f hf => produces_pure hf.quiet
  have hbinding : Produces (loopBinding src below n) Still := by
    unfold loopBinding
    refine Produces.ite (fun _ => ?_) (fun _ => produces_pure quiet_nil)
    cases hleft : n.childByFieldName "left" with
    | none => exact produces_pure quiet_nil
    | some left =>
        have hwalk := hfield "left" (by decide)
        unfold field at hwalk
        rw [hleft] at hwalk
        have htarget : Produces (loopTarget src below left) Calm :=
          Produces.ite (fun _ => boundary_calm (by decide +kernel)) (fun _ => hwalk)
        exact htarget.bind fun f hf => produces_pure hf.quiet
  unfold iterations
  refine produces_labelled_bind _ _ _ (fun s hs => ?_) (produces_pure hout.told)
  refine htest.bind fun test hteststill => ?_
  refine hbinding.bind fun binding hbindingstill => ?_
  refine (field_told hbelow hparts "body").bind fun body hbody => ?_
  have hend : ∀ name ∈ ["increment", "condition"], Produces (field below n name) Calm :=
    fun name hname => hfield name (List.mem_of_mem_take (i := 2) hname)
  refine (iterationEnd_told hend).bind fun tail htail => ?_
  have hbefore : Still (test ++ binding) := quiet_append.mpr ⟨hteststill, hbindingstill⟩
  have halternate : s.alternate = [] := hs.alternate_eq
  refine produces_pure ⟨?_, fun h => ?_⟩
  · refine (Quiet.allGuarded _ hout.quiet).append (allGuarded_single.mpr ⟨?_, ?_⟩)
      (Or.inl hout.quiet)
    · show AllGuarded transferStep shieldedStep (test ++ binding ++ body.steps ++ tail)
      have hupto : AllGuarded transferStep shieldedStep (test ++ binding ++ body.steps) :=
        (Quiet.allGuarded _ hbefore).append hbody.guarded (Or.inl hbefore)
      refine hupto.append (Quiet.allGuarded _ htail.1) ?_
      cases hexits : body.exits with
      | false => exact Or.inl (quiet_append.mpr ⟨hbefore, hbody.quiet hexits⟩)
      | true => exact Or.inr (htail.2 hexits)
    · show AllGuarded transferStep shieldedStep s.alternate
      rw [halternate]
      exact allGuarded_nil
  · have hexits : body.exits = false := h
    have hinside : Still (test ++ binding ++ body.steps ++ tail) :=
      quiet_append.mpr ⟨quiet_append.mpr ⟨hbefore, hbody.quiet hexits⟩, htail.1⟩
    have hother : Still s.alternate := by
      rw [halternate]
      exact quiet_nil
    exact quiet_append.mpr ⟨hout.quiet, still_step hs.kind_eq (by decide) hinside hother⟩

theorem loopStep_told
    (hkind : n.kind ∈ ["while_statement", "do_statement", "for_statement", "for_in_statement"])
    (hoperands : ∀ part ∈ operands src n, transfers part = false)
    (hparts : ∀ part ∈ n.children, settled src part = true) :
    Produces (loopStep src below n) Told := by
  have hfield : ∀ name ∈ ["initializer", "right", "condition", "left", "increment"],
      Produces (field below n name) Calm := by
    intro name hname
    refine operand_calm hbelow hoperands fun c hc => ?_
    have hnot : n.kind ∉ ["if_statement", "ternary_expression"] := by
      revert hkind
      generalize n.kind = kind
      intro hkind hmem
      simp only [List.mem_cons, List.not_mem_nil, or_false] at hkind hmem
      rcases hmem with rfl | rfl
      · revert hkind
        decide
      · revert hkind
        decide
    unfold operands
    rw [if_neg hnot, if_pos hkind]
    exact List.mem_filterMap.mpr ⟨name, hname, hc⟩
  have hheader : Produces (loopHeader below n) Calm := by
    unfold loopHeader
    refine Produces.ite (fun _ => hfield _ (by decide)) (fun _ => ?_)
    exact Produces.ite (fun _ => hfield _ (by decide)) (fun _ => produces_pure calm_empty)
  unfold loopStep
  refine hheader.bind fun out hout => Produces.ite (fun _ => ?_) (fun _ => ?_)
  · exact (appendBoundary_guarded hout loopMessage).bind fun f hf =>
      produces_pure (told_of_exits hf rfl)
  · have hsub : ∀ name ∈ ["increment", "condition", "left"],
        name ∈ ["initializer", "right", "condition", "left", "increment"] := by decide
    exact iterations_told hbelow hout (fun name hname => hfield name (hsub name hname)) hparts

/-! ### Exceptions -/

section Clauses

variable (hclause : ∀ name ∈ ["handler", "finalizer"], ∀ clause, n.childByFieldName name = some clause →
  ∀ part ∈ clause.children, settled src part = true)
include hclause

theorem handlerStep_told (out : Flow) : Produces (handlerStep src below out n) fun o =>
    AllGuarded transferStep shieldedStep o.2 ∧
      (o.1.exits = false → out.exits = false ∧ Still o.2) := by
  have hnone : AllGuarded transferStep shieldedStep [] ∧
      (out.exits = false → out.exits = false ∧ Still []) :=
    ⟨allGuarded_nil, fun h => ⟨h, quiet_nil⟩⟩
  unfold handlerStep
  cases hhandler : n.childByFieldName "handler" with
  | none => exact produces_pure hnone
  | some handler =>
      refine produces_labelled_bind _ _ _ (fun c hc => ?_) (produces_pure hnone)
      refine (field_told hbelow (hclause "handler" (by decide) handler hhandler) "body").bind
        fun f hf => ?_
      refine (handlerBinding_calm handler).bind fun bound hbound => produces_pure ⟨?_, fun h => ?_⟩
      · refine allGuarded_single.mpr ⟨?_, ?_⟩
        · show AllGuarded transferStep shieldedStep (bound.steps ++ f.steps)
          exact (Quiet.allGuarded _ hbound.quiet).append hf.guarded (Or.inl hbound.quiet)
        · exact hc.guarded_below.2
      · have hexits : (out.exits || f.exits) = false := h
        obtain ⟨hout, hbody⟩ := Bool.or_eq_false_iff.mp hexits
        exact ⟨hout, still_step hc.kind_eq (by decide)
          (quiet_append.mpr ⟨hbound.quiet, hf.quiet hbody⟩) hc.quiet_below.2⟩

theorem finalizerStep_told (out : Flow) : Produces (finalizerStep src below out n) fun o =>
    AllGuarded transferStep shieldedStep o.2 ∧ (∀ t ∈ o.2, shieldedStep t = true) ∧
      (o.1.exits = false → out.exits = false ∧ Still o.2) := by
  have hnone : AllGuarded transferStep shieldedStep [] ∧
      (∀ t ∈ ([] : List SequenceStep), shieldedStep t = true) ∧
      (out.exits = false → out.exits = false ∧ Still []) :=
    ⟨allGuarded_nil, fun t ht => absurd ht List.not_mem_nil, fun h => ⟨h, quiet_nil⟩⟩
  unfold finalizerStep
  cases hfinalizer : n.childByFieldName "finalizer" with
  | none => exact produces_pure hnone
  | some finalizer =>
      refine produces_labelled_bind _ _ _ (fun c hc => ?_) (produces_pure hnone)
      refine (field_told hbelow (hclause "finalizer" (by decide) finalizer hfinalizer) "body").bind
        fun f hf => produces_pure ⟨?_, fun t ht => ?_, fun h => ?_⟩
      · exact allGuarded_single.mpr ⟨hf.guarded, hc.guarded_below.2⟩
      · have hkind : t.kind = "note" := by
          rw [List.mem_singleton.mp ht]
          exact hc.kind_eq
        unfold shieldedStep
        rw [hkind]
        exact Bool.or_true _
      · have hexits : (out.exits || f.exits) = false := h
        obtain ⟨hout, hbody⟩ := Bool.or_eq_false_iff.mp hexits
        exact ⟨hout, still_step hc.kind_eq (by decide) (hf.quiet hbody) hc.quiet_below.2⟩

theorem tryStep_told (hparts : ∀ part ∈ n.children, settled src part = true) :
    Produces (tryStep src below n) Told := by
  unfold tryStep
  refine produces_bind fun _ => ?_
  refine produces_labelled_bind _ _ _ (fun s hs => ?_) (produces_pure told_empty)
  refine (field_told hbelow hparts "body").bind fun body hbody => ?_
  refine (handlerStep_told hbelow hclause { body with steps := [] }).bind ?_
  rintro ⟨out, handler⟩ ⟨hhandler, hout⟩
  refine (finalizerStep_told hbelow hclause out).bind ?_
  rintro ⟨last, finalizer⟩ ⟨hfinalizer, hshielded, hlast⟩
  refine produces_pure ⟨?_, fun h => ?_⟩
  · exact allGuarded_single.mpr
      ⟨hbody.guarded, hhandler.append hfinalizer (Or.inr hshielded)⟩
  · obtain ⟨hexits, hfinally⟩ := hlast h
    obtain ⟨hbodyexits, hcatch⟩ := hout hexits
    exact still_step hs.kind_eq (by decide) (hbody.quiet hbodyexits)
      (quiet_append.mpr ⟨hcatch, hfinally⟩)

end Clauses

/-! ### The walk -/

/-- A settled form that transfers, and is not replaced. -/
structure Leaves (src : Source) (n : Node) : Prop where
  plain : callable n = false ∧ isClass n = false
  kind : n.kind ∉ replaced
  clauses : clauses n = true
  operands : ∀ part ∈ operands src n, transfers part = false
  parts : ∀ part ∈ n.children, settled src part = true
  leaves : transfers n = true

namespace Leaves

omit hbelow in
/-- **A form that hands nothing on cannot be one that transfers**, unless it leaves itself. -/
theorem handsOn (h : Leaves src n) (hcontrol : n.kind ∉ control)
    (hleave : n.kind ∉ ["return_statement", "throw_statement"]) : handsOn src n = true := by
  by_contra hnot
  rw [Bool.not_eq_true] at hnot
  have hleaving : n.kind ∉ leaving := fun hmem => by
    have hsplit : ∀ kind ∈ leaving, kind ∈ ["return_statement", "throw_statement"] ∨
        kind ∈ replaced := by decide
    exact (hsplit _ hmem).elim hleave h.kind
  have hoperands := h.operands
  rw [operands_eq_children hcontrol hnot h.kind] at hoperands
  exact absurd h.leaves (by rw [transfers_of_parts hleaving h.clauses hoperands]; decide)

omit hbelow in
theorem not_mem (h : Leaves src n) {kinds : List String} (hkinds : ∀ kind ∈ kinds,
    kind ∉ control ∧ kind ∉ ["return_statement", "throw_statement"] ∧
      kind ∉ ["binary_expression", "unary_expression", "statement_block", "program",
        "catch_clause", "finally_clause"] ∧ kind ∉ structural) : n.kind ∉ kinds := fun hmem => by
  obtain ⟨hcontrol, hleave, hother, hstructural⟩ := hkinds _ hmem
  have hhands := h.handsOn hcontrol hleave
  rw [handsOn_eq_false hother hstructural] at hhands
  cases hhands

omit hbelow in
theorem ne (h : Leaves src n) {kind : String} (hkind :
    kind ∉ control ∧ kind ∉ ["return_statement", "throw_statement"] ∧
      kind ∉ ["binary_expression", "unary_expression", "statement_block", "program",
        "catch_clause", "finally_clause"] ∧ kind ∉ structural) : n.kind ≠ kind := fun hsame =>
  (h.not_mem (by simpa using hkind) : n.kind ∉ [kind])
    (by rw [hsame]; exact List.mem_singleton_self _)

omit hbelow in
theorem clause_parts (h : Leaves src n) : ∀ name ∈ ["handler", "finalizer"], ∀ clause,
    n.childByFieldName name = some clause → ∀ part ∈ clause.children, settled src part = true := by
  intro name hname clause hfield
  obtain ⟨hcallable, hclass, hkind⟩ := clause_of_clauses h.clauses hname hfield
  exact (parts_of_settled (h.parts clause (Node.mem_of_childByFieldName hfield)) hcallable hclass
    hkind).2.2

theorem binary_told (h : Leaves src n)
    (hkind : n.kind ∈ ["binary_expression", "augmented_assignment_expression"]) :
    Produces (binaryForm src below n) Told := by
  have hnot : n.kind ≠ "augmented_assignment_expression" := h.ne (by decide)
  have hbinary : n.kind = "binary_expression" := by simpa [hnot] using hkind
  have hhands := h.handsOn (by rw [hbinary]; decide) (by rw [hbinary]; decide)
  unfold JavaScript.handsOn at hhands
  rw [if_pos hbinary, Bool.not_eq_true'] at hhands
  unfold binaryForm
  rw [hhands, if_neg (by decide), if_neg hnot]
  exact children_told hbelow h.parts

omit hbelow in
theorem not_optional (h : Leaves src n) :
    ¬ (n.kind ∈ ["member_expression", "subscript_expression"] ∧ optionalChain n = true) := by
  rintro ⟨hmember, hoptional⟩
  have hnot : ∀ kind ∈ ["member_expression", "subscript_expression"], kind ∉ control ∧
      kind ∉ ["return_statement", "throw_statement"] ∧ kind ≠ "binary_expression" ∧
      kind ≠ "unary_expression" := by decide
  obtain ⟨hcontrol, hleave, hbinary, hunary⟩ := hnot _ hmember
  have hhands := h.handsOn hcontrol hleave
  unfold JavaScript.handsOn at hhands
  rw [if_neg hbinary, if_neg hunary, if_pos hmember, hoptional] at hhands
  cases hhands

omit hbelow in
theorem not_binding (h : Leaves src n) :
    ¬ (n.kind = "variable_declarator" ∧ bindsPattern n "name" = true) := by
  rintro ⟨hdeclarator, hpattern⟩
  have hhands := h.handsOn (by rw [hdeclarator]; decide) (by rw [hdeclarator]; decide)
  unfold JavaScript.handsOn at hhands
  rw [hdeclarator, hpattern, if_neg (by decide), if_neg (by decide), if_neg (by decide),
    if_pos rfl] at hhands
  cases hhands

theorem unary_told (h : Leaves src n) (hkind : n.kind = "unary_expression") :
    Produces (unaryExpression src below n) Told := by
  have hhands := h.handsOn (by rw [hkind]; decide) (by rw [hkind]; decide)
  unfold JavaScript.handsOn at hhands
  rw [hkind, if_neg (by decide), if_pos rfl, Bool.not_eq_true'] at hhands
  unfold unaryExpression
  refine (children_told hbelow h.parts).bind fun out hout => ?_
  exact Produces.ite (fun hdeletes => by rw [hhands] at hdeletes; cases hdeletes)
    (fun _ => produces_pure hout)

end Leaves

omit hbelow in
theorem replaced_told {around : Surroundings} (hkind : n.kind ∈ replaced) :
    Produces (form src around below n) Told := by
  have hform : form src around below n = complex src n ∨
      form src around below n = transfer src n := by
    simp only [replaced, List.mem_cons, List.not_mem_nil, or_false] at hkind
    rcases hkind with h | h | h | h | h | h <;> simp [form, callable, isClass, h]
  rcases hform with hform | hform
  · exact hform ▸ complex_told
  · exact hform ▸ transfer_told

/-- **A settled form is told of truly.** -/
theorem form_told {around : Surroundings} (h : settled src n = true) :
    Produces (form src around below n) Told := by
  by_cases htransfers : transfers n = false
  · exact (form_calm htransfers hbelow.calm).mono fun f hf => hf.told
  by_cases hreplaced : n.kind ∈ replaced
  · exact replaced_told hreplaced
  rw [Bool.not_eq_false] at htransfers
  have hplain : callable n = false ∧ isClass n = false := by
    have hleaves := htransfers
    rw [transfers_eq, Bool.and_eq_true, Bool.and_eq_true, Bool.not_eq_true', Bool.not_eq_true']
      at hleaves
    exact hleaves.1
  obtain ⟨hclauses, hoperands, hparts⟩ := parts_of_settled h hplain.1 hplain.2 hreplaced
  have hn : Leaves src n := ⟨hplain, hreplaced, hclauses, hoperands, hparts, htransfers⟩
  have hreplacing : ∀ kinds : List String, (∀ kind ∈ kinds, kind ∈ replaced) → n.kind ∉ kinds :=
    fun kinds hsub hmem => hreplaced (hsub _ hmem)
  unfold form
  refine Produces.ite (fun hnested => ?_) (fun _ => ?_)
  · rw [hplain.1, hplain.2] at hnested
    simp at hnested
  refine Produces.ite (fun _ => children_told hbelow hparts) (fun _ => ?_)
  refine Produces.ite (fun hkind => ifForm_told hbelow hkind hoperands hparts) (fun _ => ?_)
  refine Produces.ite (fun hkind => hn.binary_told hbelow hkind) (fun _ => ?_)
  refine Produces.ite (fun hkind => absurd hkind (hn.not_mem (by decide))) (fun _ => ?_)
  refine Produces.ite (fun hkind => absurd hkind hn.not_optional) (fun _ => ?_)
  refine Produces.ite (fun hkind => ?_) (fun _ => ?_)
  · have hnot : ∀ kind ∈ ["return_statement", "throw_statement"], kind ∉ control ∧
        kind ∉ ["binary_expression", "unary_expression", "statement_block", "program",
          "catch_clause", "finally_clause"] ∧ kind ∉ structural := by decide
    obtain ⟨hcontrol, hother, hstructural⟩ := hnot _ hkind
    rw [operands_eq_children hcontrol (handsOn_eq_false hother hstructural) hreplaced] at hoperands
    exact leave_told hbelow hoperands
  refine Produces.ite (fun hkind => absurd hkind (hn.ne (by decide))) (fun _ => ?_)
  refine Produces.ite (fun hkind => loopStep_told hbelow hkind hoperands hparts) (fun _ => ?_)
  refine Produces.ite (fun _ => tryStep_told hbelow hn.clause_parts hparts) (fun _ => ?_)
  refine Produces.ite (fun hkind => absurd hkind (hreplacing _ (by decide))) (fun _ => ?_)
  refine Produces.ite (fun hkind => absurd hkind (hreplacing _ (by decide))) (fun _ => ?_)
  refine Produces.ite (fun hkind => absurd hkind hn.not_binding) (fun _ => ?_)
  refine Produces.ite (fun hkind => absurd hkind.1 (hn.ne (by decide))) (fun _ => ?_)
  refine Produces.ite (fun hkind => absurd hkind (hn.not_mem (by decide))) (fun _ => ?_)
  refine Produces.ite (fun hkind => hn.unary_told hbelow hkind) (fun _ => ?_)
  refine Produces.ite (fun _ => children_told hbelow hparts) (fun _ => ?_)
  refine Produces.ite (fun _ => produces_pure told_empty) (fun _ => ?_)
  exact (boundary_calm (harmless_form n.kind)).mono fun f hf => hf.told

end Told

theorem below_tells {around : Surroundings} (room : Nat) :
    Tells src ⟨walk src around room, suffix src around room⟩ := by
  induction room with
  | zero =>
      have hstop : ∀ c, Produces (walk src around 0 c) Calm := fun c => by
        unfold walk
        refine produces_bind fun isFull => Produces.ite (fun _ => ?_) (fun _ => ?_)
        · exact produces_bind fun _ => produces_pure calm_empty
        · exact produces_bind fun _ => boundary_calm (by decide +kernel)
      exact ⟨fun c _ => hstop c, fun c _ => (hstop c).mono fun f hf => hf.told,
        fun suffix hsuffix => absurd hsuffix (by simp [JavaScript.suffix])⟩
  | succ room ih =>
      have hlevel : ∀ {P : Flow → Prop} (c : Node), (∀ f, Calm f → P f) →
          Produces (form src around ⟨walk src around room, suffix src around room⟩ c) P →
          Produces (walk src around (room + 1) c) P := fun c hP hform => by
        unfold walk
        refine produces_bind fun isFull => Produces.ite (fun _ => ?_) (fun _ => ?_)
        · exact produces_bind fun _ => produces_pure (hP _ calm_empty)
        exact Produces.ite (fun _ => (boundary_calm (by decide +kernel)).mono hP) (fun _ => hform)
      refine ⟨fun c hc => hlevel c (fun f hf => hf) (form_calm hc ih.calm),
        fun c hc => hlevel c (fun f hf => hf.told) (form_told ih hc),
        fun suffix hsuffix rest hrest => ?_⟩
      rw [JavaScript.suffix, Option.mem_some_iff] at hsuffix
      subst hsuffix
      refine block_told shielded_guard (fun c hc => ih.told c (hrest c hc))
        fun suffix hsuffix nodes hsub => ih.suffix suffix hsuffix nodes fun c hc => hrest c (hsub hc)

/-! ### The view -/

theorem build_eq_ok {around : Surroundings} {parse : String → Option Node} {revision : IndexPin}
    {view : SequenceView} : build src around parse revision = .ok view ↔
      src.seed.path = src.file.path ∧ src.seed.kind ∈ [View.SymbolKind.function, .method] ∧
        (src.seed.range.startByte < src.seed.range.endByte ∧
          src.seed.range.endByte ≤ Native.byteLength src.file.text) ∧
        ∃ root, parse src.file.text = some root ∧
          view = viewOf src around revision (locate src.seed.range root) := by
  unfold build
  rw [Fallible.ensure_bind_eq_ok, Fallible.ensure_bind_eq_ok, Fallible.ensure_bind_eq_ok]
  refine and_congr Iff.rfl (and_congr Iff.rfl (and_congr Iff.rfl ?_))
  cases parse src.file.text with
  | none =>
      refine ⟨fun h => (nomatch h), ?_⟩
      rintro ⟨root, hroot, -⟩
      cases hroot
  | some root =>
      constructor
      · intro h
        cases h
        exact ⟨root, rfl, rfl⟩
      · rintro ⟨root', hroot, rfl⟩
        cases hroot
        rfl

theorem draw_guarded {around : Surroundings} {node : Node}
    (h : ∀ c ∈ node.children, settled src c = true) :
    Produces (draw src around node) (AllGuarded transferStep shieldedStep) := by
  have hboundary : ∀ message, Produces (do
      let f ← boundary src node message
      pure f.steps) (AllGuarded transferStep shieldedStep) := fun message =>
    (boundary_guarded message).bind fun f hf => produces_pure hf
  have hparameters : Produces (parameters src node) Still := by
    unfold parameters
    cases node.childByFieldName "parameters" with
    | none => exact produces_pure quiet_nil
    | some params =>
        refine Produces.ite (fun _ => ?_) (fun _ => produces_pure quiet_nil)
        exact (boundary_calm (by decide +kernel)).bind fun f hf => produces_pure hf.quiet
  unfold draw
  refine Produces.ite (fun _ => hboundary _) (fun _ => ?_)
  refine Produces.ite (fun _ => hboundary _) (fun _ => ?_)
  refine (field_told (below_tells maxDepth) h "body").bind fun f hf => ?_
  exact hparameters.bind fun before hbefore =>
    produces_pure ((Quiet.allGuarded _ hbefore).append hf.guarded (Or.inl hbefore))

/-- **Suffixes are guarded in a settled function.**  In every list of steps of the view, a step
that comes after a transfer, or after a step with a transfer below it, is a guard or the note of a
finalizer. -/
theorem suffixes_guarded {src : Source} {around : Surroundings} {parse : String → Option Node}
    {revision : IndexPin} {view : SequenceView} (hbuild : build src around parse revision = .ok view)
    (hsettled : ∀ root, parse src.file.text = some root →
      ∀ c ∈ (locate src.seed.range root).children, settled src c = true) :
    ∀ list ∈ branches view.steps, list.Pairwise fun s t =>
      (∀ below ∈ every [s], transferStep below = false) ∨ shieldedStep t = true := by
  obtain ⟨-, -, -, root, hparse, rfl⟩ := build_eq_ok.mp hbuild
  exact draw_guarded (hsettled root hparse) ⟨opening src revision, 0⟩

namespace Sample

def node (kind : String) (isNamed : Bool) (field : Option String) (start stop : Nat)
    (children : List Node) : Node :=
  ⟨kind, isNamed, field, start, stop, 0, start, 0, stop, false, false, children⟩

def source (text : String) (stop : Nat) : Source where
  file := { path := "a.js", hash := "", language := .javascript, text := text }
  seed :=
    { id := "f", name := "f", displayLabel := none, kind := .function, path := "a.js"
      range := ⟨0, stop, 1, 1, 1, stop + 1⟩, parent := none, accessor := false
      provenance := ⟨"", .unavailable⟩ }
  calls := []

def around : Surroundings := ⟨fun _ => none, fun _ => false, false⟩

/-- A generator whose `yield` is the right-hand side of a short circuit. -/
def yielding : String := "function*f(){a&&(yield b);c=d}"

def generator : Node :=
  node "generator_function_declaration" true none 0 30
    [node "statement_block" true (some "body") 12 30
      [node "expression_statement" true none 13 26
        [node "binary_expression" true none 13 25
          [node "identifier" true (some "left") 13 14 [],
            node "&&" false (some "operator") 14 16 [],
            node "parenthesized_expression" true (some "right") 16 25
              [node "yield_expression" true none 17 24 [node "identifier" true none 23 24 []]]]],
        node "expression_statement" true none 26 29
          [node "assignment_expression" true none 26 29
            [node "identifier" true (some "left") 26 27 [],
              node "identifier" true (some "right") 28 29 []]]]]

/-- A handler that may return, in a `switch` that is not expanded. -/
def returning : String := "function f(){try{}catch{switch(a){case 1:return}c=d}finally{}}"

def function : Node :=
  node "function_declaration" true none 0 62
    [node "statement_block" true (some "body") 12 62
      [node "try_statement" true none 13 61
        [node "statement_block" true (some "body") 16 18 [],
          node "catch_clause" true (some "handler") 18 52
            [node "statement_block" true (some "body") 23 52
              [node "switch_statement" true none 24 48
                [node "parenthesized_expression" true (some "value") 30 33
                    [node "identifier" true none 31 32 []],
                  node "switch_body" true (some "body") 33 48
                    [node "switch_case" true none 34 47
                      [node "number" true (some "value") 39 40 [],
                        node "return_statement" true (some "body") 41 47 []]]],
                node "expression_statement" true none 48 51
                  [node "assignment_expression" true none 48 51
                    [node "identifier" true (some "left") 48 49 [],
                      node "identifier" true (some "right") 50 51 []]]]],
          node "finally_clause" true (some "finalizer") 52 61
            [node "statement_block" true (some "body") 59 61 []]]]]

def parse (t : String) : Option Node :=
  if t = yielding then some generator else if t = returning then some function else none

theorem locate_generator : locate ⟨0, 30, 1, 1, 1, 31⟩ generator = generator := by
  unfold locate
  exact if_pos ⟨rfl, rfl, by decide⟩

theorem locate_function : locate ⟨0, 62, 1, 1, 1, 63⟩ function = function := by
  unfold locate
  exact if_pos ⟨rfl, rfl, by decide⟩

/-- Something transfers control before a step that no guard is around. -/
def Unguarded (text : String) (stop : Nat) : Prop :=
  ∃ view, build (source text stop) around parse ⟨0, 0⟩ = .ok view ∧
    ∃ list ∈ branches view.steps, ¬ list.Pairwise fun s t =>
      (∀ below ∈ every [s], transferStep below = false) ∨ t.kind = "branch"

end Sample

theorem suffixes_guarded_returning : ∃ view,
    build (Sample.source Sample.returning 62) Sample.around Sample.parse ⟨0, 0⟩ = .ok view ∧
      ∀ list ∈ branches view.steps, list.Pairwise fun s t =>
        (∀ below ∈ every [s], transferStep below = false) ∨ shieldedStep t = true := by
  have hsettled : ∀ c ∈ Sample.function.children,
      settled (Sample.source Sample.returning 62) c = true := by
    decide +kernel
  have hbuild : build (Sample.source Sample.returning 62) Sample.around Sample.parse ⟨0, 0⟩ =
      .ok (viewOf (Sample.source Sample.returning 62) Sample.around ⟨0, 0⟩
        (locate ⟨0, 62, 1, 1, 1, 63⟩ Sample.function)) :=
    build_eq_ok.mpr ⟨rfl, by decide, by decide +kernel, Sample.function, rfl, rfl⟩
  refine ⟨_, hbuild, suffixes_guarded hbuild fun root hroot => ?_⟩
  have hroot : some Sample.function = some root := hroot
  cases hroot
  rw [show locate (Sample.source Sample.returning 62).seed.range Sample.function = Sample.function
    from Sample.locate_function]
  exact hsettled

/-- **Some suffixes have no guard**: what follows a `yield` in the right-hand side of a short
circuit, and the note of a finalizer behind a handler that may return. -/
theorem suffix_unguarded :
    Sample.Unguarded Sample.yielding 30 ∧ Sample.Unguarded Sample.returning 62 := by
  have hyield : ∃ list ∈ branches (viewOf (Sample.source Sample.yielding 30) Sample.around ⟨0, 0⟩
      Sample.generator).steps, ¬ list.Pairwise fun s t =>
        (∀ below ∈ every [s], transferStep below = false) ∨ t.kind = "branch" := by
    decide +kernel
  have hreturn : ∃ list ∈ branches (viewOf (Sample.source Sample.returning 62) Sample.around ⟨0, 0⟩
      Sample.function).steps, ¬ list.Pairwise fun s t =>
        (∀ below ∈ every [s], transferStep below = false) ∨ t.kind = "branch" := by
    decide +kernel
  constructor
  · refine ⟨_, build_eq_ok.mpr ⟨rfl, by decide, by decide +kernel, Sample.generator, rfl, ?_⟩, hyield⟩
    exact congrArg (viewOf _ _ _) Sample.locate_generator.symm
  · refine ⟨_, build_eq_ok.mpr ⟨rfl, by decide, by decide +kernel, Sample.function, rfl, ?_⟩, hreturn⟩
    exact congrArg (viewOf _ _ _) Sample.locate_function.symm

end Baleyg.Behavior.JavaScript
