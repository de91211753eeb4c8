/-
The Rust sequence adapter.

The walk models the order of evaluation: what a form evaluates is composed by `block`, for a list
of children, and by `andThen`, for two walks, and both put what comes after a possible exit behind
a guard.  A measured call is drawn for the call site that has the call's extent, once its parts
have been drawn.

What the grouping of chains needs of all this is that no call site is drawn twice: a form walks
children in different fields or each named child once, these lie apart, and a call is wider than
what it is made of.
-/
import Baleyg.Behavior.Builder
import Baleyg.Lib.Produces

namespace Baleyg.Behavior.Rust

open View (SourceRange)

def callable (n : Node) : Bool := n.kind ∈ ["function_item", "closure_expression"]

variable (src : Source)

/-! ### Evaluation -/

/-- The steps of two walks, the second behind a guard where the first may leave. -/
def joined (first next : Flow) (n : Node) : Build (List SequenceStep) :=
  if first.exits = true ∧ next.steps ≠ [] then do
    match ← step src n "branch" "only if the preceding path continues normally" with
    | some guard => pure (first.steps ++ [{ guard with children := next.steps }])
    | none => pure first.steps
  else pure (first.steps ++ next.steps)

/-- `then`. -/
def andThen (first next : Flow) (n : Node) : Build Flow :=
  if first.continues = false then pure first
  else do
    let steps ← joined src first next n
    pure ⟨steps, next.continues, first.exits || next.exits⟩

def unknown (n : Node) (label : String) : Build Flow := do
  let f ← boundary src n label
  pure { f with exits := true }

section Forms

variable (below : Below)

def children (n : Node) : Build Flow := block src below n.named

/-- The arms `break_expression`, `continue_expression` and `yield_expression`. -/
def transfer (n : Node) : Build Flow := do
  let f ← boundary src n "Unsupported control transfer: remainder of this path omitted."
  pure { f with continues := false, exits := true }

/-- The arm `let_declaration`. -/
def letDeclaration (n : Node) : Build Flow := do
  let f ← field below n "value"
  if (n.childByFieldName "alternative").isSome then
    let b ← unknown src n "let-else pattern/transfer boundary: alternatives not expanded."
    andThen src f b n
  else pure f

/-- The step of an `if_expression` with its two ways. -/
def ifStep (n : Node) : Build Flow := do
  match ← step src n "branch" ("if " ++ src.fieldText n "condition") with
  | some s =>
      let yes ← field below n "consequence"
      let no ← field below n "alternative"
      pure ⟨[{ s with children := yes.steps, alternate := no.steps }],
        yes.continues || no.continues, yes.exits || no.exits⟩
  | none => pure Flow.empty

/-- The arm `if_expression`. -/
def ifExpression (n : Node) : Build Flow := do
  let condition ← field below n "condition"
  let f ← ifStep src below n
  andThen src condition f n

/-- The right-hand side of `&&` and `||`. -/
def rightHandSide (n : Node) (label : String) : Build Flow := do
  match ← step src n "branch" label with
  | some s =>
      let right ← field below n "right"
      pure ⟨[{ s with children := right.steps }], true, right.exits⟩
  | none => pure Flow.empty

/-- The arm `binary_expression`. -/
def binaryExpression (n : Node) : Build Flow :=
  let op := ((n.childByFieldName "operator").map src.text).getD ""
  if op ∈ ["&&", "||"] then do
    let label :=
      if op = "&&" then "RHS only if left is true" else "RHS only if left is false"
    let left ← field below n "left"
    let f ← rightHandSide src below n label
    andThen src left f n
  else children src below n

/-- The arm `return_expression`. -/
def returnExpression (n : Node) : Build Flow := do
  let value ← children src below n
  let f ← event src n "return" (bounded (src.text n))
  andThen src value { f with exits := true, continues := false } n

/-- The two ways of `?`. -/
def residual (n : Node) : Build (List SequenceStep) := do
  match ← step src n "branch" "?: continue only on success; otherwise early return" with
  | some s =>
      let early ← step src n "return" "?: early return on residual; conversion not expanded"
      pure [{ s with alternate := early.toList }]
  | none => pure []

/-- The arm `try_expression`. -/
def tryExpression (n : Node) : Build Flow := do
  let value ← children src below n
  let steps ← residual src n
  andThen src value ⟨steps, true, true⟩ n

/-- The arm `await_expression`. -/
def awaitExpression (n : Node) : Build Flow := do
  let value ← children src below n
  let f ← event src n "await"
    "await: possible suspension/resumption when polled; timing unknown"
  andThen src value f n

/-- The arm `assignment_expression`: the right-hand side is evaluated first. -/
def assignmentExpression (n : Node) : Build Flow := do
  let right ← field below n "right"
  let left ← field below n "left"
  let values ← andThen src right left n
  let effect ← event src n "effect" ("write: " ++ bounded (src.text n))
  andThen src values effect n

/-! ### Arms of a match -/

/-- The body of an arm, behind its guard if it has one, and what the match may do with it. -/
def armBody (f : Flow) (a : SequenceStep) (arm : Node) : Build (Flow × SequenceStep) := do
  let guard := (arm.childByFieldName "pattern").bind fun p => p.childByFieldName "condition"
  let result ← field below arm "value"
  match guard with
  | some g => do
      let evaluated ← below.walk g
      let f : Flow := { f with
        exits := f.exits || result.exits || evaluated.exits
        continues := f.continues || (evaluated.continues && result.continues) }
      match ← step src arm "branch" "arm body only if guard is true" with
      | some selected =>
          let guarded : Flow := { Flow.empty with
            steps := [{ selected with children := result.steps }] }
          let inside ← andThen src evaluated guarded arm
          pure (f, { a with children := inside.steps })
      | none => pure (f, a)
  | none =>
      pure ({ f with exits := f.exits || result.exits,
                     continues := f.continues || result.continues },
        { a with children := result.steps })

/-- The loop of `match_step` over the arms; `drawn` are the arms so far. -/
def arms (f : Flow) (drawn : List SequenceStep) : List Node → Build (Flow × List SequenceStep)
  | [] => pure (f, drawn)
  | arm :: rest => do
      if ← full then
        limit
        pure (f, drawn)
      else
        match ← step src arm "branch"
          ("only if no earlier arm selected and pattern matches: " ++
            src.fieldText arm "pattern") with
        | some a =>
            let (f, a) ← armBody src below f a arm
            arms f (drawn ++ [a]) rest
        | none => arms f drawn rest

/-- The step of a match with its arms; it completes normally only through an arm that does. -/
def selection (n : Node) : Build Flow := do
  let closed : Flow := { Flow.empty with continues := false }
  match ← step src n "branch"
    "match: mutually exclusive arms; first matching pattern with true guard" with
  | some s =>
      match n.childByFieldName "body" with
      | some body =>
          let (f, drawn) ← arms src below closed []
            (body.named.filter fun a => a.kind = "match_arm")
          pure { f with steps := [{ s with alternate := drawn }] }
      | none => pure { closed with steps := [s] }
  | none => pure closed

def matchStep (n : Node) : Build Flow := do
  let value ← field below n "value"
  let f ← selection src below n
  andThen src value f n

/-! ### Loops -/

def hasBoundary (steps : List SequenceStep) : Bool :=
  (every steps).any fun s => s.kind = "boundary"

/-- The step of a loop, and whether its suffix can be reached. -/
def iterations (n : Node) : Build Flow := do
  match ← step src n "loop"
    (n.kind ++ ": possible iterations, not unrolled; exit/termination unknown") with
  | some s =>
      let cond ← field below n "condition"
      let body ← field below n "body"
      -- `loop` always enters its body, but what is opaque may break out of it
      let ends : Bool :=
        n.kind = "loop_expression" && !body.continues && !hasBoundary body.steps
      match ← step src n "branch"
        "body only if condition is true / next item exists (loop: each iteration)" with
      | some g =>
          let f ← andThen src cond { Flow.empty with
            steps := [{ g with children := body.steps }] } n
          pure ⟨[{ s with children := f.steps }], !ends, true⟩
      | none => pure ⟨[s], !ends, true⟩
  | none => pure { Flow.empty with exits := true }

def loopInit (n : Node) : Build Flow :=
  if n.kind = "for_expression" then field below n "value" else pure Flow.empty

def loopStep (n : Node) : Build Flow :=
  if n.named.any fun c => c.kind = "label" then
    unknown src n "Labeled loop: transfers not expanded."
  else do
    let init ← loopInit below n
    let f ← iterations src below n
    andThen src init f n

end Forms

/-! ### Calls -/

/-- Under the type arguments of a callee. -/
def ungeneric (n : Node) : Option Node :=
  if n.kind = "generic_function" then
    match _h : n.childByFieldName "function" with
    | some f => ungeneric f
    | none => none
  else some n
termination_by sizeOf n
decreasing_by exact Node.sizeOf_lt (Node.mem_of_childByFieldName ‹_›)

def callFunction (n : Node) : Option Node := (n.childByFieldName "function").bind ungeneric

def callLabel (n : Node) : String :=
  let function := (callFunction n).getD n
  let callee :=
    if function.kind = "field_expression" then (function.childByFieldName "field").getD function
    else function
  src.text callee

def unresolvedBoundary : Participant where
  id := "boundary:rust-unknown"
  label := "Unresolved calls"
  kind := "boundary"
  identification := "Source hints only; type and dispatch unresolved. " ++
    "Visual group, not runtime object identity."

/-- `source_hint`; `digest` is SHA-256 in hexadecimal. -/
def sourceHint (digest : String → String) (kind expression : String) : Participant where
  id := "rust:source:" ++ kind ++ ":" ++ digest expression
  label := bounded expression
  kind := kind
  identification := "Source expression only; type and dispatch unresolved. " ++
    "Repeated names are visual groups, not runtime object identity."

/-- The loop of `simple_receiver`, as many levels as are left. -/
def simpleReceiver : Nat → Node → Bool
  | 0, _ => false
  | room + 1, n =>
      if n.kind ∈ ["identifier", "self", "scoped_identifier"] then true
      else if n.kind = "field_expression" then
        match n.childByFieldName "value" with
        | some value => simpleReceiver room value
        | none => false
      else false

/-- The loop of `chain_result`, as many levels as are left. -/
def chainResult : Nat → Node → Bool
  | 0, _ => false
  | room + 1, n =>
      if n.kind = "call_expression" then true
      else if n.kind ∈ ["try_expression", "await_expression", "parenthesized_expression"] then
        match n.named.head? with
        | some value => chainResult room value
        | none => false
      else false

def unresolvedParticipant (digest : String → String) (n : Node) : Participant :=
  match callFunction n with
  | none => unresolvedBoundary
  | some function =>
      if function.kind ∈ ["identifier", "scoped_identifier"] then
        sourceHint digest "unresolvedCallee" (src.text function)
      else if function.kind = "field_expression" then
        match function.childByFieldName "value" with
        | none => unresolvedBoundary
        | some receiver =>
            if simpleReceiver maxDepth receiver then
              sourceHint digest "unresolvedReceiver" (src.text receiver)
            else if chainResult maxDepth receiver then
              { id := "rust:syntax:chain-results"
                label := "Chain results"
                kind := "unresolvedReceiver"
                identification := "Syntactic call/try-chain results only; type and dispatch " ++
                  "unresolved. Shared visual group, not runtime object identity or a claimed " ++
                  "return type." }
            else unresolvedBoundary
      else unresolvedBoundary

/-- The lane of a call, the last one being kept for what has no lane of its own. -/
def lane (digest : String → String) (n : Node) : Build (Option String) := do
  let b ← get
  let known (p : Participant) : Bool := b.view.participants.any fun q => q.id = p.id
  let hint := unresolvedParticipant src digest n
  let participant ←
    if hint.kind ≠ "internal" ∧ maxParticipants - 1 ≤ b.view.participants.length ∧
        known hint = false then do
      warn ("Source-hint participant limit reached; additional hints share Unresolved calls. " ++
        "Measured call evidence is retained.")
      pure unresolvedBoundary
    else pure hint
  if known participant then pure (some participant.id)
  else if maxParticipants ≤ b.view.participants.length then do
    limit
    pure none
  else do
    modify fun b =>
      { b with view := { b.view with participants := b.view.participants ++ [participant] } }
    pure (some participant.id)

def callStep (digest : String → String) (n : Node) (c : View.CallSite) : Build Flow := do
  let target ← lane src digest n
  match ← step src n (if target.isSome then "call" else "boundary") (callLabel src n) with
  | some s => pure { Flow.empty with steps := [{ s with callId := some c.id, range := c.range }] }
  | none => pure Flow.empty

def call (digest : String → String) (below : Below) (n : Node) : Build Flow := do
  let evaluation ← children src below n
  if evaluation.continues = false then pure evaluation
  else
    match src.measuredCall n with
    | none => do
        let f ← unknown src n "Call has no matching measured call site; target unknown."
        andThen src evaluation f n
    | some c => do
        let f ← callStep src digest n c
        andThen src evaluation f n

/-! ### The walk -/

section Walk

variable (digest : String → String)

/-- The arms of `walk`. -/
def form (below : Below) (n : Node) : Build Flow :=
  if n.kind ∈ ["function_item", "closure_expression"] then
    boundary src n ("Nested callable boundary: body does not execute at definition; " ++
      "captures are not expanded.")
  else if n.kind = "async_block" then
    boundary src n ("Async block boundary: future construction does not execute its body; " ++
      "captures are not expanded.")
  else if n.kind ∈ ["macro_invocation", "unsafe_block", "const_block"] then
    unknown src n ("Opaque macro/unsafe/const boundary: expansion, effects and transfers " ++
      "unknown.")
  else if n.kind ∈ ["break_expression", "continue_expression", "yield_expression"] then
    transfer src n
  else if n.kind = "block" ∧ (n.named.any fun c => c.kind = "label") then
    unknown src n "Labeled block: control transfers not expanded."
  else if n.kind = "array_expression" ∧ (n.childByFieldName "length").isSome then
    unknown src n ("Array repeat boundary: const length and element evaluation are not " ++
      "expanded.")
  else if n.kind ∈ ["block", "expression_statement", "else_clause", "parenthesized_expression",
      "arguments", "tuple_expression", "array_expression", "field_expression",
      "index_expression", "reference_expression", "unary_expression", "range_expression"] then
    children src below n
  else if n.kind = "type_cast_expression" then field below n "value"
  else if n.kind = "let_declaration" then letDeclaration src below n
  else if n.kind = "let_condition" then field below n "value"
  else if n.kind = "if_expression" then ifExpression src below n
  else if n.kind = "match_expression" then matchStep src below n
  else if n.kind ∈ ["while_expression", "for_expression", "loop_expression"] then
    loopStep src below n
  else if n.kind = "binary_expression" then binaryExpression src below n
  else if n.kind = "call_expression" then call src digest below n
  else if n.kind = "return_expression" then returnExpression src below n
  else if n.kind = "try_expression" then tryExpression src below n
  else if n.kind = "await_expression" then awaitExpression src below n
  else if n.kind = "assignment_expression" then assignmentExpression src below n
  else if n.kind = "compound_assignment_expr" then
    unknown src n ("Compound assignment: operand order depends on primitive versus overloaded " ++
      "operation; write/evaluation not expanded.")
  else if n.kind = "generic_function" then field below n "function"
  else if n.kind = "struct_expression" then field below n "body"
  else if n.kind = "field_initializer_list" then children src below n
  else if n.kind = "field_initializer" then field below n "value"
  else if n.kind = "base_field_initializer" then children src below n
  else if n.kind ∈ ["identifier", "field_identifier", "shorthand_field_initializer",
      "scoped_identifier", "self", "integer_literal", "float_literal", "boolean_literal",
      "char_literal", "string_literal", "raw_string_literal", "unit_expression", "line_comment",
      "block_comment", "empty_statement", "use_declaration"] then
    pure Flow.empty
  else unknown src n ("Unsupported Rust form '" ++ n.kind ++ "': behavior unknown.")

mutual

/-- `walk`, with the levels it may still go down. -/
def walk : Nat → Node → Build Flow
  | 0, n => do
      if ← full then
        limit
        pure Flow.empty
      else
        limit
        unknown src n "Depth limit: behavior omitted."
  | room + 1, n => do
      if ← full then
        limit
        pure Flow.empty
      else if n.hasError || n.isMissing then
        unknown src n "Malformed Rust: behavior unknown."
      else form src digest ⟨walk room, suffix room⟩ n

/-- The block behind a guard, one level deeper than the walks of this level. -/
def suffix : Nat → Option (List Node → Build Flow)
  | 0 => none
  | room + 1 => some (block src ⟨walk room, suffix room⟩)

end

end Walk

end Baleyg.Behavior.Rust
