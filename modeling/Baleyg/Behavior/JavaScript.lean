/-
The JavaScript sequence adapter.

The walk models the order of evaluation, as the Rust one does, but with fewer guards.  `block` puts
what follows a node that may leave behind a guard, and a node says whether it may: a transfer, what
stands for one, a choice or a loop with one inside.  A form that draws a step of its own draws it
after what it evaluates, whatever was said of that; and the right-hand side of a short circuit, the
header of a loop and whatever a boundary replaces say nothing.
-/
import Baleyg.Behavior.Builder
import Baleyg.Topology.Records

namespace Baleyg.Behavior.JavaScript

open View (SourceRange)
open Fallible (ensure)

def callable (n : Node) : Bool :=
  n.kind ∈ ["function_declaration", "function_expression", "generator_function_declaration",
    "generator_function", "arrow_function", "method_definition"]

def isClass (n : Node) : Bool := n.kind ∈ ["class", "class_declaration"]

def isPattern (n : Node) : Bool := n.kind ∈ ["object_pattern", "array_pattern"]

/-- The callee or the receiver of a node, which `optional_chain` looks at next. -/
def receiver (n : Node) : Option Node :=
  if n.kind = "call_expression" then n.childByFieldName "function"
  else if n.kind ∈ ["member_expression", "subscript_expression"] then n.childByFieldName "object"
  else none

theorem mem_of_receiver {n part : Node} (h : receiver n = some part) : part ∈ n.children := by
  unfold receiver at h
  split at h
  · exact Node.mem_of_childByFieldName h
  · split at h
    · exact Node.mem_of_childByFieldName h
    · cases h

def optionalChain (n : Node) : Bool :=
  if (n.childByFieldName "optional_chain").isSome then true
  else
    match _h : receiver n with
    | some next => optionalChain next
    | none => false
termination_by sizeOf n
decreasing_by exact Node.sizeOf_lt (mem_of_receiver ‹_›)

mutual

def loopTransfer : Node → Bool
  | n@{ children, .. } => decide (n.kind ∈ ["break_statement", "continue_statement"]) ||
      (!callable n && !isClass n && loopTransferAll children)

def loopTransferAll : List Node → Bool
  | [] => false
  | n :: rest => (n.isNamed && loopTransfer n) || loopTransferAll rest

end

/-- What the adapter asks besides the source: a syntactic binding for the callee of a call, whether
the parent of a node is an expression statement, and whether everything is to be shown. -/
structure Surroundings where
  identify : Node → Option Participant
  standalone : Node → Bool
  showAll : Bool

variable (src : Source)

def append (out : Flow) (n : Node) (kind label : String) : Build Flow := do
  let s ← step src n kind label
  pure { out with steps := out.steps ++ s.toList }

def appendBoundary (out : Flow) (n : Node) (message : String) : Build Flow := do
  let f ← boundary src n message
  pure { out with steps := out.steps ++ f.steps }

/-- The effect `write`. -/
def write (out : Flow) (n : Node) : Build Flow :=
  append src out n "effect" ("write: " ++ bounded (src.text n))

def nestedMessage : String :=
  "Nested function/callback/class boundary: bodies are not executed here; class definition " ++
    "effects (base, computed keys, static initialization) are not expanded."

def complexMessage : String :=
  "Unsupported complex control: possible behavior remains unknown; body not expanded."

def transferMessage : String := "Loop control transfer: remainder of this path is not executed."

def loopMessage : String :=
  "Loop containing break/continue: control-transfer paths and iteration tails are not expanded."

section Forms

variable (below : Below)

def children (n : Node) : Build Flow := block src below n.named

/-- The arms `if_statement` and `ternary_expression`. -/
def ifForm (n : Node) : Build Flow := do
  let out ← field below n "condition"
  match ← step src n "branch" ("if " ++ src.fieldText n "condition") with
  | some s =>
      let yes ← field below n "consequence"
      let no ← field below n "alternative"
      pure ⟨out.steps ++ [{ s with children := yes.steps, alternate := no.steps }],
        yes.continues || no.continues, out.exits || yes.exits || no.exits⟩
  | none => pure out

/-- `operator`, as its text. -/
def operator (n : Node) : String := ((n.childByFieldName "operator").map src.text).getD ""

def shortCircuits (n : Node) : Bool :=
  operator src n ∈ ["&&", "||", "??", "&&=", "||=", "??="]

def shortCircuitLabel (op : String) : String :=
  if op ∈ ["&&", "&&="] then "RHS only if left is truthy"
  else if op ∈ ["||", "||="] then "RHS only if left is falsy"
  else "RHS only if left is nullish"

/-- The right-hand side of a short circuit, and the write if it is assigned. -/
def rightHandSide (n : Node) : Build Flow := do
  let right ← field below n "right"
  if n.kind = "augmented_assignment_expression" then write src right n else pure right

/-- `&&`, `||`, `??` and their assignments. -/
def shortCircuit (n : Node) : Build Flow := do
  let out ← field below n "left"
  match ← step src n "branch" (shortCircuitLabel (operator src n)) with
  | some s =>
      let right ← rightHandSide src below n
      pure { out with steps := out.steps ++ [{ s with children := right.steps }] }
  | none => pure out

/-- The arms `binary_expression` and `augmented_assignment_expression`. -/
def binaryForm (n : Node) : Build Flow :=
  if shortCircuits src n = true then shortCircuit src below n
  else if n.kind = "augmented_assignment_expression" then do
    let out ← children src below n
    write src out n
  else children src below n

/-- The arms `return_statement` and `throw_statement`. -/
def leave (n : Node) : Build Flow := do
  let out ← children src below n
  let out ← append src out n (if n.kind = "return_statement" then "return" else "throw")
    (bounded (src.text n))
  pure { out with continues := false, exits := true }

/-- The arm `await_expression`. -/
def awaitExpression (n : Node) : Build Flow := do
  let out ← children src below n
  append src out n "await" "await: suspension/resumption boundary, timing unknown"

/-- The arms `switch_statement`, `with_statement`, `labeled_statement` and `yield_expression`. -/
def complex (n : Node) : Build Flow := do
  let out ← boundary src n complexMessage
  pure { out with exits := true }

/-- The arms `break_statement` and `continue_statement`. -/
def transfer (n : Node) : Build Flow := do
  let out ← boundary src n transferMessage
  pure { out with continues := false, exits := true }

/-- The arms for bindings with a pattern: the value, and a boundary for the pattern. -/
def destructuring (n : Node) (value message : String) : Build Flow := do
  let out ← field below n value
  appendBoundary src out n message

/-- Whether a node is a `delete`. -/
def deletes (n : Node) : Bool :=
  ((src.text n).toList.dropWhile Topology.isWhitespace).take 7 = "delete ".toList

/-- The arm `unary_expression`. -/
def unaryExpression (n : Node) : Build Flow := do
  let out ← children src below n
  if deletes src n = true then append src out n "effect" ("delete: " ++ bounded (src.text n))
  else pure out

/-! ### Loops and exceptions -/

def loopHeader (n : Node) : Build Flow :=
  if n.kind = "for_statement" then field below n "initializer"
  else if n.kind = "for_in_statement" then field below n "right"
  else pure Flow.empty

def loopTest (n : Node) : Build (List SequenceStep) := do
  if n.kind = "do_statement" then pure []
  else
    let f ← field below n "condition"
    pure f.steps

/-- The left-hand side of a `for ... in`. -/
def loopTarget (left : Node) : Build Flow :=
  if isPattern left = true then
    boundary src left "Loop destructuring binding: per-iteration reads/defaults are not expanded."
  else below.walk left

def loopBinding (n : Node) : Build (List SequenceStep) :=
  if n.kind = "for_in_statement" then
    match n.childByFieldName "left" with
    | some left => do
        let f ← loopTarget src below left
        pure f.steps
    | none => pure []
  else pure []

def loopTail (n : Node) : Build (List SequenceStep) := do
  let increment ← field below n "increment"
  if n.kind = "do_statement" then
    let test ← field below n "condition"
    pure (increment.steps ++ test.steps)
  else pure increment.steps

/-- The end of an iteration, behind a guard if the body may leave. -/
def iterationEnd (n : Node) (body : Flow) : Build (List SequenceStep) :=
  if body.continues = true then do
    let tail ← loopTail below n
    if body.exits = true ∧ tail ≠ [] then
      match ← step src n "branch" "only if iteration continues normally" with
      | some g => pure [{ g with children := tail }]
      | none => pure []
    else pure tail
  else pure []

def iterations (out : Flow) (n : Node) : Build Flow := do
  match ← step src n "loop" (n.kind ++ ": possible iterations, not unrolled") with
  | some s =>
      let test ← loopTest below n
      let binding ← loopBinding src below n
      let body ← field below n "body"
      let tail ← iterationEnd src below n body
      -- a do/while executes its body at least once
      pure ⟨out.steps ++ [{ s with children := test ++ binding ++ body.steps ++ tail }],
        if n.kind = "do_statement" then body.continues else out.continues, body.exits⟩
  | none => pure out

def loopStep (n : Node) : Build Flow := do
  let out ← loopHeader below n
  if loopTransfer n = true then
    let out ← appendBoundary src out n loopMessage
    pure { out with exits := true }
  else iterations src below out n

def handlerBinding (handler : Node) : Build Flow :=
  match handler.childByFieldName "parameter" with
  | none => pure Flow.empty
  | some parameter =>
      if parameter.kind = "identifier" then pure Flow.empty
      else boundary src parameter
        "Catch destructuring binding: computed keys/defaults are not expanded."

/-- The handler of a `try`, with what has been said of the body. -/
def handlerStep (out : Flow) (n : Node) : Build (Flow × List SequenceStep) := do
  match n.childByFieldName "handler" with
  | none => pure (out, [])
  | some handler =>
      match ← step src handler "branch" "catch: only if an exception reaches this handler" with
      | none => pure (out, [])
      | some c =>
          let f ← field below handler "body"
          let bound ← handlerBinding src handler
          pure ({ out with exits := out.exits || f.exits, continues := out.continues || f.continues },
            [{ c with children := bound.steps ++ f.steps }])

/-- The finalizer of a `try`. -/
def finalizerStep (out : Flow) (n : Node) : Build (Flow × List SequenceStep) := do
  match n.childByFieldName "finalizer" with
  | none => pure (out, [])
  | some finalizer =>
      match ← step src finalizer "note" "finally: on both normal and abrupt completion" with
      | none => pure (out, [])
      | some c =>
          let f ← field below finalizer "body"
          pure ({ out with exits := out.exits || f.exits, continues := out.continues && f.continues },
            [{ c with children := f.steps }])

def tryStep (n : Node) : Build Flow := do
  warn ("Exception paths are possible, not proven; finally runs on normal and abrupt " ++
    "completion.")
  match ← step src n "try" "try; exception behavior unknown" with
  | none => pure Flow.empty
  | some s =>
      let body ← field below n "body"
      let (out, handler) ← handlerStep src below { body with steps := [] } n
      let (out, finalizer) ← finalizerStep src below out n
      pure { out with
        steps := [{ s with children := body.steps, alternate := handler ++ finalizer }] }

/-! ### Calls -/

def unknownParticipant : Participant where
  id := "boundary:unknown"
  label := "Unknown/external operations (visual group, not object identity)"
  kind := "boundary"
  identification := "Target unknown; visual group only."

/-- The source text of a callee, which is shown and nothing else. -/
def callLabel (n : Node) (c : View.CallSite) : String :=
  let callee := (n.childByFieldName "function").or (n.childByFieldName "constructor")
  (callee.bind fun node => Native.get src.file.text ⟨node.startByte, node.endByte⟩).getD
    (c.calleeText.getD "")

variable (around : Surroundings)

/-- Whether the participant of a call has a lane, which it gets if there is room. -/
def lane (n : Node) : Build Bool := do
  let participant := (around.identify n).getD unknownParticipant
  let b ← get
  if (b.view.participants.any fun p => p.id = participant.id) = true then pure true
  else if maxParticipants ≤ b.view.participants.length then do
    limit
    pure false
  else do
    set { b with view := { b.view with
      participants := b.view.participants ++ [{ participant with label := bounded participant.label }] } }
    pure true

def hides (n : Node) (label : String) : Bool :=
  !around.showAll && decide (label ∈ ["console.log", "console.debug"]) && around.standalone n

def countHidden (hidden : Bool) : Build Unit :=
  if hidden = true then do
    modify fun b => { b with view := { b.view with hiddenSteps := b.view.hiddenSteps + 1 } }
    warn ("Standalone console.log/debug wrappers are hidden by a naming heuristic, not a proof of " ++
      "purity; argument effects remain. Use Show all to restore them.")
  else pure ()

def callStep (n : Node) (c : View.CallSite) : Build (List SequenceStep) := do
  let label := callLabel src n c
  if ← lane around n then
    match ← step src n "call" label with
    | none => pure []
    | some s =>
        let hidden := hides around n label
        countHidden hidden
        pure [{ s with callId := some c.id, range := c.range, hidden := hidden }]
  else
    match ← step src n "boundary" ("Participant limit: " ++ bounded label) with
    | none => pure []
    | some s => pure [{ s with callId := some c.id, range := c.range }]

/-- An optional call keeps the evidence of its call site. -/
def attach (c : View.CallSite) : List SequenceStep → List SequenceStep
  | [] => []
  | s :: rest => { s with callId := some c.id, range := c.range } :: rest

def call (n : Node) : Build Flow := do
  if optionalChain n = true then
    let out ← boundary src n "Optional-chain call: guarded invocation/evaluation not expanded."
    match src.measuredCall n with
    | some c => pure { out with steps := attach c out.steps }
    | none => pure out
  else
    let out ← children src below n
    match src.measuredCall n with
    | none => appendBoundary src out n "Call has no matching measured call site; target unknown."
    | some c =>
        let steps ← callStep src around n c
        pure { out with steps := out.steps ++ steps }

end Forms

/-! ### The walk -/

section Walk

variable (around : Surroundings)

def bindsPattern (n : Node) (name : String) : Bool := (n.childByFieldName name).any isPattern

def structural : List String :=
  ["expression_statement", "else_clause", "parenthesized_expression", "arguments",
    "lexical_declaration", "variable_declaration", "variable_declarator", "sequence_expression",
    "member_expression", "subscript_expression", "array", "object", "pair",
    "computed_property_name", "spread_element", "template_string", "template_substitution",
    "array_pattern", "object_pattern", "pair_pattern", "rest_pattern"]

def silent : List String :=
  ["identifier", "property_identifier", "private_property_identifier",
    "shorthand_property_identifier", "shorthand_property_identifier_pattern", "number", "string",
    "string_fragment", "escape_sequence", "true", "false", "null", "undefined", "this", "super",
    "regex", "comment", "empty_statement"]

/-- The arms of `walk`. -/
def form (below : Below) (n : Node) : Build Flow :=
  if callable n = true ∨ isClass n = true then boundary src n nestedMessage
  else if n.kind ∈ ["statement_block", "program"] then children src below n
  else if n.kind ∈ ["if_statement", "ternary_expression"] then ifForm src below n
  else if n.kind ∈ ["binary_expression", "augmented_assignment_expression"] then
    binaryForm src below n
  else if n.kind ∈ ["call_expression", "new_expression"] then call src below around n
  else if n.kind ∈ ["member_expression", "subscript_expression"] ∧ optionalChain n = true then
    boundary src n "Optional-chain access: guarded property evaluation not expanded."
  else if n.kind ∈ ["return_statement", "throw_statement"] then leave src below n
  else if n.kind = "await_expression" then awaitExpression src below n
  else if n.kind ∈ ["while_statement", "do_statement", "for_statement", "for_in_statement"] then
    loopStep src below n
  else if n.kind = "try_statement" then tryStep src below n
  else if n.kind ∈ ["switch_statement", "with_statement", "labeled_statement",
      "yield_expression"] then complex src n
  else if n.kind ∈ ["break_statement", "continue_statement"] then transfer src n
  else if n.kind = "variable_declarator" ∧ bindsPattern n "name" = true then
    destructuring src below n "value" ("Destructuring binding: computed keys/defaults/implicit " ++
      "reads are not expanded (RHS evaluated first).")
  else if n.kind = "assignment_expression" ∧ bindsPattern n "left" = true then
    destructuring src below n "right" ("Destructuring assignment: computed keys/defaults/writes " ++
      "are not expanded (RHS evaluated first).")
  else if n.kind ∈ ["assignment_expression", "update_expression"] then do
    let out ← children src below n
    write src out n
  else if n.kind = "unary_expression" then unaryExpression src below n
  else if n.kind ∈ structural then children src below n
  else if n.kind ∈ silent then pure Flow.empty
  else boundary src n ("Unsupported JavaScript form '" ++ n.kind ++ "': behavior unknown.")

mutual

/-- `walk`, with the levels it may still go down. -/
def walk : Nat → Node → Build Flow
  | 0, n => do
      if ← full then
        limit
        pure Flow.empty
      else
        limit
        boundary src n "Depth limit: behavior omitted."
  | room + 1, n => do
      if ← full then
        limit
        pure Flow.empty
      else if n.hasError || n.isMissing then
        boundary src n "Malformed JavaScript: behavior cannot be established."
      else form src around ⟨walk room, suffix room⟩ n

/-- The block behind a guard, one level deeper than the walks of this level. -/
def suffix : Nat → Option (List Node → Build Flow)
  | 0 => none
  | room + 1 => some (block src ⟨walk room, suffix room⟩)

end

/-! ### Building a view -/

/-- The node that is exactly the indexed function, or the last one around it. -/
def locate (seed : View.SourceRange) (n : Node) : Node :=
  if n.startByte = seed.startByte ∧ n.endByte = seed.endByte ∧ callable n = true then n
  else
    match _h : n.named.find? fun c =>
      decide (c.startByte ≤ seed.startByte ∧ seed.endByte ≤ c.endByte) with
    | some c => locate seed c
    | none => n
termination_by sizeOf n
decreasing_by exact Node.sizeOf_lt (Node.mem_of_named (List.mem_of_find?_eq_some ‹_›))

def parameters (node : Node) : Build (List SequenceStep) :=
  match node.childByFieldName "parameters" with
  | none => pure []
  | some params =>
      if (params.named.any fun p => p.kind ≠ "identifier") = true then do
        let f ← boundary src params
          "Parameter defaults/destructuring may execute before the body; behavior not expanded."
        pure f.steps
      else pure []

/-- What `build` draws of the node it found. -/
def draw (node : Node) : Build (List SequenceStep) :=
  if callable node = false ∨ node.startByte ≠ src.seed.range.startByte ∨
      node.endByte ≠ src.seed.range.endByte then do
    let f ← boundary src node
      "Indexed function does not match cached syntax; behavior unknown."
    pure f.steps
  else if node.hasError then do
    let f ← boundary src node "Malformed JavaScript: behavior cannot be established."
    pure f.steps
  else do
    let f ← field ⟨walk src around maxDepth, suffix src around maxDepth⟩ node "body"
    let before ← parameters src node
    pure (before ++ f.steps)

def opening (revision : IndexPin) : SequenceView where
  revision := revision
  seed := src.seed
  participants := [
    { id := src.seed.id
      label := bounded src.seed.name
      kind := "method"
      identification := "Selected source symbol." }]
  steps := []
  warnings := ["Static possible paths, not observed runtime order. Selectivity is an " ++
    "uncalibrated conservative heuristic. Implicit getters, coercions, iteration protocols, and " ++
    "other runtime effects are not expanded."]
  hiddenSteps := 0
  truncated := false

def viewOf (revision : IndexPin) (node : Node) : SequenceView :=
  let drawn := (draw src around node).run ⟨opening src revision, 0⟩
  { drawn.2.view with steps := drawn.1 }

/-- `build`; `parse` is the JavaScript grammar. -/
def build (parse : String → Option Node) (revision : IndexPin) : Except String SequenceView := do
  ensure (src.seed.path = src.file.path) "symbol/source path mismatch"
  ensure (src.seed.kind ∈ [.function, .method]) "sequence seed must be a function or method"
  ensure (src.seed.range.startByte < src.seed.range.endByte ∧
    src.seed.range.endByte ≤ Native.byteLength src.file.text) "invalid symbol source range"
  match parse src.file.text with
  | none => throw "JavaScript parse unavailable"
  | some root => pure (viewOf src around revision (locate src.seed.range root))

end Walk

end Baleyg.Behavior.JavaScript
