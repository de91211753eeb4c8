/-
Grouping the calls of a chain.

A view may show a chain of method calls as one step.  The grouping walks the syntax, and for each
chain it comes to looks through the steps for the run that was drawn of it; a run of measured
calls and nothing else, with every call of the chain in it, becomes the children of a group.

Two things are kept by every such replacement.  The steps without groups are the steps before,
since a group's children are the run it replaced, in place.  And what there is of groups is
`Grouped`: a group holds measured calls with nothing below them, one of them where the group says
it is, and as many as the chain has, for the calls of a chain are ever narrower.  So what the walk
over the syntax visits, how often and how far does not matter.  Two groups with one identifier
would hold one measured call each at the same place, and no call site is drawn twice.
-/
import Mathlib.Data.List.Perm.Subperm
import Baleyg.Behavior.Measured

namespace Baleyg.Behavior.Rust

open Stateful
open Fallible (ensure)

/-! ### Chains -/

def receiverCall (n : Node) : Option Node := do
  let function ← callFunction n
  if function.kind = "field_expression" then
    let receiver ← function.childByFieldName "value"
    if receiver.kind = "call_expression" then some receiver else none
  else none

/-- A call and the calls its receivers are, the outermost first; none where a chain is longer
than what is left. -/
def receivers : Nat → Node → Option (List Node)
  | 0, n =>
      match receiverCall n with
      | none => some [n]
      | some _ => none
  | room + 1, n =>
      match receiverCall n with
      | none => some [n]
      | some next => (receivers room next).map (n :: ·)

def simpleArguments (n : Node) : Option Node :=
  (n.childByFieldName "arguments").filter fun a =>
    a.endByte - a.startByte ≤ 48 ∧ a.named ≠ [] ∧ ∀ v ∈ a.named, v.kind ∈ ["identifier",
      "scoped_identifier", "boolean_literal", "integer_literal", "float_literal",
      "string_literal", "char_literal", "raw_string_literal"]

/-- `bytes`: the identifier of the group of a call. -/
def groupId (extent : Nat × Nat) : String :=
  "group:" ++ toString extent.1 ++ ":" ++ toString extent.2

variable (src : Source)

def chainLabel (chain : List Node) : String :=
  let labels := chain.map fun c =>
    match simpleArguments c with
    | some a => callLabel src c ++ src.text a
    | none => callLabel src c
  String.intercalate " → " labels ++ " (" ++ toString labels.length ++ " calls)"

section Wrap

variable (n : Node) (chain : List Node) (label : String)

def within (s : SequenceStep) : Bool :=
  n.startByte ≤ s.range.startByte && s.range.endByte ≤ n.endByte

/-- The first run of steps within the call, as a group, if it was flatly and fully measured. -/
def collapse (steps : List SequenceStep) : Option (List SequenceStep) :=
  let before := steps.takeWhile fun s => !within n s
  let rest := steps.dropWhile fun s => !within n s
  let slice := rest.takeWhile (within n)
  match slice.getLast? with
  | none => none
  | some last =>
      if (slice.all fun s => s.measured) &&
          chain.all fun c => slice.any fun s => s.extent = c.extent then
        some (before ++ { last with
          id := groupId n.extent
          kind := "group"
          label := bounded label
          range := n.range
          callId := none
          children := slice } :: rest.dropWhile (within n))
      else none

mutual

def wrapStep : SequenceStep → SequenceStep
  | s@{ kind, children, alternate, .. } =>
      if kind = "group" then s
      else { s with
        children := (collapse n chain label children).getD (wrapEach children)
        alternate := (collapse n chain label alternate).getD (wrapEach alternate) }

def wrapEach : List SequenceStep → List SequenceStep
  | [] => []
  | s :: rest => wrapStep s :: wrapEach rest

end

def wrapChain (steps : List SequenceStep) : List SequenceStep :=
  (collapse n chain label steps).getD (wrapEach n chain label steps)

end Wrap

def wrapSyntaxChain (n : Node) (steps : List SequenceStep) : List SequenceStep :=
  if n.kind = "call_expression" then
    match receivers (maxDepth - 1) n with
    | none => steps
    | some chain =>
        if 3 ≤ chain.length then
          wrapChain n chain.reverse (chainLabel src chain.reverse) steps
        else steps
  else steps

/-- Where the cursor goes when nothing is left below: the next sibling, or the next of the closest
node around that has one. -/
def ascend : List (List Node) → Option (Node × List (List Node))
  | [] => none
  | [] :: up => ascend up
  | (next :: rest) :: up => some (next, rest :: up)

/-- The loop of `group_chains`; `up` are the siblings still to come, at each level above. -/
def groupFrom : Nat → Node → List (List Node) → List SequenceStep → Bool →
    List SequenceStep × Bool
  | 0, _, _, steps, _ => (steps, true)
  | budget + 1, node, up, steps, limited =>
      let onwards (steps : List SequenceStep) (limited : Bool) : List SequenceStep × Bool :=
        (ascend up).elim (steps, limited) fun o => groupFrom budget o.1 o.2 steps limited
      if (up ≠ [] ∧ callable node = true) ∨ node.kind ∈ ["macro_invocation", "unsafe_block",
          "const_block", "async_block"] then
        onwards steps limited
      else
        let wrapped := wrapSyntaxChain src node steps
        if up.length < maxDepth then
          match node.children with
          | first :: rest => groupFrom budget first (rest :: up) wrapped limited
          | [] => onwards wrapped limited
        else onwards wrapped (limited || !node.children.isEmpty)

def groupChains (n : Node) (steps : List SequenceStep) : List SequenceStep × Bool :=
  groupFrom src (maxSteps * maxDepth) n [] steps false

/-! ### Building a view -/

/-- The node that is exactly the indexed callable, or the last one around it. -/
def locate (seed : View.SourceRange) (n : Node) : Node :=
  if n.startByte = seed.startByte ∧ n.endByte = seed.endByte ∧ callable n = true then n
  else
    match _h : n.named.find? fun c =>
      decide (c.startByte ≤ seed.startByte ∧ seed.endByte ≤ c.endByte) with
    | some c => locate seed c
    | none => n
termination_by sizeOf n
decreasing_by exact Node.sizeOf_lt (Node.mem_of_named (List.mem_of_find?_eq_some ‹_›))

variable (digest : String → String)

/-- What `build` draws of the node it found. -/
def draw (node : Node) : Build Flow :=
  if callable node = false ∨ node.startByte ≠ src.seed.range.startByte ∨
      node.endByte ≠ src.seed.range.endByte then
    boundary src node "Indexed function does not match cached syntax; behavior unknown."
  else if node.hasError then
    boundary src node "Malformed Rust: behavior cannot be established."
  else field ⟨walk src digest maxDepth, suffix src digest maxDepth⟩ node "body"

def opening (revision : IndexPin) : SequenceView where
  revision := revision
  seed := src.seed
  participants := [
    { id := src.seed.id
      label := bounded src.seed.name
      kind := "method"
      identification := "Selected source symbol." }]
  steps := []
  warnings := ["Static possible paths, not a runtime trace. Rust types, traits, dispatch, " ++
    "cfg/attributes, implicit drops, coercions and iterator protocols are not resolved. Async " ++
    "bodies describe possible execution when polled, not future construction. Calls may panic " ++
    "or diverge; those implicit paths are not expanded."]
  hiddenSteps := 0
  truncated := false

/-- The view of a node, with its chains grouped unless everything is to be shown. -/
def viewOf (revision : IndexPin) (node : Node) (showAll : Bool) : SequenceView :=
  let drawn := (draw src digest node).run ⟨opening src revision, 0⟩
  let view := { drawn.2.view with steps := drawn.1.steps }
  if showAll then view
  else
    let grouped := groupChains src node view.steps
    if grouped.2 then
      ((warn ("Chain grouping traversal truncated at its depth/work bound; original measured " ++
        "steps are retained.")).run
          { drawn.2 with view := { view with steps := grouped.1 } }).2.view
    else { view with steps := grouped.1 }

/-- `build`; `parse` is the Rust grammar, `digest` SHA-256 in hexadecimal. -/
def build (parse : String → Option Node) (revision : IndexPin) (showAll : Bool) :
    Except String SequenceView := do
  ensure (src.seed.path = src.file.path) "symbol/source path mismatch"
  ensure (src.seed.kind ∈ [.function, .method]) "sequence seed must be a function or method"
  ensure (src.seed.range.startByte < src.seed.range.endByte ∧
    src.seed.range.endByte ≤ Native.byteLength src.file.text) "invalid symbol source range"
  match parse src.file.text with
  | none => throw "Rust parse unavailable"
  | some root => pure (viewOf src digest revision (locate src.seed.range root) showAll)

end Baleyg.Behavior.Rust
