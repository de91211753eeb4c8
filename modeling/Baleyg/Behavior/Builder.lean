/-
What the sequence adapters share.

An adapter walks the syntax of one callable and draws steps, at most so many and at most so deep.
A walk says three things of what it drew: the steps, whether the next statement can be reached,
and whether some way through leaves, so that what follows has to be drawn behind a guard.

A walk never goes up.  It is therefore defined by the number of levels it may still go down, and
the two recursive calls of a form, into a child and into the suffix behind a guard, are parameters
of it.
-/
import Baleyg.Behavior.Sequence

namespace Baleyg.Behavior

open View (SourceRange)

def maxSteps : Nat := 200
def maxParticipants : Nat := 20
def maxDepth : Nat := 24

def bounded (s : String) : String :=
  String.ofList (if s.toList.length > 180 then s.toList.take 180 ++ ['…'] else s.toList)

structure Flow where
  steps : List SequenceStep
  continues : Bool
  exits : Bool

def Flow.empty : Flow := ⟨[], true, false⟩

/-- What an adapter reads: a source file, the callable to draw and the measured calls. -/
structure Source where
  file : Native.SourceFile
  seed : View.Symbol
  calls : List View.CallSite

structure Builder where
  view : SequenceView
  count : Nat

abbrev Build := StateM Builder

namespace Source

variable (src : Source)

def text (n : Node) : String := (Native.get src.file.text ⟨n.startByte, n.endByte⟩).getD ""

/-- `text` of the child in a field, shortened. -/
def fieldText (n : Node) (field : String) : String :=
  ((n.childByFieldName field).map fun c => bounded (src.text c)).getD ""

def measuredCall (n : Node) : Option View.CallSite :=
  src.calls.find? fun c => c.caller = src.seed.id ∧ c.path = src.file.path ∧
    c.range.startByte = n.startByte ∧ c.range.endByte = n.endByte

theorem measuredCall_extent {n : Node} {c : View.CallSite} (h : src.measuredCall n = some c) :
    (c.range.startByte, c.range.endByte) = n.extent := by
  unfold measuredCall at h
  have hfound := List.find?_some h
  rw [decide_eq_true_eq] at hfound
  obtain ⟨_, _, hstart, hstop⟩ := hfound
  exact Prod.ext hstart hstop

end Source

def warn (message : String) : Build Unit :=
  modify fun b =>
    if b.view.warnings.length < 16 ∧ message ∉ b.view.warnings then
      { b with view := { b.view with warnings := b.view.warnings ++ [message] } }
    else b

/-- A warning is all that `warn` changes. -/
theorem warn_run (message : String) (b : Builder) : ∃ warnings,
    ((warn message).run b).2 = { b with view := { b.view with warnings := warnings } } := by
  show ∃ warnings, (if b.view.warnings.length < 16 ∧ message ∉ b.view.warnings then
    { b with view := { b.view with warnings := b.view.warnings ++ [message] } } else b) = _
  split
  · exact ⟨_, rfl⟩
  · exact ⟨b.view.warnings, rfl⟩

def limit : Build Unit := do
  modify fun b => { b with view := { b.view with truncated := true } }
  warn ("Sequence bounds reached (200 steps, 20 participants, depth 24); " ++
    "omitted behavior is unknown.")

def full : Build Bool := do
  let b ← get
  pure (maxSteps ≤ b.count)

variable (src : Source)

def step (n : Node) (kind label : String) : Build (Option SequenceStep) := do
  let b ← get
  if maxSteps ≤ b.count then
    limit
    pure none
  else
    set { b with count := b.count + 1 }
    pure (some
      { id := "step:" ++ toString n.startByte ++ ":" ++ toString (b.count + 1)
        kind := kind
        label := bounded label
        path := src.file.path
        range := n.range
        callId := none
        target := none
        resolution := none
        children := []
        alternate := []
        hidden := false })

def event (n : Node) (kind label : String) : Build Flow := do
  let s ← step src n kind label
  pure { Flow.empty with steps := s.toList }

def boundary (n : Node) (message : String) : Build Flow := do
  warn message
  event src n "boundary" message

/-! ### Going down -/

/-- The recursive calls of a form. -/
structure Below where
  walk : Node → Build Flow
  suffix : Option (List Node → Build Flow)

variable (below : Below)

def field (n : Node) (name : String) : Build Flow :=
  match n.childByFieldName name with
  | some c => below.walk c
  | none => pure Flow.empty

/-- What `block` does with the nodes behind one that may leave. -/
def guardSuffix (out : Flow) (next : Node) (rest : List Node) : Build Flow :=
  match below.suffix with
  | none => do
      limit
      pure out
  | some suffix => do
      match ← step src next "branch" "only if the preceding path continues normally" with
      | none => pure out
      | some guard =>
          let f ← suffix rest
          pure ⟨out.steps ++ [{ guard with children := f.steps }], f.continues,
            out.exits || f.exits⟩

/-- The loop of `block`, with what it has drawn so far. -/
def blockFrom (out : Flow) : List Node → Build Flow
  | [] => pure out
  | n :: rest => do
      if ← full then
        limit
        pure out
      else
        let f ← below.walk n
        let drawn : Flow := ⟨out.steps ++ f.steps, out.continues, out.exits || f.exits⟩
        if f.continues = false then
          if rest ≠ [] then
            warn "Statements after an unconditional exit are omitted as unreachable on this path."
          pure { drawn with continues := false }
        else
          match rest.head? with
          | none => pure drawn
          | some next =>
              if f.exits then guardSuffix src below drawn next rest else blockFrom drawn rest

def block (nodes : List Node) : Build Flow := blockFrom src below Flow.empty nodes

end Baleyg.Behavior
