/-
The graph of native facts.

Every row of the graph is read off one native fact: a symbol off a declaration, a call site off
a call, a region off a control region.  Whoever reads the rows later cross-witnesses them, which
is to make them once more and to compare.  A display label is the only thing a row has that its
fact has not.
-/
import Baleyg.Native.Agreement

namespace Baleyg.View

open Fallible (ensure)
open Native (SourceFile Declaration DeclarationKind Artifact isCharBoundary byteLength containsText)

/-! ### Records -/

/-- A range of bytes, and the lines and columns of its ends. -/
structure SourceRange where
  startByte : Nat
  endByte : Nat
  startLine : Nat
  startColumn : Nat
  endLine : Nat
  endColumn : Nat
  deriving DecidableEq

inductive SymbolKind where
  | moduleItem
  | function
  | method
  | classItem
  | field
  | variableItem
  | parameter
  | typeParameter
  | aliasItem
  deriving DecidableEq

inductive SemanticState where
  | fresh
  | stale
  | unavailable
  deriving DecidableEq

/-- Where a row comes from, and what semantic evidence says of it. -/
structure Provenance where
  source : String
  semantic : SemanticState
  deriving DecidableEq

/-- A declaration as it is shown. -/
structure Symbol where
  id : String
  name : String
  displayLabel : Option String
  kind : SymbolKind
  path : String
  range : SourceRange
  parent : Option String
  accessor : Bool
  provenance : Provenance
  deriving DecidableEq

/-- A call as it is shown, with the text of what it calls and no target. -/
structure CallSite where
  id : String
  caller : String
  calleeText : Option String
  path : String
  range : SourceRange
  calleeRange : Option SourceRange
  ordinal : Nat
  regions : List String
  provenance : Provenance
  deriving DecidableEq

structure ControlRegion where
  id : String
  kind : String
  label : String
  parent : Option String
  owner : String
  path : String
  range : SourceRange
  deriving DecidableEq

structure Diagnostic where
  path : Option String
  code : String
  message : String
  deriving DecidableEq

structure IndexStats where
  files : Nat
  symbols : Nat
  calls : Nat
  regions : Nat
  unresolved : Nat
  parseErrorFiles : Nat
  deriving DecidableEq

structure Graph where
  files : List SourceFile
  nodes : List Symbol
  calls : List CallSite
  regions : List ControlRegion
  diagnostics : List Diagnostic
  stats : IndexStats
  deriving DecidableEq

/-! ### Positions -/

/-- `LineIndex`: where the lines begin. -/
def lineStarts (text : String) : List Nat :=
  0 :: (text.toUTF8.toList.zipIdx.filter fun b => b.1 = 10).map fun b => b.2 + 1

/-- The line and the column of a byte, both counted from one. -/
def location (text : String) (byte : Nat) : Except String (Nat × Nat) := do
  ensure (byte ≤ byteLength text ∧ isCharBoundary text byte = true) "invalid measured graph range"
  let line := ((lineStarts text).takeWhile (· ≤ byte)).length
  pure (line, byte - (lineStarts text).getD (line - 1) 0 + 1)

/-- A range of a fact, both ends of which are boundaries of characters. -/
def measuredRange (file : SourceFile) (range : Native.Range) : Except String SourceRange := do
  let (startLine, startColumn) ← location file.text range.start
  let (endLine, endColumn) ← location file.text range.stop
  ensure (range.start ≤ range.stop) "inverted measured graph range"
  pure ⟨range.start, range.stop, startLine, startColumn, endLine, endColumn⟩

/-! ### Rows of facts

A row takes its identity, its place and its order from its fact.
-/

/-- As what a declaration is shown. -/
def graphKind : DeclarationKind → SymbolKind
  | .moduleItem | .namespaceItem => .moduleItem
  | .type | .implementation => .classItem
  | .method | .constructor => .method
  | .function | .anonymousFunction => .function
  | .field => .field
  | .variableItem => .variableItem
  | .parameter => .parameter
  | .typeParameter => .typeParameter
  | .aliasItem => .aliasItem

def graphProvenance : Provenance := ⟨"native-measuredSyntax", .unavailable⟩

def fileOf (files : List SourceFile) (path message : String) : Except String SourceFile :=
  match files.find? fun f => f.path = path with
  | some file => pure file
  | none => throw message

/-- The declaration right above it, if there is one. -/
def ownerOf (declarations : List Declaration) (d : Declaration) : Except String (Option String) :=
  match d.ancestors.getLast? with
  | none => pure none
  | some last =>
    match declarations.find? fun parent => parent.document.path = d.document.path ∧
        parent.ancestors = d.ancestors.dropLast ∧ parent.key = last with
    | some parent => pure (some parent.syntaxId)
    | none => throw "native declaration parent missing"

/-- What has no name is called by its kind and where it begins. -/
def symbolOf (files : List SourceFile) (declarations : List Declaration) (label : Option String)
    (d : Declaration) : Except String Symbol := do
  let file ← fileOf files d.document.path "native declaration source missing"
  let parent ← ownerOf declarations d
  let range ← measuredRange file d.range
  pure
    { id := d.syntaxId
      name := d.name.getD (if d.kind = .moduleItem then file.path
        else "<" ++ d.kind.text ++ "@" ++ toString d.range.start ++ ">")
      displayLabel := label
      kind := graphKind d.kind
      path := d.document.path
      range
      parent
      accessor := d.header.modifiers.any fun m => m = "get" || m = "set"
      provenance := graphProvenance }

/-- A region is labelled by how its text begins. -/
def regionOf (files : List SourceFile) (r : Native.ControlRegion) : Except String ControlRegion := do
  let file ← fileOf files r.document.path "native region source missing"
  match Native.get file.text r.range with
  | none => throw "native region text missing"
  | some text => do
      let range ← measuredRange file r.range
      pure ⟨r.id, r.kind, String.ofList (text.toList.take 140), r.parentId, r.ownerSyntaxId,
        r.document.path, range⟩

def callOf (files : List SourceFile) (c : Native.Call) : Except String CallSite := do
  let file ← fileOf files c.document.path "native call source missing"
  let range ← measuredRange file c.range
  let calleeRange ← c.calleeRange.mapM (measuredRange file)
  pure ⟨c.id, c.ownerSyntaxId, c.spelling, c.document.path, range, calleeRange, c.ordinal,
    c.regionIds, graphProvenance⟩

/-- Coverage that is not complete, and was recovered by the parser. -/
def recovered (c : Native.Coverage) : Bool :=
  c.diagnostic.any fun message => containsText message "parser recovered"

/-- What is not covered completely is said once for each document. -/
def diagnosticsOf (coverage : List Native.Coverage) : List Diagnostic :=
  (coverage.filter fun c => c.state ≠ .complete).map fun c =>
    ⟨some c.documentPath, if recovered c then "parse-error" else "native-coverage-partial",
      c.diagnostic.getD "Native extraction is incomplete"⟩

/-- No call is resolved here. -/
def statsOf (files : List SourceFile) (symbols calls regions : Nat)
    (coverage : List Native.Coverage) : IndexStats :=
  ⟨files.length, symbols, calls, regions, calls,
    ((coverage.filter fun c => c.state ≠ .complete).filter recovered).length⟩

/-! ### The cross-witness -/

/-- A label is short and has no control characters. -/
def validLabel (label : String) : Bool :=
  byteLength label ≤ 256 && label.toList.all fun c => 32 ≤ c.toNat && !(127 ≤ c.toNat && c.toNat ≤ 159)

/-- There are as many rows as facts, and each row is what its fact makes. -/
def witnessRows {α β : Type} [DecidableEq α] (cardinality missing differs : String)
    (idOf : α → String) (factId : β → String) (rowOf : α → β → Except String α)
    (rows : List α) (facts : List β) : Except String Unit := do
  ensure ((rows.map idOf).Nodup ∧ rows.length = facts.length) cardinality
  facts.forM fun fact =>
    match rows.find? fun row => idOf row = factId fact with
    | none => throw missing
    | some row => do
        let expected ← rowOf row fact
        ensure (row = expected) differs

def validateNativeGraphRecords (graph : Graph) (native : Artifact) : Except String Unit := do
  ensure ((native.declarations.map fun d => (d.document.path, d.ancestors, d.key)).Nodup)
    "native declaration key collision"
  witnessRows "native_evidence_required: graph declaration cardinality"
    "native_evidence_required: missing measured declaration"
    "native_evidence_required: graph declaration differs from measured native row"
    Symbol.id Declaration.syntaxId (fun symbol d => do
      ensure (∀ label ∈ symbol.displayLabel, validLabel label = true) "invalid display-only label"
      symbolOf graph.files native.declarations symbol.displayLabel d)
    graph.nodes native.declarations
  witnessRows "native_evidence_required: graph region cardinality"
    "native_evidence_required: missing measured region"
    "native_evidence_required: graph region differs from measured native row"
    ControlRegion.id Native.ControlRegion.id (fun _ => regionOf graph.files)
    graph.regions native.controlRegions
  witnessRows "native_evidence_required: graph call cardinality"
    "native_evidence_required: missing measured call"
    "native_evidence_required: graph call differs from measured native row"
    CallSite.id Native.Call.id (fun _ => callOf graph.files) graph.calls native.calls
  ensure (graph.stats = statsOf graph.files graph.nodes.length graph.calls.length
      graph.regions.length native.coverage ∧ graph.diagnostics = diagnosticsOf native.coverage)
    "native_evidence_required: graph diagnostics or statistics differ from native coverage"

end Baleyg.View
