/-
Extraction: one walk over a parse tree, and the numbering after it.

The walk goes down the named nodes and records what it passes: a declaration before what is
inside of it, a control region before the calls in it.  What is inside an executable
container belongs to that container and to no region around it.  Declarations are numbered
as they are met, among those of the same ancestors, kind, name and signature.  Calls and
regions are numbered only when the walk is over, owner by owner in the order of their
ranges; until then a region goes by a pending id made of its owner and its range.

The source appends to one artifact and remembers where a document's calls and regions
begin.  Here the state of a walk holds what this document adds, and `extractKnown` appends
it; nothing in between reads what other documents have added, except the registry.
-/
import Baleyg.Lib.Groups
import Baleyg.Native.Syntax

namespace Baleyg.Native

open Fallible (ensure)

/-- `PRODUCER`. -/
def producerId : String := "trellis.native.syntax"

def nativeVersion : String := "native-v4"

/-- `extraction_context`, of no component. -/
def extractionContext (sha : Sha256) (language : Language) : String :=
  sha.digest "trellis.extraction-context.v1\x00" (Value.canonical (.object
    [("language", .string language.text), ("components", .array [])]))

/-- `native_extraction_context`: every inventory there is declares no component. -/
def nativeExtractionContext (sha : Sha256) (producer : Producer) (language : Language) :
    Except String String := do
  ensure (producer.id = producerId ∧ producer.version = nativeVersion)
    "undeclared native extraction-input inventory"
  pure (extractionContext sha language)

/-- The id of a document's provenance in a revision. -/
def proofId (sha : Sha256) (key : DocumentKey) (revisionId : String) : String :=
  "native-proof:v1:" ++ sha.digest "trellis.native-proof.v1\x00" (Value.canonical (.object
    [("producerId", .string producerId), ("document", key.json),
      ("revisionId", .string revisionId)]))

/-- The kind a node is declared under, if it is. -/
def declares (f : SourceFile) (up : List String) (n : Node) : Option DeclarationKind :=
  (nativeKind f.language up n).filter fun k =>
    k = .implementation ∨ k = .anonymousFunction ∨ (name f n).isSome

/-! ### The state of a walk -/

structure Context where
  libs : Libraries
  producer : Producer
  sourceSetId : String
  revisionId : String
  file : SourceFile
  document : DocumentKey
  proofId : String
  extractionContext : String

/-- Where a walk is: the arguments of `walk`, and the kinds of the nodes around. -/
structure Place where
  owner : String
  ancestors : List Key
  regions : List String
  depth : Nat
  up : List String

abbrev OrdinalKey := List Key × DeclarationKind × Option String × Option Signature

structure ParserState where
  declarations : List Declaration
  calls : List Call
  controlRegions : List ControlRegion
  ids : IdentityRegistry
  seen : List (String × OccurrenceKind × Range)
  declarationOrdinals : OrdinalKey → Nat
  callOrdinals : String → Nat
  controlOrdinals : String → Nat
  sawDefinition : Bool
  sawCall : Bool
  visits : Nat
  opaqueRust : Bool

namespace Place

def inside (p : Place) (n : Node) : Place :=
  { p with depth := p.depth + 1, up := n.kind :: p.up }

def declared (p : Place) (k : DeclarationKind) (key : Key) (id : String) : Place :=
  { p with
    owner := if k.owns then id else p.owner
    regions := if k.owns then [] else p.regions
    ancestors := p.ancestors ++ [key] }

end Place

namespace Context

variable (c : Context)

def occurrenceInput (owner : String) (kind : OccurrenceKind) (ordinal : Nat) : OccurrenceInput :=
  ⟨c.file.hash, c.extractionContext, c.producer.id, c.producer.version, owner, kind, ordinal⟩

def stableInput (ancestors : List Key) (key : Key) : StableInput :=
  ⟨c.sourceSetId, c.file.path, c.file.language, ancestors, key⟩

def pendingId (owner : String) (range : Range) : String :=
  "pending:control:" ++ c.file.path ++ ":" ++ owner ++ ":" ++ toString range.start ++ ":" ++
    toString range.stop

def lookupKeyOf (n : Node) : Except String (Option String) :=
  match name c.file n with
  | some (value, _) => some <$> lookup c.libs c.file.language value
  | none => pure none

/-- The declaration `walk` records. -/
def declaration (n : Node) (p : Place) (key : Key) (id : String) (lookupKey : Option String) :
    Declaration :=
  { syntaxId := id
    document := c.document
    revisionId := c.revisionId
    kind := key.kind
    name := (name c.file n).map Prod.fst
    lookupKey := lookupKey
    ancestors := p.ancestors
    key := key
    range := n.range
    nameRange := (name c.file n).map Prod.snd
    header := header c.file n key
    provenanceId := c.proofId }

/-- `walk`, where the node declares something. -/
def declare (n : Node) (p : Place) (s : ParserState) : Except String (Place × ParserState) :=
  match declares c.file p.up n with
  | none => pure (p, s)
  | some k => do
      -- no table says that a node is a module, so every declaration is counted
      let key := keyOf c.file n k
      let ordinalKey : OrdinalKey := (p.ancestors, key.kind, key.name, key.signature)
      let ordinal := s.declarationOrdinals ordinalKey
      let key := { key with ordinal := ordinal }
      let (id, ids) ← s.ids.stable c.libs.sha (c.stableInput p.ancestors key)
      let lookupKey ← c.lookupKeyOf n
      pure (p.declared k key id,
        { s with
          ids := ids
          declarationOrdinals := Function.update s.declarationOrdinals ordinalKey (ordinal + 1)
          declarations := s.declarations ++ [c.declaration n p key id lookupKey]
          sawDefinition := true })

/-- `walk`, where the node is a control region. -/
def control (n : Node) (p : Place) (s : ParserState) : Except String (Place × ParserState) :=
  if isRegion n = true then do
    let ordinal := s.controlOrdinals p.owner
    ensure ((p.owner, .control, n.range) ∉ s.seen) "duplicate native control range"
    let id := c.pendingId p.owner n.range
    pure ({ p with regions := p.regions ++ [id] },
      { s with
        controlOrdinals := Function.update s.controlOrdinals p.owner (ordinal + 1)
        seen := (p.owner, .control, n.range) :: s.seen
        controlRegions := s.controlRegions ++
          [⟨id, p.owner, ordinal, c.document, c.revisionId, n.kind, n.range, p.regions.getLast?,
            none, c.proofId⟩] })
  else pure (p, s)

/-- `walk`, where the node is a call. -/
def call (n : Node) (p : Place) (s : ParserState) : Except String ParserState :=
  if isCall c.file.language n = true then do
    let ordinal := s.callOrdinals p.owner
    ensure ((p.owner, .call, n.range) ∉ s.seen) "duplicate native call range"
    let (spelling, calleeRange) := callee c.file n
    pure
      { s with
        callOrdinals := Function.update s.callOrdinals p.owner (ordinal + 1)
        sawCall := true
        seen := (p.owner, .call, n.range) :: s.seen
        calls := s.calls ++
          [⟨"", p.owner, ordinal, c.document, c.revisionId, n.range, calleeRange, spelling,
            p.regions, c.proofId⟩] }
  else pure s

mutual

def walk : Node → Place → ParserState → Except String ParserState
  | n@⟨_, _, _, _, children⟩, p, s => do
      ensure (p.depth < 128 ∧ s.visits < 1000000) "native extraction work budget exceeded"
      let s := { s with visits := s.visits + 1 }
      if isOpaque c.file.language n = true then pure { s with opaqueRust := true }
      else do
        let (p, s) ← c.declare n p s
        let (p, s) ← c.control n p s
        let s ← c.call n p s
        walkAll children (p.inside n) s

/-- The loop of `walk`, over the named ones of these nodes. -/
def walkAll : List Node → Place → ParserState → Except String ParserState
  | [], _, s => pure s
  | n :: rest, p, s =>
      if n.named = true then do
        let s ← walk n p s
        walkAll rest p s
      else walkAll rest p s

end

/-! ### The numbering after the walk -/

end Context

/-- Rows with their indexes and their ordinals, as `by_owner` has them: owner by owner, each
in the order of the ranges. -/
def byOwner {α : Type} (owner : α → String) (range : α → Range) (rows : List α) :
    List ((α × Nat) × Nat) :=
  (Groups.keys owner (fun a b => a ≤ b) rows).flatMap fun o =>
    (Groups.group (fun row : α × Nat => owner row.1)
      (fun a b => (range a.1).le (range b.1)) rows.zipIdx o).zipIdx

namespace Context

variable (c : Context)

/-- The loop that gives every row its ordinal and its occurrence id. -/
def numberRows {α : Type} (kind : OccurrenceKind) (owner : α → String)
    (set : α → Nat → String → Except String α) : List ((α × Nat) × Nat) → IdentityRegistry →
    Except String (List ((α × Nat) × α) × IdentityRegistry)
  | [], ids => pure ([], ids)
  | (row, ordinal) :: rest, ids => do
      let (id, ids) ← ids.occurrence c.libs.sha (c.occurrenceInput (owner row.1) kind ordinal)
      let numbered ← set row.1 ordinal id
      let (rest, ids) ← numberRows kind owner set rest ids
      pure ((row, numbered) :: rest, ids)

end Context

def writeBack {α : Type} (rows : List α) (numbered : List ((α × Nat) × α)) : List α :=
  rows.zipIdx.map fun row =>
    ((numbered.map fun entry => (entry.1.2, entry.2)).lookup row.2).getD row.1

/-- The ids that took the place of the pending ones, the last one first. -/
def replacements (numbered : List ((ControlRegion × Nat) × ControlRegion)) :
    List (String × String) :=
  (numbered.map fun entry => (entry.1.1.id, entry.2.id)).reverse

def replace (replaced : List (String × String)) (missing id : String) : Except String String :=
  match replaced.lookup id with
  | some id => pure id
  | none => throw missing

namespace Context

variable (c : Context)

def finishOccurrences (s : ParserState) : Except String ParserState := do
  ensure (∀ region ∈ s.controlRegions, region.document = c.document)
    "foreign native control in current document"
  let (numbered, ids) ← c.numberRows .control ControlRegion.ownerSyntaxId
    (fun region ordinal id => pure { region with id := id, ordinal := ordinal })
    (byOwner ControlRegion.ownerSyntaxId ControlRegion.range s.controlRegions) s.ids
  let regions := writeBack s.controlRegions numbered
  let replaced := replacements numbered
  let regions ← regions.mapM fun region =>
    match region.parentId with
    | some parent => do
        let parent ← replace replaced "native region parent not measured" parent
        pure { region with parentId := some parent }
    | none => pure region
  ensure (∀ call ∈ s.calls, call.document = c.document)
    "foreign native call in current document"
  let (numbered, ids) ← c.numberRows .call Call.ownerSyntaxId
    (fun call ordinal id => do
      let regionIds ← call.regionIds.mapM (replace replaced "native call region not measured")
      pure { call with id := id, ordinal := ordinal, regionIds := regionIds })
    (byOwner Call.ownerSyntaxId Call.range s.calls) ids
  pure { s with controlRegions := regions, calls := writeBack s.calls numbered, ids := ids }

end Context

/-! ### One document -/

structure DocumentFacts where
  coverage : Coverage
  provenance : Provenance
  declarations : List Declaration
  calls : List Call
  controlRegions : List ControlRegion
  deriving DecidableEq, Repr

def moduleKey : Key := ⟨.moduleItem, none, none, 0⟩

def diagnostic (hasError opaqueRust : Bool) : Option String :=
  match hasError, opaqueRust with
  | true, true => some
      "parser recovered from invalid source; opaque Rust macro/attribute token trees skipped"
  | true, false => some "parser recovered from invalid source"
  | false, true => some
      "opaque Rust macro/attribute token trees skipped; calls and definitions inside were not measured"
  | false, false => none

section Extract

variable (libs : Libraries) (producer : Producer) (sourceSet : SourceSet) (revision : Revision)

/-- What `extract_known` measures of a document. -/
def measureDocument (f : SourceFile) (document : Document) (ids : IdentityRegistry) :
    Except String (DocumentFacts × IdentityRegistry) := do
  safePath f.path
  ensure (f.hash = libs.sha.hash f.text) "native captured source hash mismatch"
  ensure (document.key.sourceSetId = sourceSet.id ∧ document.key.language = f.language ∧
      document.key.path = f.path ∧ document.contentHash = f.hash ∧
      document.byteLength = byteLength f.text)
    "native document not in captured revision"
  let context ← nativeExtractionContext libs.sha producer f.language
  match libs.parse f.language f.text with
  | none => throw "native parser failed"
  | some tree => do
      let key : DocumentKey := ⟨sourceSet.id, f.language, f.path⟩
      let proof := proofId libs.sha key revision.id
      let c : Context := ⟨libs, producer, sourceSet.id, revision.id, f, key, proof, context⟩
      let (moduleId, ids) ← ids.stable libs.sha (c.stableInput [] moduleKey)
      let module : Declaration :=
        ⟨moduleId, key, revision.id, .moduleItem, none, none, [], moduleKey, tree.root.range, none,
          ⟨.moduleItem, none, [], [], [], none, []⟩, proof⟩
      let s ← c.walk tree.root ⟨moduleId, [], [], 0, []⟩
        ⟨[module], [], [], ids, [], fun _ => 0, fun _ => 0, fun _ => 0, false, false, 0, false⟩
      let s ← c.finishOccurrences s
      pure (
        { coverage :=
            { producerId := producerId
              language := f.language
              sourceSetId := sourceSet.id
              documentPath := f.path
              revisionId := revision.id
              requested := true
              selected := true
              state := if tree.hasError || s.opaqueRust then .partly else .complete
              supportedRoles := [.definition, .call]
              observedRoles := (if s.sawDefinition then [.definition] else []) ++
                if s.sawCall then [.call] else []
              diagnostic := diagnostic tree.hasError s.opaqueRust }
          provenance := ⟨proof, producerId, key, revision.id, f.hash, "measuredSyntax", none,
            "fresh", none⟩
          declarations := s.declarations
          calls := s.calls
          controlRegions := s.controlRegions }, s.ids)

end Extract

namespace Artifact

def add (a : Artifact) (facts : DocumentFacts) : Artifact :=
  { a with
    coverage := a.coverage ++ [facts.coverage]
    provenance := a.provenance ++ [facts.provenance]
    declarations := a.declarations ++ facts.declarations
    calls := a.calls ++ facts.calls
    controlRegions := a.controlRegions ++ facts.controlRegions }

end Artifact

def extractKnown (libs : Libraries) (a : Artifact) (f : SourceFile) (document : Document)
    (ids : IdentityRegistry) : Except String (Artifact × IdentityRegistry) := do
  let (facts, ids) ← measureDocument libs a.producer a.sourceSet a.revision f document ids
  pure (a.add facts, ids)

def extract (libs : Libraries) (a : Artifact) (f : SourceFile) (ids : IdentityRegistry) :
    Except String (Artifact × IdentityRegistry) :=
  match a.revision.documents.find? fun document =>
    document.key.path = f.path ∧ document.key.language = f.language with
  | some document => extractKnown libs a f document ids
  | none => throw "native document not in captured revision"

/-- The loop of `build_native_observed`: the files of the header, each with its document. -/
def extractAll (libs : Libraries) : List (SourceFile × Document) → Artifact × IdentityRegistry →
    Except String (Artifact × IdentityRegistry)
  | [], built => pure built
  | (f, document) :: rest, (a, ids) => do
      let built ← extractKnown libs a f document ids
      extractAll libs rest built

end Baleyg.Native
