/-
The check of an artifact's structure.

It takes an artifact and the captured files and asks, from the header down, whether every
record refers to something that is there, lies where it says, has the identity its content
gives it and the number its place gives it.  It shares the identities with the extractor and
nothing else: the numbers are made anew from the ranges.
-/
import Baleyg.Native.Extract

namespace Baleyg.Native

open Fallible (ensure)

/-- A range lies in the text, between characters. -/
def span (text : String) (r : Range) (empty : Bool) : Except String Unit :=
  ensure (r.start ≤ r.stop ∧ r.stop ≤ byteLength text ∧ (empty = true ∨ r.start < r.stop) ∧
      isCharBoundary text r.start = true ∧ isCharBoundary text r.stop = true)
    "invalid native byte range"

/-- `"revision:v1:"` and a hash. -/
def validRevisionId (id : String) : Bool :=
  startsWith id "revision:v1:" && validHash (String.ofList (id.toList.drop 12))

theorem validRevisionId_append {hash : String} (h : validHash hash = true) :
    validRevisionId ("revision:v1:" ++ hash) = true := by
  have hlead : "revision:v1:".toList.length = 12 := by decide
  unfold validRevisionId startsWith
  rw [String.toList_append, Bool.and_eq_true, List.drop_left' hlead, String.ofList_toList, beq_iff_eq]
  exact ⟨List.take_left' hlead, h⟩

/-! ### The header -/

abbrev Documents := List (DocumentKey × SourceFile)

/-- What comes before: a language's place and a path. -/
def documentBefore (a b : Nat × String) : Prop := a.1 < b.1 ∨ a.1 = b.1 ∧ a.2 < b.2

instance (a b : Nat × String) : Decidable (documentBefore a b) :=
  inferInstanceAs (Decidable (_ ∨ _))

/-- Documents are sorted, and each is that of a file. -/
def validateDocuments (a : Artifact) (files : List SourceFile) :
    Option (Nat × String) → List Document → Except String Documents
  | _, [] => pure []
  | last, d :: rest => do
      safePath d.key.path
      let current := (d.key.language.order, d.key.path)
      ensure (∀ prev ∈ last, documentBefore prev current) "unsorted or duplicate native documents"
      match files.find? fun f => f.language = d.key.language ∧ f.path = d.key.path with
      | none => throw "native document not captured"
      | some file => do
          ensure (d.key.sourceSetId = a.sourceSet.id ∧ d.revisionId = a.revision.id ∧
              d.byteLength = byteLength file.text ∧ d.contentHash = file.hash ∧
              validHash d.contentHash = true) "native document bytes/hash mismatch"
          let docs ← validateDocuments a files (some current) rest
          pure ((d.key, file) :: docs)

def validateHeader (a : Artifact) (files : List SourceFile) : Except String Documents := do
  ensure (a.producer.id = producerId ∧ a.producer.kind = "native" ∧
      a.producer.version = nativeVersion ∧ a.producer.positionEncoding = "utf8" ∧
      validHash a.producer.executableHash = true) "invalid native producer"
  ensure (a.producer.languages = Language.all ∧ a.sourceSet.languages = a.producer.languages ∧
      a.sourceSet.dependencies = [] ∧ a.sourceSet.id = "source-set:v1:" ++ a.sourceSet.rootId)
    "invalid native source set"
  ensure (a.sourceSet.rootId ≠ "") "empty text"
  ensure (a.revision.sourceSetId = a.sourceSet.id ∧ validRevisionId a.revision.id = true ∧
      validHash a.revision.toolchainHash = true ∧ validHash a.revision.configHash = true ∧
      validHash a.revision.dependencyHash = true) "invalid native revision"
  ensure (a.revision.documents.length = files.length ∧ a.coverage.length = files.length ∧
      a.provenance.length = files.length) "native document tuple cardinality"
  ensure ((files.map fun f => (f.language, f.path)).Nodup) "duplicate captured native path"
  validateDocuments a files none a.revision.documents

/-! ### Coverage and provenance -/

def Coverage.key (c : Coverage) : DocumentKey := ⟨c.sourceSetId, c.language, c.documentPath⟩

def validateCoverage (a : Artifact) (docs : Documents) :
    List DocumentKey → List Coverage → Except String Unit
  | _, [] => pure ()
  | covers, c :: rest => do
      ensure ((docs.lookup c.key).isSome = true ∧ c.key ∉ covers ∧ c.producerId = producerId ∧
          c.revisionId = a.revision.id ∧ c.requested = true ∧ c.selected = true ∧
          c.supportedRoles = [.definition, .call] ∧
          (∀ role ∈ c.observedRoles, role ∈ c.supportedRoles) ∧
          c.observedRoles.IsChain fun r s =>
            c.supportedRoles.idxOf r < c.supportedRoles.idxOf s) "invalid native coverage"
      ensure (c.state = .complete ↔ c.diagnostic = none) "native diagnostic mismatch"
      ensure (c.diagnostic ≠ some "") "empty text"
      validateCoverage a docs (c.key :: covers) rest

def validateProvenance (sha : Sha256) (a : Artifact) (docs : Documents) :
    List String → List Provenance → Except String (List String)
  | proofs, [] => pure proofs
  | proofs, p :: rest =>
      match docs.lookup p.document with
      | none => throw "native proof dangling document"
      | some f => do
          ensure (p.id ∉ proofs ∧ p.producerId = producerId ∧ p.revisionId = a.revision.id ∧
              p.contentHash = f.hash ∧ p.evidenceKind = "measuredSyntax" ∧ p.basis = none ∧
              p.derivedFrom = none ∧ p.freshness = "fresh") "invalid native provenance"
          ensure (p.id = proofId sha p.document a.revision.id) "native proof digest mismatch"
          validateProvenance sha a docs (p.id :: proofs) rest

/-! ### Declarations -/

def Declaration.input (d : Declaration) (sourceSetId : String) : StableInput :=
  ⟨sourceSetId, d.document.path, d.document.language, d.ancestors, d.key⟩

def validateDeclaration (libs : Libraries) (a : Artifact) (proofs : List String)
    (file : SourceFile) (d : Declaration) : Except String Unit := do
  ensure (d.revisionId = a.revision.id ∧ d.provenanceId ∈ proofs ∧ d.kind = d.key.kind ∧
      d.name = d.key.name ∧ d.header.kind = d.kind ∧ d.header.name = d.name)
    "native declaration mismatch"
  ensure (d.name.isSome = d.lookupKey.isSome ∧ d.name.isSome = d.nameRange.isSome)
    "native name nullability"
  span file.text d.range (d.kind = .moduleItem && file.text = "")
  match d.nameRange with
  | some r => do
      span file.text r false
      ensure (r.within d.range ∧ d.name = get file.text r) "native name not source-measured"
  | none => pure ()
  match d.name with
  | some n => do
      let key ← lookup libs d.document.language n
      ensure (d.lookupKey = some key) "native lookup normalization mismatch"
  | none => pure ()
  ensure (d.document.language = .java ∧ d.kind.isMember = true ∨ d.key.signature = none)
    "unexpected native signature"
  ensure (d.kind = .moduleItem → d.name = none ∧ d.ancestors = []) "invalid native module"

/-- The loop over the declarations; the declarations there are by their ids. -/
def validateDeclarations (libs : Libraries) (a : Artifact) (docs : Documents)
    (proofs : List String) : IdentityRegistry → List (String × Declaration) →
    List Declaration → Except String (List (String × Declaration))
  | _, declared, [] => pure declared
  | identity, declared, d :: rest =>
      match docs.lookup d.document with
      | none => throw "native declaration dangling document"
      | some file => do
          validateDeclaration libs a proofs file d
          let (expected, identity) ← identity.stable libs.sha (d.input a.sourceSet.id)
          ensure (d.syntaxId = expected ∧ declared.lookup d.syntaxId = none)
            "native stable ID collision/duplicate"
          validateDeclarations libs a docs proofs identity ((d.syntaxId, d) :: declared) rest

/-! ### Ordinals -/

/-- In each group rows are numbered in the order of their ranges. -/
def validateGroup {α : Type} (ordinal : α → Nat) (range : α → Range)
    (mismatch duplicate : String) : Nat → Option Range → List α → Except String Unit
  | _, _, [] => pure ()
  | i, last, row :: rest => do
      ensure (ordinal row = i) mismatch
      ensure (last ≠ some (range row)) duplicate
      validateGroup ordinal range mismatch duplicate (i + 1) (some (range row)) rest

/-- Rows are grouped by key, and each group is looked at. -/
def validateOrdinals {α κ : Type} [DecidableEq κ] (key : α → κ) (before : κ → κ → Bool)
    (ordinal : α → Nat) (range : α → Range) (mismatch duplicate : String) (rows : List α) :
    Except String Unit :=
  (Groups.keys key before rows).forM fun k =>
    validateGroup ordinal range mismatch duplicate 0 none
      (Groups.group key (fun a b => (range a).le (range b)) rows k)

/-- What siblings have in common. -/
def siblingKey (d : Declaration) : List Char :=
  Value.canonical (.object
    [("document", d.document.json), ("ancestors", .array (d.ancestors.map Key.json)),
      ("kind", .string d.kind.text), ("name", .ofOption .string d.name),
      ("signature", .ofOption Signature.json d.key.signature)])

/-- The order of the keys calls and regions are grouped by. -/
def ownerBefore (a b : DocumentKey × String) : Bool :=
  [a.1.sourceSetId, a.1.language.text, a.1.path, a.2] ≤
    [b.1.sourceSetId, b.1.language.text, b.1.path, b.2]

def validateSiblings (rows : List Declaration) : Except String Unit :=
  validateOrdinals siblingKey (fun a b => a ≤ b) (fun d => d.key.ordinal) Declaration.range
    "native sibling ordinal mismatch" "duplicate sibling range" rows

def validateCallOrdinals (rows : List Call) : Except String Unit :=
  validateOrdinals (fun c => (c.document, c.ownerSyntaxId)) ownerBefore Call.ordinal Call.range
    "native call ordinal mismatch" "duplicate call range" rows

def validateControlOrdinals (rows : List ControlRegion) : Except String Unit :=
  validateOrdinals (fun r => (r.document, r.ownerSyntaxId)) ownerBefore ControlRegion.ordinal
    ControlRegion.range "native control ordinal mismatch" "duplicate control range" rows

/-! ### Occurrences -/

def occurrenceInputOf (a : Artifact) (file : SourceFile) (context owner : String)
    (kind : OccurrenceKind) (ordinal : Nat) : OccurrenceInput :=
  ⟨file.hash, context, a.producer.id, a.producer.version, owner, kind, ordinal⟩

def validateCallee (file : SourceFile) (c : Call) : Except String Unit := do
  span file.text c.range false
  match c.calleeRange with
  | some r => do
      span file.text r false
      ensure (r.within c.range ∧ c.spelling = get file.text r) "callee not measured in call"
  | none => pure ()
  ensure (c.spelling ≠ some "") "empty text"

def validateCalls (libs : Libraries) (a : Artifact) (docs : Documents) (proofs : List String)
    (declared : List (String × Declaration)) : IdentityRegistry → List String → List Call →
    Except String IdentityRegistry
  | occurrence, _, [] => pure occurrence
  | occurrence, calls, c :: rest =>
      match docs.lookup c.document with
      | none => throw "native call dangling document"
      | some file =>
          match declared.lookup c.ownerSyntaxId with
          | none => throw "native call dangling owner"
          | some owner => do
              ensure (owner.document = c.document ∧ c.revisionId = a.revision.id ∧
                  c.provenanceId ∈ proofs ∧ c.id ∉ calls) "native call ownership/duplicate"
              validateCallee file c
              let context ← nativeExtractionContext libs.sha a.producer c.document.language
              let (expected, occurrence) ← occurrence.occurrence libs.sha
                (occurrenceInputOf a file context c.ownerSyntaxId .call c.ordinal)
              ensure (c.id = expected) "native call occurrence mismatch"
              validateCalls libs a docs proofs declared occurrence (c.id :: calls) rest

/-- The loop over the control regions; the regions there are by their ids. -/
def validateControls (libs : Libraries) (a : Artifact) (docs : Documents) (proofs : List String)
    (declared : List (String × Declaration)) : IdentityRegistry →
    List (String × ControlRegion) → List ControlRegion →
    Except String (List (String × ControlRegion))
  | _, regions, [] => pure regions
  | occurrence, regions, r :: rest =>
      match docs.lookup r.document with
      | none => throw "native control dangling document"
      | some file =>
          match declared.lookup r.ownerSyntaxId with
          | none => throw "native control dangling owner"
          | some owner => do
              ensure (owner.document = r.document ∧ r.revisionId = a.revision.id ∧
                  r.provenanceId ∈ proofs) "native control ownership"
              span file.text r.range false
              let context ← nativeExtractionContext libs.sha a.producer r.document.language
              let (expected, occurrence) ← occurrence.occurrence libs.sha
                (occurrenceInputOf a file context r.ownerSyntaxId .control r.ordinal)
              ensure (r.id = expected ∧ regions.lookup r.id = none)
                "native control occurrence mismatch"
              validateControls libs a docs proofs declared occurrence ((r.id, r) :: regions) rest

/-- A region lies in its parent, which has the same owner. -/
def validateParent (regions : List (String × ControlRegion)) (r : ControlRegion) :
    Except String Unit :=
  match r.parentId with
  | none => pure ()
  | some parent =>
      match regions.lookup parent with
      | none => throw "native control dangling parent"
      | some parent =>
          ensure (parent.ownerSyntaxId = r.ownerSyntaxId ∧ parent.document = r.document ∧
              r.range.within parent.range ∧ parent.id ≠ r.id) "invalid native control parent"

def validateCallRegions (regions : List (String × ControlRegion)) (c : Call) :
    Except String Unit :=
  c.regionIds.forM fun id =>
    match regions.lookup id with
    | none => throw "native call dangling region"
    | some r =>
        ensure (r.ownerSyntaxId = c.ownerSyntaxId ∧ r.document = c.document ∧
            c.range.within r.range) "native call region mismatch"

def validateStructure (libs : Libraries) (a : Artifact) (files : List SourceFile) :
    Except String Unit := do
  let docs ← validateHeader a files
  validateCoverage a docs [] a.coverage
  let proofs ← validateProvenance libs.sha a docs [] a.provenance
  let declared ← validateDeclarations libs a docs proofs .empty [] a.declarations
  validateSiblings a.declarations
  validateCallOrdinals a.calls
  validateControlOrdinals a.controlRegions
  let occurrence ← validateCalls libs a docs proofs declared .empty [] a.calls
  let regions ← validateControls libs a docs proofs declared occurrence [] a.controlRegions
  a.controlRegions.forM (validateParent regions)
  a.calls.forM (validateCallRegions regions)

end Baleyg.Native
