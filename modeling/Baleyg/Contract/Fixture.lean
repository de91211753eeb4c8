/-
A fixture as it is loaded.

The descriptor of a fixture names its sources, what was captured and the producers of its
evidence.  Loading reads every file the descriptor names and goes on only while what it reads is
what the descriptor says, so that whoever has a loaded fixture need not look at files again: the
bytes of a capture have the hash they are listed with, and the documents of a snapshot are in the
order a manifest of it must have.

A manifest is hashed where it is asked for, and a list of documents out of order is refused there
once more.  `manifest_isOk` is why that never happens to a snapshot that was loaded.
-/
import Baleyg.Contract.Agree
import Baleyg.Contract.Formats

namespace Baleyg.Contract

open Fallible (ensure bind_eq_ok ensure_bind_eq_ok ensure_eq_ok)
open Native (Language DocumentKey Document Revision)

/-! ### Records -/

inductive ProducerKind where
  | native
  | semantic
  deriving DecidableEq, Repr

inductive PositionEncoding where
  | utf8
  | utf16
  | unicodeScalar
  deriving DecidableEq, Repr

inductive EvidenceKind where
  | measuredSyntax
  | declarationBinding
  | semanticReference
  | typeRelationship
  deriving DecidableEq, Repr

inductive Freshness where
  | fresh
  | possiblyStale
  | stale
  deriving DecidableEq, Repr

inductive CaptureKind where
  | executable
  | toolchain
  | config
  | dependency
  | semanticArtifact
  deriving DecidableEq, Repr

structure Producer where
  id : String
  version : String
  executableHash : String
  kind : ProducerKind
  languages : List Language
  positionEncoding : PositionEncoding
  deriving DecidableEq, Repr

structure SemanticBasis where
  producerId : String
  producerVersion : String
  producerHash : String
  artifactHash : String
  language : Language
  sourceSetId : String
  revisionId : String
  sourceManifestHash : String
  toolchainHash : String
  configHash : String
  dependencyHash : String
  lookupDependencies : List String
  deriving DecidableEq, Repr

/-- A provenance without its freshness, which is what a capture can prove. -/
structure Wrapper where
  id : String
  producerId : String
  document : DocumentKey
  revisionId : String
  contentHash : String
  evidenceKind : EvidenceKind
  basis : Option SemanticBasis
  deriving DecidableEq, Repr

structure Provenance extends Wrapper where
  freshness : Freshness
  deriving DecidableEq, Repr

/-! ### The descriptor -/

structure CapturedDocument where
  key : DocumentKey
  revisionId : String
  sourceFile : String
  deriving DecidableEq, Repr

structure CapturedRevision where
  id : String
  sourceSetId : String
  documents : List CapturedDocument
  toolchainHash : String
  configHash : String
  dependencyHash : String
  deriving DecidableEq, Repr

/-- `ComparisonContext`: the snapshot that is asked about. -/
structure Comparison where
  sourceSetId : String
  revisionId : String
  producers : List Producer
  deriving DecidableEq, Repr

structure CaptureFile where
  ref : String
  kind : CaptureKind
  file : String
  hash : String
  deriving DecidableEq, Repr

structure Fixture where
  language : Language
  producers : List Producer
  revisions : List CapturedRevision
  comparison : Comparison
  semanticArtifacts : List String
  captures : List CaptureFile
  deriving DecidableEq, Repr

/-- What is raised: with the assertion that failed and the field it is about, or without. -/
inductive Rejection where
  | invalid (assertion field message : String)
  | format (type : String)
  | plain (message : String)
  deriving DecidableEq, Repr

/-! ### The loaded fixture -/

structure Capture extends CaptureFile where
  bytes : List UInt8
  deriving DecidableEq, Repr

/-- A semantic artifact, of which only the producer is read here. -/
structure SemanticArtifact where
  bytes : List UInt8
  producerId : String
  deriving DecidableEq, Repr

/-- What `semanticProofs` has for a provenance. -/
structure SemanticProof where
  hash : String
  wrapper : Wrapper
  deriving DecidableEq, Repr

structure Loaded where
  fixture : Fixture
  selected : Revision
  revisions : List Revision
  /-- `captureBytes`, which has the bytes of every capture. -/
  captures : List Capture
  semanticBytes : List SemanticArtifact
  semanticProofs : List (String × SemanticProof)
  deriving DecidableEq, Repr

namespace Loaded

def comparison (loaded : Loaded) : Comparison := loaded.fixture.comparison

/-- `revisions.get`. -/
def revisionAt (loaded : Loaded) (sourceSetId revisionId : String) : Option Revision :=
  loaded.revisions.find? fun r => r.sourceSetId = sourceSetId ∧ r.id = revisionId

/-- `semanticProofs.get`. -/
def proofOf (loaded : Loaded) (id : String) : Option SemanticProof :=
  loaded.semanticProofs.lookup id

end Loaded

/-! ### Manifests -/

/-- `Buffer.from`, of a text. -/
def textBytes (s : String) : List UInt8 := Utf.utf8 s.toList

/-- `Buffer.compare(…) < 0`. -/
def textBefore (a b : String) : Bool := !Utf.upTo (textBytes b) (textBytes a)

/-- `documentOrder(…) < 0`. -/
def documentBefore (a b : DocumentKey) : Bool :=
  decide (a.language.order < b.language.order) ||
    (a.language.order == b.language.order && textBefore a.path b.path)

def KeyFormatted (key : DocumentKey) : Prop := key.sourceSetId ≠ "" ∧ IsPath (unitsOf key.path)

instance (key : DocumentKey) : Decidable (KeyFormatted key) := by
  unfold KeyFormatted
  infer_instance

def checkRows : List DocumentKey → Option DocumentKey → List DocumentKey → Except Rejection Unit
  | _, _, [] => pure ()
  | seen, previous, key :: keys => do
      ensure (key ∉ seen) (Rejection.plain "IDENTITY.MANIFEST duplicate document")
      ensure (∀ before ∈ previous, documentBefore before key = true)
        (Rejection.plain "IDENTITY.MANIFEST unsorted documents")
      checkRows (key :: seen) (some key) keys

def manifestRow (row : DocumentKey × String) : Native.Value := .object
  [("document", row.1.json), ("contentHash", .string row.2)]

def sourceManifestHash (sha : Hasher) (rows : List (DocumentKey × String)) :
    Except Rejection String := do
  ensure (∀ row ∈ rows, KeyFormatted row.1 ∧ Native.validHash row.2 = true)
    (Rejection.format "SourceManifestInput")
  checkRows [] none (rows.map Prod.fst)
  pure (sha.hex (Utf.utf8 (Native.Value.array (rows.map manifestRow)).canonical))

def manifestOf (sha : Hasher) (revision : Revision) : Except Rejection String :=
  sourceManifestHash sha (revision.documents.map fun d => (d.key, d.contentHash))

/-! ### Loading -/

/-- What the files of a fixture hold. -/
structure Disk where
  /-- `confinedFile`. -/
  read : String → Except Rejection (List UInt8)
  isUtf8 : List UInt8 → Bool
  /-- The producer of a `SemanticCapture`. -/
  producerOf : List UInt8 → Except Rejection String
  /-- What the annotations prove, given the rest. -/
  proofs : List Revision → List SemanticArtifact → Except Rejection (List (String × SemanticProof))

def Fixture.Formatted (fixture : Fixture) : Prop :=
  ∀ revision ∈ fixture.revisions, ∀ item ∈ revision.documents, KeyFormatted item.key

instance (fixture : Fixture) : Decidable fixture.Formatted := by
  unfold Fixture.Formatted
  infer_instance

def Fixture.matching (fixture : Fixture) (kind : CaptureKind) (hash : String) : Bool :=
  fixture.captures.any fun capture => capture.kind == kind && capture.hash == hash

def loadDocument (sha : Hasher) (disk : Disk) (fixture : Fixture) (revision : CapturedRevision)
    (item : CapturedDocument) : Except Rejection Document := do
  ensure (item.key.sourceSetId = revision.sourceSetId ∧ item.revisionId = revision.id ∧
      item.key.language = fixture.language ∧ item.key.path ≠ "")
    (Rejection.invalid "IDENTITY.DOCUMENT" "documents" "document tuple/source path mismatch")
  let bytes ← disk.read item.sourceFile
  ensure (disk.isUtf8 bytes)
    (Rejection.invalid "IDENTITY.UTF8" item.sourceFile "invalid UTF-8 source bytes")
  pure
    { key := item.key, revisionId := item.revisionId, contentHash := sha.hex bytes
      byteLength := bytes.length }

def loadRevision (sha : Hasher) (disk : Disk) (fixture : Fixture) (revision : CapturedRevision) :
    Except Rejection Revision := do
  ensure (revision.documents ≠ [])
    (Rejection.invalid "IDENTITY.REVISION" "documents" "empty snapshot")
  ensure (revision.documents.map CapturedDocument.key).Nodup
    (Rejection.invalid "IDENTITY.DUPLICATE" "documents" "duplicate")
  ensure (∀ pair ∈ revision.documents.zip (revision.documents.drop 1),
      documentBefore pair.1.key pair.2.key = true)
    (Rejection.invalid "IDENTITY.MANIFEST" "documents" "unsorted snapshot")
  let documents ← revision.documents.mapM (loadDocument sha disk fixture revision)
  pure
    { id := revision.id, sourceSetId := revision.sourceSetId, documents := documents
      toolchainHash := revision.toolchainHash, configHash := revision.configHash
      dependencyHash := revision.dependencyHash }

def loadCapture (sha : Hasher) (disk : Disk) (capture : CaptureFile) :
    Except Rejection Capture := do
  let bytes ← disk.read capture.file
  ensure (sha.hex bytes = capture.hash)
    (Rejection.invalid "IDENTITY.DIGEST" capture.file
      ("captured bytes differ: expected " ++ capture.hash ++ ", actual " ++ sha.hex bytes))
  pure { capture with bytes := bytes }

def loadArtifact (disk : Disk) (fixture : Fixture) (path : String) :
    Except Rejection SemanticArtifact := do
  ensure (fixture.captures.any fun capture =>
      capture.file == path && capture.kind == .semanticArtifact)
    (Rejection.invalid "IDENTITY.INVENTORY" path "semantic artifact lacks capture")
  let bytes ← disk.read path
  let producerId ← disk.producerOf bytes
  ensure (fixture.producers.any fun producer =>
      producer.id == producerId && producer.kind == .semantic)
    (Rejection.invalid "IDENTITY.PRODUCER" path "unknown semantic producer")
  pure ⟨bytes, producerId⟩

def checkProducer (producer : Producer) : Except Rejection Unit := do
  ensure (producer.languages ≠ [])
    (Rejection.invalid "IDENTITY.PRODUCER" "languages" "empty producer languages")
  ensure producer.languages.Nodup
    (Rejection.invalid "IDENTITY.DUPLICATE" "producers.languages" "duplicate")

def checkDescriptor (fixture : Fixture) : Except Rejection Unit := do
  ensure fixture.Formatted (Rejection.format "FixtureV1")
  ensure (fixture.producers.map Producer.id).Nodup
    (Rejection.invalid "IDENTITY.DUPLICATE" "producers" "duplicate")
  ensure (fixture.comparison.producers.map Producer.id).Nodup
    (Rejection.invalid "IDENTITY.DUPLICATE" "comparison.producers" "duplicate")
  ensure (fixture.revisions.map fun r => (r.sourceSetId, r.id)).Nodup
    (Rejection.invalid "IDENTITY.DUPLICATE" "revisions" "duplicate")
  ensure (fixture.captures.map CaptureFile.ref).Nodup
    (Rejection.invalid "IDENTITY.DUPLICATE" "captures.ref" "duplicate")
  ensure (fixture.captures.map CaptureFile.file).Nodup
    (Rejection.invalid "IDENTITY.DUPLICATE" "captures.file" "duplicate")
  (fixture.producers ++ fixture.comparison.producers).forM checkProducer
  ensure (∀ producer ∈ fixture.producers, fixture.language ∈ producer.languages)
    (Rejection.invalid "IDENTITY.PRODUCER" "languages" "fixture language unsupported")
  ensure fixture.semanticArtifacts.Nodup
    (Rejection.invalid "IDENTITY.DUPLICATE" "semanticArtifacts" "duplicate")

/-- The checks of what the producers and the snapshots rest on. -/
def checkCaptures (fixture : Fixture) (revisions : List Revision) : Except Rejection Unit := do
  fixture.producers.forM fun producer =>
    ensure (fixture.matching .executable producer.executableHash)
      (Rejection.invalid "IDENTITY.PRODUCER" producer.id "executable capture unavailable")
  revisions.forM fun revision => do
    ensure (fixture.matching .toolchain revision.toolchainHash)
      (Rejection.invalid "IDENTITY.DIGEST" "toolchainHash" "revision capture unavailable")
    ensure (fixture.matching .config revision.configHash)
      (Rejection.invalid "IDENTITY.DIGEST" "configHash" "revision capture unavailable")
    ensure (fixture.matching .dependency revision.dependencyHash)
      (Rejection.invalid "IDENTITY.DIGEST" "dependencyHash" "revision capture unavailable")

def selectRevision (fixture : Fixture) (revisions : List Revision) : Except Rejection Revision :=
  match revisions.find? fun r =>
      r.sourceSetId = fixture.comparison.sourceSetId ∧ r.id = fixture.comparison.revisionId with
  | some revision => pure revision
  | none => throw (Rejection.invalid "IDENTITY.COMPARISON" "comparison" "snapshot not admitted")

def loadFixture (sha : Hasher) (disk : Disk) (fixture : Fixture) : Except Rejection Loaded := do
  checkDescriptor fixture
  let revisions ← fixture.revisions.mapM (loadRevision sha disk fixture)
  let selected ← selectRevision fixture revisions
  let captures ← fixture.captures.mapM (loadCapture sha disk)
  checkCaptures fixture revisions
  let semanticBytes ← fixture.semanticArtifacts.mapM (loadArtifact disk fixture)
  ensure ((fixture.captures.filter fun capture => capture.kind = .semanticArtifact).length =
      semanticBytes.length)
    (Rejection.invalid "IDENTITY.INVENTORY" "semanticArtifacts" "unlisted semantic capture")
  let semanticProofs ← disk.proofs revisions semanticBytes
  pure
    { fixture := fixture, selected := selected, revisions := revisions, captures := captures
      semanticBytes := semanticBytes, semanticProofs := semanticProofs }

/-! ### What a loaded fixture is known to be -/

/-- A snapshot whose manifest can be hashed. -/
structure Revision.Admitted (revision : Revision) : Prop where
  nodup : (revision.documents.map Document.key).Nodup
  ordered : ∀ pair ∈ revision.documents.zip (revision.documents.drop 1),
    documentBefore pair.1.key pair.2.key = true
  formatted : ∀ document ∈ revision.documents,
    KeyFormatted document.key ∧ Native.validHash document.contentHash = true

/-- **What loading a fixture makes sure of.** -/
structure Loaded.Admitted (sha : Hasher) (loaded : Loaded) : Prop where
  revisions : ∀ revision ∈ loaded.revisions, Revision.Admitted revision
  selected : loaded.revisionAt loaded.comparison.sourceSetId loaded.comparison.revisionId =
    some loaded.selected
  captures : ∀ capture ∈ loaded.captures, sha.hex capture.bytes = capture.hash

section Load

variable {sha : Hasher} {disk : Disk} {fixture : Fixture}

theorem loadDocument_eq_ok {revision : CapturedRevision} {item : CapturedDocument}
    {document : Document} (h : loadDocument sha disk fixture revision item = .ok document) :
    document.key = item.key ∧ Native.validHash document.contentHash = true := by
  obtain ⟨-, h⟩ := ensure_bind_eq_ok.mp h
  obtain ⟨bytes, -, h⟩ := bind_eq_ok.mp h
  obtain ⟨-, h⟩ := ensure_bind_eq_ok.mp h
  cases h
  exact ⟨rfl, sha.hex_valid bytes⟩

theorem loadRevision_admitted {captured : CapturedRevision} {revision : Revision}
    (hformatted : ∀ item ∈ captured.documents, KeyFormatted item.key)
    (h : loadRevision sha disk fixture captured = .ok revision) : Revision.Admitted revision := by
  obtain ⟨-, h⟩ := ensure_bind_eq_ok.mp h
  obtain ⟨hnodup, h⟩ := ensure_bind_eq_ok.mp h
  obtain ⟨hordered, h⟩ := ensure_bind_eq_ok.mp h
  obtain ⟨documents, hdocuments, h⟩ := bind_eq_ok.mp h
  cases h
  have hall := Fallible.mapM_eq_ok.mp hdocuments
  have hkeys : documents.map Document.key = captured.documents.map CapturedDocument.key :=
    Fallible.map_eq_of_forall₂ hall fun _ _ h => (loadDocument_eq_ok h).1
  have hzip : ∀ {α : Type} (f : α → DocumentKey) (l : List α),
      (∀ pair ∈ l.zip (l.drop 1), documentBefore (f pair.1) (f pair.2) = true) ↔
        ∀ pair ∈ (l.map f).zip ((l.map f).drop 1), documentBefore pair.1 pair.2 = true := by
    intro α f l
    rw [← List.map_drop, List.zip_map, List.forall_mem_map]
    rfl
  refine ⟨?_, ?_, fun document hdocument => ?_⟩
  · show (documents.map Document.key).Nodup
    rw [hkeys]
    exact hnodup
  · refine (hzip Document.key documents).mpr ?_
    rw [hkeys]
    exact (hzip CapturedDocument.key captured.documents).mp hordered
  · obtain ⟨item, hitem, hload⟩ := Fallible.exists_of_forall₂_right hall hdocument
    obtain ⟨hkey, hhash⟩ := loadDocument_eq_ok hload
    exact ⟨hkey ▸ hformatted item hitem, hhash⟩

theorem selectRevision_eq_ok {revisions : List Revision} {revision : Revision}
    (h : selectRevision fixture revisions = .ok revision) :
    revisions.find? (fun r => r.sourceSetId = fixture.comparison.sourceSetId ∧
      r.id = fixture.comparison.revisionId) = some revision := by
  unfold selectRevision at h
  split at h
  · rename_i found hfound
    rw [hfound, Except.ok.inj h]
  · cases h

/-- **Loading admits.** -/
theorem loadFixture_admitted {loaded : Loaded} (h : loadFixture sha disk fixture = .ok loaded) :
    loaded.Admitted sha := by
  obtain ⟨_, hdescriptor, h⟩ := bind_eq_ok.mp h
  obtain ⟨revisions, hrevisions, h⟩ := bind_eq_ok.mp h
  obtain ⟨selected, hselected, h⟩ := bind_eq_ok.mp h
  obtain ⟨captures, hcaptures, h⟩ := bind_eq_ok.mp h
  obtain ⟨_, -, h⟩ := bind_eq_ok.mp h
  obtain ⟨semanticBytes, -, h⟩ := bind_eq_ok.mp h
  obtain ⟨-, h⟩ := ensure_bind_eq_ok.mp h
  obtain ⟨semanticProofs, -, h⟩ := bind_eq_ok.mp h
  cases h
  obtain ⟨hformatted, -⟩ := ensure_bind_eq_ok.mp hdescriptor
  refine ⟨fun revision hrevision => ?_, selectRevision_eq_ok hselected, fun capture hcapture => ?_⟩
  · obtain ⟨captured, hcaptured, hload⟩ := Fallible.mem_of_mapM_eq_ok hrevisions hrevision
    exact loadRevision_admitted (hformatted captured hcaptured) hload
  · obtain ⟨file, -, hload⟩ := Fallible.mem_of_mapM_eq_ok hcaptures hcapture
    obtain ⟨bytes, -, hload⟩ := bind_eq_ok.mp hload
    obtain ⟨hhash, hload⟩ := ensure_bind_eq_ok.mp hload
    cases hload
    exact hhash

end Load

/-! ### Manifests of admitted snapshots -/

theorem checkRows_isOk {seen keys : List DocumentKey} {previous : Option DocumentKey}
    (hnodup : keys.Nodup) (hseen : ∀ key ∈ keys, key ∉ seen)
    (hordered : ∀ pair ∈ (previous.toList ++ keys).zip ((previous.toList ++ keys).drop 1),
      documentBefore pair.1 pair.2 = true) : checkRows seen previous keys = .ok () := by
  induction keys generalizing seen previous with
  | nil => rfl
  | cons key keys ih =>
      rw [List.nodup_cons] at hnodup
      refine ensure_bind_eq_ok.mpr ⟨hseen key List.mem_cons_self, ensure_bind_eq_ok.mpr ⟨?_, ?_⟩⟩
      · intro before hbefore
        rw [Option.mem_def.mp hbefore] at hordered
        exact hordered (before, key) List.mem_cons_self
      · refine ih hnodup.2 (fun other hother => ?_) fun pair hpair => ?_
        · rw [List.mem_cons, not_or]
          exact ⟨fun heq => hnodup.1 (heq ▸ hother), hseen other (List.mem_cons_of_mem _ hother)⟩
        · refine hordered pair ?_
          cases previous with
          | none => exact hpair
          | some before => exact List.mem_cons_of_mem _ hpair

/-- **The manifest of an admitted snapshot has a hash.** -/
theorem manifest_isOk (sha : Hasher) {revision : Revision} (h : Revision.Admitted revision) :
    ∃ hash, manifestOf sha revision = .ok hash := by
  have hmap : (revision.documents.map fun d => (d.key, d.contentHash)).map Prod.fst =
      revision.documents.map Document.key := by
    rw [List.map_map]
    rfl
  refine ⟨_, ensure_bind_eq_ok.mpr ⟨fun row hrow => ?_, bind_eq_ok.mpr ⟨(), ?_, rfl⟩⟩⟩
  · obtain ⟨document, hdocument, rfl⟩ := List.mem_map.mp hrow
    exact h.formatted document hdocument
  · rw [hmap]
    refine checkRows_isOk h.nodup (fun _ _ => List.not_mem_nil) fun pair hpair => ?_
    rw [Option.toList_none, List.nil_append, ← List.map_drop, List.zip_map] at hpair
    obtain ⟨pair', hpair', rfl⟩ := List.mem_map.mp hpair
    exact h.ordered pair' hpair'

end Baleyg.Contract
