/-
What a provenance says of its capture.

Before anybody asks whether evidence is fresh, it has to be what it claims to be: the document it
was captured of, the producer, the artifact and every hash of the basis are those of the fixture.
Two checkers ask this, one for a single label and one for the records of a fixture, and they ask
nearly the same.  Both take the keys a producer looked up for a list in order, in which no key may
be an identity.

The handles that rule names are `sid:v1:` and `occ:v1:`.  An occurrence has had a handle of the
second version since its domain moved, so the rule keeps out the identities of declarations and
lets those of occurrences in.
-/
import Baleyg.Contract.Fixture
import Baleyg.Contract.Identity

namespace Baleyg.Contract

open Fallible (ensure bind_eq_ok ensure_bind_eq_ok ensure_eq_ok)
open Native (Language DocumentKey Document Revision)

/-! ### Formats -/

def BasisFormatted (basis : SemanticBasis) : Prop :=
  (∀ text ∈ [basis.producerId, basis.producerVersion, basis.sourceSetId, basis.revisionId] ++
      basis.lookupDependencies, text ≠ "") ∧
    ∀ hash ∈ [basis.producerHash, basis.artifactHash, basis.sourceManifestHash,
      basis.toolchainHash, basis.configHash, basis.dependencyHash], Native.validHash hash = true

instance (basis : SemanticBasis) : Decidable (BasisFormatted basis) := by
  unfold BasisFormatted
  infer_instance

def Provenance.Formatted (p : Provenance) : Prop :=
  (∀ text ∈ [p.id, p.producerId, p.revisionId], text ≠ "") ∧ KeyFormatted p.document ∧
    Native.validHash p.contentHash = true ∧ ∀ basis ∈ p.basis, BasisFormatted basis

instance (p : Provenance) : Decidable p.Formatted := by
  unfold Provenance.Formatted
  infer_instance

/-! ### What the checkers share -/

/-- `documents.find`, of the snapshot a document was captured in. -/
def Loaded.documentAt (loaded : Loaded) (key : DocumentKey) (revisionId : String) :
    Option (Revision × Document) := do
  let revision ← loaded.revisionAt key.sourceSetId revisionId
  let document ← revision.documents.find? fun d => d.key = key
  pure (revision, document)

def Loaded.producerOf (loaded : Loaded) (id : String) : Option Producer :=
  loaded.fixture.producers.find? fun x => x.id = id

/-- `captureExists`, and `capture`. -/
def captureExists (sha : Hasher) (loaded : Loaded) (kind : CaptureKind) (hash : String) : Bool :=
  loaded.captures.any fun x => x.kind == kind && x.hash == hash && sha.hex x.bytes == hash

def capturedHashes (sha : Hasher) (loaded : Loaded) (kind : CaptureKind) : List String :=
  (loaded.captures.filter fun x => x.kind = kind).map fun x => sha.hex x.bytes

def oneOf (hashes : List String) (actual : String) : String :=
  "expected one of [" ++ ", ".intercalate hashes ++ "], actual " ++ actual

/-- What a capture must have under a field, beside what the basis has there. -/
def selfRelations (producer : Producer) (p : Provenance) (revision : Revision) (manifest : String)
    (basis : SemanticBasis) : List (String × String × String) :=
  [("producerId", producer.id, basis.producerId),
    ("producerVersion", producer.version, basis.producerVersion),
    ("producerHash", producer.executableHash, basis.producerHash),
    ("language", p.document.language.text, basis.language.text),
    ("sourceSetId", p.document.sourceSetId, basis.sourceSetId),
    ("revisionId", p.revisionId, basis.revisionId),
    ("sourceManifestHash", manifest, basis.sourceManifestHash),
    ("toolchainHash", revision.toolchainHash, basis.toolchainHash),
    ("configHash", revision.configHash, basis.configHash),
    ("dependencyHash", revision.dependencyHash, basis.dependencyHash)]

def capturedFields (basis : SemanticBasis) : List (String × CaptureKind × String) :=
  [("toolchainHash", .toolchain, basis.toolchainHash), ("configHash", .config, basis.configHash),
    ("dependencyHash", .dependency, basis.dependencyHash)]

/-- A semantic artifact of a producer has these bytes. -/
def artifactExists (sha : Hasher) (loaded : Loaded) (producer : Producer) (hash : String) : Bool :=
  loaded.semanticBytes.any fun x => x.producerId == producer.id && sha.hex x.bytes == hash

def artifactHashes (sha : Hasher) (loaded : Loaded) (producer : Producer) : List String :=
  (loaded.semanticBytes.filter fun x => x.producerId = producer.id).map fun x => sha.hex x.bytes

/-- `/^(?:sid|occ):v1:[a-f0-9]{32}$/`. -/
def isStableId (s : String) : Bool :=
  (s.toList.take 7 == "sid:v1:".toList || s.toList.take 7 == "occ:v1:".toList) &&
    (s.toList.drop 7).length == 32 && (s.toList.drop 7).all Native.isLowerHex

def keysOrdered (keys : List String) : Bool :=
  (keys.zip (keys.drop 1)).all fun pair => textBefore pair.1 pair.2

def found {α : Type} (x : Option α) (e : Rejection) : Except Rejection α :=
  match x with
  | some a => pure a
  | none => throw e

theorem found_eq_ok {α : Type} {x : Option α} {e : Rejection} {a : α} :
    found x e = .ok a ↔ x = some a := by
  cases x with
  | none => exact ⟨(nomatch ·), (nomatch ·)⟩
  | some b => exact ⟨fun h => by rw [Except.ok.inj h], fun h => by rw [Option.some.inj h]; rfl⟩

/-! ### The checker of a label -/

/-- The checks of `checkCapturedBasis` a semantic basis has to pass. -/
def checkSemanticBasis (sha : Hasher) (loaded : Loaded) (p : Provenance) (producer : Producer)
    (revision : Revision) (basis : SemanticBasis) : Except Rejection Unit := do
  let manifest ← manifestOf sha revision
  (selfRelations producer p revision manifest basis).forM fun row =>
    ensure (row.2.2 = row.2.1) (Rejection.invalid ("BASIS." ++ row.1.toUpper) row.1
      ("captured claim differs: expected " ++ row.2.1 ++ ", actual " ++ row.2.2))
  ensure (basis.language ∈ producer.languages)
    (Rejection.invalid "BASIS.LANGUAGE" "language" "producer does not support captured language")
  (capturedFields basis).forM fun row =>
    ensure (captureExists sha loaded row.2.1 row.2.2)
      (Rejection.invalid ("BASIS." ++ row.1.toUpper) row.1
        ("captured bytes unavailable: " ++ oneOf (capturedHashes sha loaded row.2.1) row.2.2))
  ensure (artifactExists sha loaded producer basis.artifactHash)
    (Rejection.invalid "BASIS.ARTIFACTHASH" "artifactHash" ("semantic artifact bytes differ: " ++
      oneOf (artifactHashes sha loaded producer) basis.artifactHash))
  ensure (∀ x ∈ basis.lookupDependencies, isStableId x = false)
    (Rejection.invalid "BASIS.LOOKUP_DEPENDENCIES" "lookupDependencies"
      "lookup keys cannot be stable IDs")
  ensure (keysOrdered basis.lookupDependencies)
    (Rejection.invalid "BASIS.LOOKUP_DEPENDENCIES" "lookupDependencies"
      "keys must be sorted and unique")
  ensure (∃ proof ∈ loaded.proofOf p.id, proof.hash = basis.artifactHash ∧
      proof.wrapper = p.toWrapper)
    (Rejection.invalid "BASIS.RAW_FACT" "provenance"
      "no matching captured semantic fact and original proof wrapper")

def checkCapturedBasis (sha : Hasher) (loaded : Loaded) (p : Provenance) :
    Except Rejection (Producer × Revision) := do
  ensure p.Formatted (Rejection.format "Provenance")
  let captured ← found (loaded.documentAt p.document p.revisionId)
    (Rejection.invalid "BASIS.DOCUMENT" "document" "captured document not admitted")
  ensure (captured.2.contentHash = p.contentHash)
    (Rejection.invalid "BASIS.CONTENT_HASH" "contentHash" ("captured content differs: expected " ++
      captured.2.contentHash ++ ", actual " ++ p.contentHash))
  let producer ← found (loaded.producerOf p.producerId)
    (Rejection.invalid "BASIS.PRODUCER" "producerId" "captured producer not admitted")
  ensure (captureExists sha loaded .executable producer.executableHash)
    (Rejection.invalid "BASIS.EXECUTABLE" "producerHash" ("missing or changed executable bytes: " ++
      oneOf (capturedHashes sha loaded .executable) producer.executableHash))
  match producer.kind with
  | .native => do
      ensure (p.evidenceKind = .measuredSyntax ∧ p.basis = none)
        (Rejection.invalid "BASIS.NATIVE_PAIRING" "basis"
          "native syntax requires null semantic basis")
      pure (producer, captured.1)
  | .semantic => do
      ensure (p.evidenceKind ≠ .measuredSyntax)
        (Rejection.invalid "BASIS.SEMANTIC_PAIRING" "basis" "semantic evidence requires basis")
      let basis ← found p.basis
        (Rejection.invalid "BASIS.SEMANTIC_PAIRING" "basis" "semantic evidence requires basis")
      checkSemanticBasis sha loaded p producer captured.1 basis
      pure (producer, captured.1)

/-! ### The checker of the records -/

def basisFail (field message : String) : Rejection := .invalid "FRESHNESS.BASIS" field message

/-- The checks of `capturedBasis` a semantic basis has to pass. -/
def semanticBasis (sha : Hasher) (loaded : Loaded) (p : Provenance) (row : Option SemanticProof)
    (producer : Producer) (revision : Revision) (basis : SemanticBasis) :
    Except Rejection Unit := do
  let manifest ← manifestOf sha revision
  (selfRelations producer p revision manifest basis).forM fun row =>
    ensure (row.2.2 = row.2.1) (basisFail ("basis." ++ row.1) "captured self-relation differs")
  (capturedFields basis).forM fun row =>
    ensure (captureExists sha loaded row.2.1 row.2.2) (basisFail ("basis." ++ row.1)
      ("captured bytes missing or changed: " ++
        oneOf (capturedHashes sha loaded row.2.1) row.2.2))
  ensure (captureExists sha loaded .semanticArtifact basis.artifactHash &&
      artifactExists sha loaded producer basis.artifactHash)
    (basisFail "basis.artifactHash" ("artifact capture missing or changed: " ++
      oneOf (artifactHashes sha loaded producer) basis.artifactHash))
  ensure ((∀ x ∈ basis.lookupDependencies, isStableId x = false) ∧
      keysOrdered basis.lookupDependencies = true)
    (basisFail "basis.lookupDependencies"
      "lookup keys must be ordered, unique, and not identity IDs")
  ensure (∃ proof ∈ row, proof.hash = basis.artifactHash ∧ proof.wrapper = p.toWrapper)
    (basisFail "provenance" "proof does not match captured fact and wrapper")

def capturedBasis (sha : Hasher) (loaded : Loaded) (p : Provenance) (row : Option SemanticProof) :
    Except Rejection Producer := do
  ensure p.Formatted (Rejection.format "Provenance")
  let captured ← found (loaded.documentAt p.document p.revisionId)
    (basisFail "contentHash" ("captured document bytes disagree: expected a captured document" ++
      ", actual " ++ p.contentHash))
  ensure (captured.2.contentHash = p.contentHash)
    (basisFail "contentHash" ("captured document bytes disagree: expected " ++
      captured.2.contentHash ++ ", actual " ++ p.contentHash))
  let producer ← found (loaded.producerOf p.producerId)
    (basisFail "producerId" "captured executable or producer missing")
  ensure (p.document.language ∈ producer.languages ∧
      captureExists sha loaded .executable producer.executableHash = true)
    (basisFail "producerId" ("captured executable or producer missing: " ++
      oneOf (capturedHashes sha loaded .executable) producer.executableHash))
  match producer.kind with
  | .native => do
      ensure (p.evidenceKind = .measuredSyntax ∧ p.basis = none)
        (basisFail "basis" "native proof requires null basis")
      pure producer
  | .semantic => do
      ensure (p.evidenceKind ≠ .measuredSyntax)
        (basisFail "basis" "semantic proof requires a basis")
      let basis ← found p.basis (basisFail "basis" "semantic proof requires a basis")
      semanticBasis sha loaded p row producer captured.1 basis
      pure producer

/-! ### What a basis that passed is known to be -/

/-- The keys a producer looked up; evidence without a basis has none. -/
def Provenance.lookupDependencies (p : Provenance) : List String :=
  (p.basis.map SemanticBasis.lookupDependencies).getD []

/-- One of the checkers takes a provenance. -/
def Accepted (sha : Hasher) (loaded : Loaded) (p : Provenance) : Prop :=
  (∃ captured, checkCapturedBasis sha loaded p = .ok captured) ∨
    ∃ producer, capturedBasis sha loaded p (loaded.proofOf p.id) = .ok producer

/-- **What both checkers make sure of.** -/
structure Captured (sha : Hasher) (loaded : Loaded) (p : Provenance) (producer : Producer)
    (revision : Revision) : Prop where
  documented : ∃ document, loaded.documentAt p.document p.revisionId = some (revision, document) ∧
    document.contentHash = p.contentHash
  produced : loaded.producerOf p.producerId = some producer
  native : producer.kind = .native → p.basis = none
  semantic : producer.kind = .semantic → ∃ basis manifest, p.basis = some basis ∧
    manifestOf sha revision = .ok manifest ∧
    (∀ row ∈ selfRelations producer p revision manifest basis, row.2.2 = row.2.1) ∧
    ∀ x ∈ basis.lookupDependencies, isStableId x = false

section Captured

variable {sha : Hasher} {loaded : Loaded} {p : Provenance} {producer : Producer}
  {revision : Revision} {basis : SemanticBasis}

theorem checkSemanticBasis_eq_ok {u : Unit}
    (h : checkSemanticBasis sha loaded p producer revision basis = .ok u) :
    ∃ manifest, manifestOf sha revision = .ok manifest ∧
      (∀ row ∈ selfRelations producer p revision manifest basis, row.2.2 = row.2.1) ∧
      ∀ x ∈ basis.lookupDependencies, isStableId x = false := by
  obtain ⟨manifest, hmanifest, h⟩ := bind_eq_ok.mp h
  obtain ⟨_, hrelations, h⟩ := bind_eq_ok.mp h
  obtain ⟨-, h⟩ := ensure_bind_eq_ok.mp h
  obtain ⟨_, -, h⟩ := bind_eq_ok.mp h
  obtain ⟨-, h⟩ := ensure_bind_eq_ok.mp h
  obtain ⟨hkeys, -⟩ := ensure_bind_eq_ok.mp h
  exact ⟨manifest, hmanifest,
    fun row hrow => ensure_eq_ok.mp (Fallible.forM_eq_ok.mp hrelations row hrow), hkeys⟩

theorem semanticBasis_eq_ok {row : Option SemanticProof} {u : Unit}
    (h : semanticBasis sha loaded p row producer revision basis = .ok u) :
    ∃ manifest, manifestOf sha revision = .ok manifest ∧
      (∀ row ∈ selfRelations producer p revision manifest basis, row.2.2 = row.2.1) ∧
      ∀ x ∈ basis.lookupDependencies, isStableId x = false := by
  obtain ⟨manifest, hmanifest, h⟩ := bind_eq_ok.mp h
  obtain ⟨_, hrelations, h⟩ := bind_eq_ok.mp h
  obtain ⟨_, -, h⟩ := bind_eq_ok.mp h
  obtain ⟨-, h⟩ := ensure_bind_eq_ok.mp h
  obtain ⟨⟨hkeys, -⟩, -⟩ := ensure_bind_eq_ok.mp h
  exact ⟨manifest, hmanifest,
    fun row hrow => ensure_eq_ok.mp (Fallible.forM_eq_ok.mp hrelations row hrow), hkeys⟩

theorem checkCapturedBasis_eq_ok
    (h : checkCapturedBasis sha loaded p = .ok (producer, revision)) :
    Captured sha loaded p producer revision := by
  obtain ⟨-, h⟩ := ensure_bind_eq_ok.mp h
  obtain ⟨⟨revision', document⟩, hdocument, h⟩ := bind_eq_ok.mp h
  obtain ⟨hhash, h⟩ := ensure_bind_eq_ok.mp h
  obtain ⟨producer', hproducer, h⟩ := bind_eq_ok.mp h
  obtain ⟨-, h⟩ := ensure_bind_eq_ok.mp h
  have hdocument := found_eq_ok.mp hdocument
  have hproducer := found_eq_ok.mp hproducer
  cases hkind : producer'.kind with
  | native =>
      rw [hkind] at h
      obtain ⟨⟨-, hbasis⟩, h⟩ := ensure_bind_eq_ok.mp h
      cases h
      refine ⟨⟨document, hdocument, hhash⟩, hproducer, fun _ => hbasis, fun hsemantic => ?_⟩
      rw [hkind] at hsemantic
      cases hsemantic
  | semantic =>
      rw [hkind] at h
      obtain ⟨-, h⟩ := ensure_bind_eq_ok.mp h
      obtain ⟨basis, hbasis, h⟩ := bind_eq_ok.mp h
      obtain ⟨_, hchecks, h⟩ := bind_eq_ok.mp h
      cases h
      obtain ⟨manifest, hmanifest, hrelations, hkeys⟩ := checkSemanticBasis_eq_ok hchecks
      refine ⟨⟨document, hdocument, hhash⟩, hproducer, fun hnative => ?_,
        fun _ => ⟨basis, manifest, found_eq_ok.mp hbasis, hmanifest, hrelations, hkeys⟩⟩
      rw [hkind] at hnative
      cases hnative

theorem capturedBasis_eq_ok {row : Option SemanticProof}
    (h : capturedBasis sha loaded p row = .ok producer) :
    ∃ revision, Captured sha loaded p producer revision := by
  obtain ⟨-, h⟩ := ensure_bind_eq_ok.mp h
  obtain ⟨⟨revision, document⟩, hdocument, h⟩ := bind_eq_ok.mp h
  obtain ⟨hhash, h⟩ := ensure_bind_eq_ok.mp h
  obtain ⟨producer', hproducer, h⟩ := bind_eq_ok.mp h
  obtain ⟨-, h⟩ := ensure_bind_eq_ok.mp h
  have hdocument := found_eq_ok.mp hdocument
  have hproducer := found_eq_ok.mp hproducer
  cases hkind : producer'.kind with
  | native =>
      rw [hkind] at h
      obtain ⟨⟨-, hbasis⟩, h⟩ := ensure_bind_eq_ok.mp h
      cases h
      refine ⟨revision, ⟨document, hdocument, hhash⟩, hproducer, fun _ => hbasis,
        fun hsemantic => ?_⟩
      rw [hkind] at hsemantic
      cases hsemantic
  | semantic =>
      rw [hkind] at h
      obtain ⟨-, h⟩ := ensure_bind_eq_ok.mp h
      obtain ⟨basis, hbasis, h⟩ := bind_eq_ok.mp h
      obtain ⟨_, hchecks, h⟩ := bind_eq_ok.mp h
      cases h
      obtain ⟨manifest, hmanifest, hrelations, hkeys⟩ := semanticBasis_eq_ok hchecks
      refine ⟨revision, ⟨document, hdocument, hhash⟩, hproducer, fun hnative => ?_,
        fun _ => ⟨basis, manifest, found_eq_ok.mp hbasis, hmanifest, hrelations, hkeys⟩⟩
      rw [hkind] at hnative
      cases hnative

theorem Accepted.keys (h : Accepted sha loaded p) :
    ∀ x ∈ p.lookupDependencies, isStableId x = false := by
  have hcaptured : ∃ producer revision, Captured sha loaded p producer revision := by
    rcases h with ⟨⟨producer, revision⟩, h⟩ | ⟨producer, h⟩
    · exact ⟨producer, revision, checkCapturedBasis_eq_ok h⟩
    · obtain ⟨revision, h⟩ := capturedBasis_eq_ok h
      exact ⟨producer, revision, h⟩
  obtain ⟨producer, revision, hcaptured⟩ := hcaptured
  unfold Provenance.lookupDependencies
  cases hkind : producer.kind with
  | native => rw [hcaptured.native hkind]; exact fun _ h => absurd h List.not_mem_nil
  | semantic =>
      obtain ⟨basis, -, hbasis, -, -, hkeys⟩ := hcaptured.semantic hkind
      rw [hbasis]
      exact hkeys

end Captured

end Baleyg.Contract
