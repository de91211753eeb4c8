/-
Publications.

A publication is prepared outside the writer's lock and committed under it.  The
preparation measures a capture, decides which families of the head's evidence can
be reused, and remembers the database's `data_version`; the transaction refuses to
go on unless both that version and the expected pin are still the current ones.
Then it either appends the next revision of the generation or, when the index is
being rebuilt, empties every table and starts a generation at revision one.

There are three routes.  The full route measures every document.  The local route
links all documents but the changed one to the head's evidence by id.  The unchanged
route copies the head's rows under the next pin.
-/
import Baleyg.Store.Control

namespace Baleyg.Store

open Fallible

/-! ### Captures and bundles -/

/-- A captured source file, with the stat it was read under. -/
structure CapturedSource where
  path : String
  language : String
  hash : String
  text : String
  stat : String
  deriving DecidableEq, Repr

structure Capture where
  files : List CapturedSource
  persistedInputs : List (String × String)
  reconcileOptions : ReconcileOptions
  deriving DecidableEq, Repr

/-- One document of a bundle: its file and the facts measured of it. -/
structure BundleDocument where
  file : CapturedSource
  extractionContext : String
  coverage : Coverage
  declarations : List Declaration
  calls : List Call
  regions : List NativeRegion
  nodes : List Symbol
  graphCalls : List CallSite
  graphRegions : List ControlRegion
  extraction : Option String
  classes : List ClassDefinition
  relations : List ClassRelation
  deriving DecidableEq, Repr

/-- The graph, native artifact, class catalog and capture of a publication, with
their facts grouped by document as `publication_rows` groups them. -/
structure Bundle where
  capture : Capture
  sourceSet : String
  producer : String
  producerVersion : String
  toolchainHash : String
  configHash : String
  dependencyHash : String
  nativeRevision : String
  inventory : List String
  dependencyObservations : List String
  stats : IndexStats
  diagnostics : List Diagnostic
  classWarnings : List String
  classTruncated : Bool
  documents : List BundleDocument
  deriving DecidableEq, Repr

/-- `V8DocumentProjection`. -/
structure DocumentProjection where
  versionId : String
  graphId : String
  classId : String
  graphHash : String
  classHash : String
  deriving DecidableEq, Repr

structure Tree where
  parent : Parent
  facts : Facts
  deriving DecidableEq, Repr

namespace Tree

def kind (t : Tree) : Kind := t.parent.key.kind

def rows (t : Tree) : List ChildRow := t.parent.rows t.facts

end Tree

section Trees

variable (digest : Preimage → String) (b : Bundle) (d : BundleDocument)

def BundleDocument.identity : DocumentIdentity :=
  ⟨b.sourceSet, d.file.language, d.file.path, d.file.hash, d.extractionContext, b.producer,
    b.producerVersion⟩

/-- `v8_document_projection`. -/
def documentProjection : DocumentProjection :=
  let versionId := "document:v1:" ++ digest (.documentVersion (d.identity b))
  let graphHash := digest (.graphProjection versionId d.nodes d.graphCalls d.graphRegions)
  let graphId := "graph:v1:" ++ graphHash
  let classHash := digest (.classProjection graphId d.classes d.relations)
  ⟨versionId, graphId, "class-projection:v1:" ++ classHash, graphHash, classHash⟩

/-- `publication_native_witness`. -/
def nativeWitness : String :=
  digest (.nativeWitness (d.identity b) d.file.text.utf8ByteSize d.coverage d.declarations d.calls
    d.regions)

def versionTree (ids : DocumentProjection) : Tree where
  parent := .version
    { id := ids.versionId
      sourceSet := b.sourceSet
      language := d.file.language
      path := d.file.path
      contentHash := d.file.hash
      extractionContext := d.extractionContext
      producer := b.producer
      producerVersion := b.producerVersion
      byteLength := d.file.text.utf8ByteSize
      sourceBytes := d.file.text
      nativeWitness := nativeWitness digest b d }
  facts := .native d.coverage d.declarations d.calls d.regions

def graphTree (ids : DocumentProjection) : Tree where
  parent := .graph
    { id := ids.graphId
      documentVersion := ids.versionId
      language := d.file.language
      graphHash := ids.graphHash
      state := "ready"
      classExtractionState :=
        if d.file.language = "java" ∨ d.file.language = "python" then "ready" else "notApplicable"
      classExtractionPayload := d.extraction }
  facts := .graph d.nodes d.graphCalls d.graphRegions

def classTree (ids : DocumentProjection) : Tree where
  parent := .classes
    { id := ids.classId
      graphProjection := ids.graphId
      contentHash := ids.classHash
      state := "ready" }
  facts := .classes d.classes d.relations

def trees (ids : DocumentProjection) : List Tree :=
  [versionTree digest b d ids, graphTree d ids, classTree d ids]

end Trees

/-! ### Reuse -/

/-- The families of a document that the head already holds under the same id. -/
structure ReusedFamilies where
  native : Bool
  graph : Bool
  classes : Bool
  deriving DecidableEq, Repr

namespace ReusedFamilies

def none : ReusedFamilies := ⟨false, false, false⟩

def all : ReusedFamilies := ⟨true, true, true⟩

def covers (f : ReusedFamilies) : Kind → Bool
  | .version => f.native
  | .graph => f.graph
  | .classes => f.classes

end ReusedFamilies

structure PreflightReuse where
  pin : Option IndexPin
  families : List (String × ReusedFamilies)
  existingIds : List (String × DocumentProjection)
  deriving DecidableEq, Repr

namespace PreflightReuse

def default : PreflightReuse := ⟨none, [], []⟩

def forPath (reuse : PreflightReuse) (path : String) : ReusedFamilies :=
  (reuse.families.lookup path).getD .none

end PreflightReuse

/-- `RecoveryDisposition`. -/
inductive Disposition where
  | ready
  | rebuild
  | recreatePending
  | rootReplaced
  deriving DecidableEq, Repr

/-- What `prepare_local_revision` read of the head it prepared against. -/
structure LocalPrepared where
  changedPath : String
  priorPin : IndexPin
  priorIds : List (String × DocumentProjection)
  deriving DecidableEq, Repr

/-- Which families of a document's prior manifest row carry the ids just computed. -/
def sharedFamilies (prior : ManifestRow) (ids : DocumentProjection) : ReusedFamilies where
  native := prior.documentVersion = ids.versionId
  graph := prior.graphProjection = ids.graphId
  classes := prior.classProjection = some ids.classId

/-- `preflight_reuse` for one document; the rows behind a reused family have been
read back and checked against their witness before the flag is set. -/
def documentReuse (digest : Preimage → String) (b : Bundle) (d : BundleDocument)
    (prior : ManifestRow) : Except Failure (String × ReusedFamilies) := do
  let shared := sharedFamilies prior (documentProjection digest b d)
  ensure (shared.graph → shared.native)
    (Failure.message "incompatible_index: graph reused with different native version")
  ensure (shared.classes → shared.graph)
    (Failure.message "incompatible_index: class reused with different graph projection")
  pure (d.file.path, shared)

/-- `preflight_reuse`: nothing is reused unless the index is ready and the head is
the expected pin of a real revision. -/
def preflightReuse (digest : Preimage → String) (b : Bundle) (expected : IndexPin)
    (disposition : Disposition) (db : Database) : Except Failure PreflightReuse := do
  if disposition ≠ .ready ∨ expected ≠ db.current ∨ expected.indexRevision = 0 then
    pure .default
  else
    let families ← b.documents.filterMapM fun d =>
      match (db.manifestOf db.current).find? fun m => m.path = d.file.path with
      | none => pure none
      | some prior => some <$> documentReuse digest b d prior
    pure ⟨some db.current, families, []⟩

/-- One row of `preflight_local_reuse`: the manifest still has the ids the plan was
made for, and an unchanged document still has the captured bytes. -/
def localLink (b : Bundle) (prepared : LocalPrepared) (db : Database) (m : ManifestRow) :
    Except Failure (String × DocumentProjection) := do
  match prepared.priorIds.lookup m.path, b.documents.find? fun d => d.file.path = m.path,
      db.documentVersions.find? fun v => v.id = m.documentVersion with
  | some ids, some d, some v =>
      ensure (ids.versionId = m.documentVersion ∧ ids.graphId = m.graphProjection
          ∧ m.classProjection = some ids.classId)
        (Failure.message "incompatible_index: local selected manifest changed")
      ensure (d.file.language = m.language ∧ v.producer = b.producer
          ∧ v.producerVersion = b.producerVersion ∧ v.extractionContext = d.extractionContext)
        (Failure.message "incompatible_index: local producer or extraction context changed")
      ensure (m.path ≠ prepared.changedPath → v.contentHash = d.file.hash)
        (Failure.message "incompatible_index: reusable captured content hash differs")
      pure (m.path, ids)
  | _, _, _ => throw (Failure.message "local source missing")

def preflightLocalReuse (b : Bundle) (prepared : LocalPrepared) (db : Database) :
    Except Failure PreflightReuse := do
  ensure (db.current = prepared.priorPin)
    (Failure.message "revision conflict: selected local head changed")
  ensure (b.documents.length = prepared.priorIds.length)
    (Failure.message "incompatible_index: local manifest inventory changed")
  let links ← (db.manifestOf db.current).mapM (localLink b prepared db)
  let existing := links.filter fun link => link.1 ≠ prepared.changedPath
  ensure (links.length = b.documents.length ∧ existing.length + 1 = links.length)
    (Failure.message "incompatible_index: local selected head incomplete")
  pure ⟨some db.current, existing.map fun link => (link.1, .all), existing⟩

/-! ### The rows of a publication -/

/-- A document as a publication writes it: under which ids, and with which families
left to the head. -/
structure Selection where
  document : BundleDocument
  ordinal : Nat
  ids : DocumentProjection
  reused : ReusedFamilies
  deriving DecidableEq, Repr

section Writes

variable (digest : Preimage → String) (b : Bundle) (reuse : PreflightReuse)

def select (ordinal : Nat) (d : BundleDocument) : Selection where
  document := d
  ordinal := ordinal
  ids := (reuse.existingIds.lookup d.file.path).getD (documentProjection digest b d)
  reused := reuse.forPath d.file.path

def selections : List Selection := b.documents.mapIdx (select digest b reuse)

def Selection.written (s : Selection) : List Tree :=
  (trees digest b s.document s.ids).filter fun t => !s.reused.covers t.kind

variable (pin : IndexPin)

def Selection.manifestRow (s : Selection) : ManifestRow where
  revision := pin
  sourceSet := b.sourceSet
  language := s.document.file.language
  path := s.document.file.path
  documentVersion := s.ids.versionId
  graphProjection := s.ids.graphId
  classProjection := some s.ids.classId
  captureStat := s.document.file.stat
  coverageRequested := s.document.coverage.requested
  coverageSelected := s.document.coverage.selected
  coverageState := s.document.coverage.state
  coverageDiagnostic := s.document.coverage.diagnostic
  ordinal := s.ordinal

def Bundle.header (incarnation : Incarnation) : RevisionHeader where
  pin := pin
  sourceSet := b.sourceSet
  toolchainHash := b.toolchainHash
  configHash := b.configHash
  dependencyHash := b.dependencyHash
  nativeRevision := b.nativeRevision
  sourceInventory := b.inventory
  dependencyObservations := b.dependencyObservations
  reconciledIncarnation := incarnation
  reconcileOptions := b.capture.reconcileOptions
  classWarnings := b.classWarnings
  classTruncated := b.classTruncated
  graphStats := b.stats
  graphDiagnostics := b.diagnostics

def Bundle.inputs : List CaptureInput :=
  b.capture.persistedInputs.map fun i => ⟨pin, i.1, i.2⟩

/-- The parent rows and the manifest row of a document. -/
def Selection.parentWrites (s : Selection) : List Write :=
  (s.written digest b).map (fun t => .parent t.parent) ++ [.manifest (s.manifestRow b pin)]

/-- The child rows a document writes in the given families. -/
def Selection.childWrites (kinds : List Kind) (s : Selection) : List Write :=
  ((s.written digest b).filter fun t => t.kind ∈ kinds).flatMap fun t => t.rows.map .child

/-- **Everything a publication writes**: `write_native`, then each document's graph
and class rows. -/
def writes (incarnation : Incarnation) : List Write :=
  .header (b.header pin incarnation) :: (b.inputs pin).map .input
    ++ (selections digest b reuse).flatMap (·.parentWrites digest b pin)
    ++ (selections digest b reuse).flatMap (·.childWrites digest b [.version])
    ++ (selections digest b reuse).flatMap (·.childWrites digest b [.graph, .classes])

end Writes

/-! ### The transaction -/

/-- What the transaction finds once it holds the writer's lock. -/
structure Locked where
  dataVersion : Nat
  compatible : Bool
  disposition : Disposition
  live : Bool
  deriving DecidableEq, Repr

/-- A publication admitted before the lock: the version it saw and what it may reuse. -/
structure Admission where
  dataVersion : Nat
  reuse : PreflightReuse
  deriving DecidableEq, Repr

structure Stamp where
  wall : Int
  incarnation : Incarnation
  generation : Nat
  deriving DecidableEq, Repr

def Locked.rebaseline (locked : Locked) : Bool :=
  !locked.compatible || (locked.live && locked.disposition = .rebuild)

/-- `ensure_not_recreate_pending`, for a live target. -/
def Locked.recreating (locked : Locked) : Bool :=
  locked.live && (locked.disposition = .recreatePending || locked.disposition = .rootReplaced)

/-- Every row of every table deleted; the metadata row stays. -/
def Database.cleared (db : Database) : Database where
  metadata := db.metadata
  headers := []
  inputs := []
  manifest := []
  parents := []
  children := []
  supersessions := []
  debt := []
  candidates := []

/-- The pin the publication commits: the next revision, or the first of a generation. -/
def nextPin (rebaseline : Bool) (old : IndexPin) (generation : Nat) : Tx IndexPin :=
  if rebaseline then pure ⟨generation, 1⟩
  else do
    ensure (((old.indexRevision + 1 : Nat) : Int) ≤ maxInteger) (Failure.message "revision overflow")
    pure ⟨old.indexGeneration, old.indexRevision + 1⟩

def stampPredecessor (old : IndexPin) (now : Int) : Tx Unit := do
  let db ← get
  ensure (∀ s ∈ db.supersessions, s.revision ≠ old) Failure.constraint
  set { db with supersessions := db.supersessions ++ [Supersession.mk old now .retained] }

/-- `install_supersessions` on tables that exist, which is `validate_supersessions`. -/
def installSupersessions (rebaseline : Bool) : Tx Unit := do
  let db ← get
  ensure (rebaseline = true ∨ db.SupersessionsValid)
    (Failure.message "incompatible_index: invalid revision supersession inventory")

def clearOn (rebaseline : Bool) : Tx Unit :=
  modify fun db => if rebaseline then db.cleared else db

/-- `ImmutableAppend::default()`. -/
def Draft.start (db : Database) : Draft := ⟨db, [], []⟩

def writeRows (o : Outside) (ws : List Write) : Tx Unit :=
  zoom Draft.start (fun d _ => d.db) (putAll o ws >>= fun _ => finish)

/-- `retention_time`: the wall clock, if it can be stored. -/
def retentionTime {σ : Type} (wall : Int) : EStateM Failure σ Int := do
  ensure (0 ≤ wall ∧ wall ≤ maxInteger) (Failure.message "invalid_supersession_time")
  pure wall

def stampOn (rebaseline : Bool) (old : IndexPin) (now : Int) : Tx Unit :=
  if rebaseline = false ∧ 0 < old.indexRevision then stampPredecessor old now else pure ()

def validatePaired : Tx Unit := do
  let db ← get
  ensure (db.PairedMetadata db.changingScope)
    (Failure.message "incompatible_index: retained manifest/release mismatch")

def countManifest (pin : IndexPin) (files : Nat) : Tx Unit := do
  let db ← get
  ensure ((db.manifestOf pin).length = files)
    (Failure.message "incompatible_index: incomplete new revision manifest")

def updateMetadata (b : Bundle) (pin : IndexPin) (now : Int) (incarnation : Incarnation) :
    Tx Unit :=
  modify fun db =>
    { db with
      metadata :=
        { pin := pin
          indexedAt := now.toNat * 1000
          stats := b.stats
          diagnostics := b.diagnostics
          reconciledIncarnation := some incarnation
          reconcileOptions := some b.capture.reconcileOptions } }

/-- The compare of the compare-and-set: the version admitted, the pin expected, and
the pin the reuse was authenticated at. -/
def checkExpected (expected : IndexPin) (admitted : Admission) (locked : Locked) : Tx Unit := do
  let db ← get
  ensure (locked.dataVersion = admitted.dataVersion)
    (Failure.message "incompatible_index: cache changed after admission")
  ensure (db.current = expected) (Failure.conflict expected db.current)
  ensure (∀ pin ∈ admitted.reuse.pin, pin = db.current)
    (Failure.message "revision conflict: authenticated reuse snapshot changed")
  ensure (locked.recreating = false) (Failure.message "recovery_required: recreate pending")

/-- **The transaction of the full and local routes**, up to COMMIT. -/
def publishBody (digest : Preimage → String) (o : Outside) (b : Bundle) (expected : IndexPin)
    (admitted : Admission) (locked : Locked) (stamp : Stamp) : Tx IndexPin := do
  ensure (b.documents.map (·.file.path)).Nodup (Failure.message "duplicate graph path")
  checkpoint o .baseline
  checkExpected expected admitted locked
  checkpoint o .scan
  ensure (b.documents.length = b.inventory.length)
    (Failure.message "graph/native document cardinality mismatch")
  let pin ← nextPin locked.rebaseline expected stamp.generation
  installSupersessions locked.rebaseline
  clearOn locked.rebaseline
  writeRows o (writes digest b admitted.reuse pin stamp.incarnation)
  let now ← retentionTime stamp.wall
  stampOn locked.rebaseline expected now
  updateMetadata b pin now stamp.incarnation
  validatePaired
  countManifest pin b.documents.length
  checkpoint o .verify
  checkpoint o .hook
  checkpoint o .reverify
  pure pin

/-! ### The unchanged route -/

/-- What the head selects, as `compare_capture_snapshot` reads it. -/
def Database.snapshotSources (db : Database) : List (String × String × String) :=
  (db.manifestOf db.current).filterMap fun m =>
    (db.documentVersions.find? fun v => v.id = m.documentVersion).map fun v =>
      (m.path, v.contentHash, m.captureStat)

def Database.snapshotInputs (db : Database) : List (String × String) :=
  (db.inputsOf db.current).map fun i => (i.inputKey, i.payload)

/-- The comparison found nothing added, deleted or changed, and something to compare. -/
def unchangedCapture (db : Database) (c : Capture) : Prop :=
  let sources := c.files.map fun f => (f.path, f.hash, f.stat)
  ((∀ x ∈ db.snapshotSources, x ∈ sources) ∧ ∀ x ∈ sources, x ∈ db.snapshotSources)
    ∧ ((∀ x ∈ db.snapshotInputs, x ∈ c.persistedInputs)
      ∧ ∀ x ∈ c.persistedInputs, x ∈ db.snapshotInputs)
    ∧ ¬ (sources = [] ∧ c.persistedInputs = [])
    ∧ db.metadata.reconcileOptions = some c.reconcileOptions

instance (db : Database) (c : Capture) : Decidable (unchangedCapture db c) :=
  inferInstanceAs (Decidable (_ ∧ _))

/-- The head's row for the pin, under another pin. -/
def copyHeader (old pin : IndexPin) (incarnation : Incarnation) : Tx Unit := do
  let db ← get
  match db.headerOf old with
  | none => throw (Failure.message "incompatible_index: selected native header missing")
  | some h => insertHeader { h with pin := pin, reconciledIncarnation := incarnation }

def copyInputs (old pin : IndexPin) : Tx Unit := do
  let db ← get
  (db.inputsOf old).forM fun i => insertInput { i with revision := pin }

def copyManifest (old pin : IndexPin) (files : Nat) : Tx Unit := do
  let db ← get
  (db.manifestOf old).forM fun m => insertManifest { m with revision := pin }
  ensure ((db.manifestOf old).length = files)
    (Failure.message "incompatible_index: incomplete unchanged revision manifest")

def updateUnchanged (pin : IndexPin) (now : Int) (incarnation : Incarnation) : Tx Unit :=
  modify fun db =>
    { db with
      metadata :=
        { db.metadata with
          pin := pin, indexedAt := now.toNat * 1000, reconciledIncarnation := some incarnation } }

/-- **The transaction of the unchanged route**, up to COMMIT. -/
def publishUnchangedBody (o : Outside) (c : Capture) (expected : IndexPin)
    (admitted : Admission) (locked : Locked) (stamp : Stamp) : Tx IndexPin := do
  checkpoint o .baseline
  checkExpected expected admitted locked
  ensure (locked.compatible = true) (Failure.message
    "revision conflict: unchanged Serve baseline changed")
  let pin ← nextPin false expected stamp.generation
  copyHeader expected pin stamp.incarnation
  copyInputs expected pin
  copyManifest expected pin c.files.length
  let now ← retentionTime stamp.wall
  stampPredecessor expected now
  updateUnchanged pin now stamp.incarnation
  validatePaired
  checkpoint o .verify
  pure pin

/-! ### Immediate transactions -/

/-- BEGIN IMMEDIATE, the body, COMMIT.  A body that fails is rolled back with all it
wrote, and so is one whose COMMIT fails: the deferred references are not all met, or
the file is busy. -/
def immediate {α : Type} (o : Outside) (body : Tx α) (disk : Database) :
    Except Failure α × Database :=
  match body disk with
  | .error e _ => (.error e, disk)
  | .ok a db =>
      if o.permits .commit = false then (.error (.stopped .commit), disk)
      else if db.ForeignKeys then (.ok a, db)
      else (.error .constraint, disk)

end Baleyg.Store
