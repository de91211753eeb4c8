/-
Artifacts of a capture.

A capture holds the bytes of every source file and of every input that can change what is
measured.  Its header names them all, so two captures have one revision exactly where
nothing of this differs, up to the digest.  An artifact is built in full, document by
document under one registry; or one document is measured alone and checked on its own; or an
artifact is assembled from documents that were measured for other revisions, which are bound
to the new one.
-/
import Baleyg.Lib.Register
import Baleyg.Native.Validate

namespace Baleyg.Native

open Fallible (ensure)

abbrev Bytes := List UInt8

/-- **An admitted capture**, as far as native evidence reads it. -/
structure Capture where
  files : List SourceFile
  hashes : List (String × String)
  executableDigest : Option String
  /-- The inputs below the root by their names, in the order of their paths. -/
  inputs : List (String × Option Bytes)
  maxFileBytes : Nat
  /-- The language of a file goes by the end of its name. -/
  tongue : ∀ f ∈ files, ∀ g ∈ files, f.path = g.path → f.language = g.language

structure Site where
  /-- The record id of the checkout, discovered and verified. -/
  recordId : Except String String
  verify : Except String Unit

/-- `ROOT_INPUTS[..22]`. -/
def rootInputs : List String :=
  ["package.json", "tsconfig.json", "jsconfig.json", "package-lock.json", "yarn.lock",
    "pnpm-lock.yaml", "bun.lock", "bun.lockb", "Cargo.toml", "Cargo.lock", "pom.xml",
    "build.gradle", "build.gradle.kts", "settings.gradle", "settings.gradle.kts",
    "gradle.properties", "pyproject.toml", "requirements.txt", "uv.lock", "poetry.lock", "Pipfile",
    "Pipfile.lock"]

/-- `ROOT_INPUTS[22..]`. -/
def selectors : List String := ["rust-toolchain", "rust-toolchain.toml"]

namespace Capture

def bytes (capture : Capture) (name : String) : Option Bytes := (capture.inputs.lookup name).join

def ignores (capture : Capture) : List (String × Option Bytes) :=
  capture.inputs.filter fun input =>
    (input.1.toList.splitOn '/').getLast? ∈ [some ".gitignore".toList, some ".ignore".toList]

end Capture

/-! ### The header -/

/-- `hex::encode`. -/
def hexEncode (bytes : Bytes) : String :=
  String.ofList (bytes.flatMap fun b =>
    [Nat.digitChar (b.toNat / 16), Nat.digitChar (b.toNat % 16)])

def entry (name : String) (bytes : Option Bytes) : Except String Value := do
  safePath name
  match bytes with
  | some bytes => pure (.object [("path", .string name), ("type", .string "present"),
      ("bytes", .string (hexEncode bytes)), ("byteLength", .number bytes.length)])
  | none => pure (.object [("path", .string name), ("type", .string "absent")])

structure Inputs where
  executableHash : String
  dependencies : List Value
  selectors : List Value
  ignores : List Value

namespace Inputs

def toolchain (i : Inputs) : Value := .object
  [("nativeExecutable", .string i.executableHash),
    ("rootRustToolchain", i.selectors.headD .null),
    ("rootRustToolchainToml", i.selectors.tail.headD .null)]

def config (i : Inputs) (maxFileBytes : Nat) : Value := .array
  (i.dependencies ++ i.selectors ++
    [.object [("nativeAdmission", .object [("maxFileBytes", .number maxFileBytes)])]] ++ i.ignores)

end Inputs

def sourceSetId (rootId : String) : String := "source-set:v1:" ++ rootId

def fileLe (f g : SourceFile) : Bool :=
  f.language.order < g.language.order || (f.language.order == g.language.order && f.path ≤ g.path)

def Capture.sorted (capture : Capture) : List SourceFile := capture.files.mergeSort fileLe

def revisionId (sha : Sha256) (capture : Capture) (rootId : String) (i : Inputs) : String :=
  "revision:v1:" ++ sha.digest "trellis.native-revision.v1\x00" (Value.canonical (.object
    [("sourceSetId", .string (sourceSetId rootId)),
      ("documents", .array (capture.sorted.map fun f => .object
        [("language", .string f.language.text), ("path", .string f.path),
          ("bytes", .string (hexEncode f.text.toUTF8.toList)),
          ("byteLength", .number (byteLength f.text))])),
      ("toolchain", i.toolchain), ("config", i.config capture.maxFileBytes),
      ("dependencies", .array i.dependencies)]))

/-- `hash(&canonical(..))`. -/
def hashOf (sha : Sha256) (v : Value) : String := sha.hash (String.ofList v.canonical)

def headerOf (sha : Sha256) (capture : Capture) (rootId : String) (i : Inputs) : Artifact where
  producer := ⟨producerId, nativeVersion, i.executableHash, "native", Language.all, "utf8"⟩
  sourceSet := ⟨sourceSetId rootId, rootId, Language.all, []⟩
  revision :=
    { id := revisionId sha capture rootId i
      sourceSetId := sourceSetId rootId
      documents := capture.sorted.map fun f =>
        ⟨⟨sourceSetId rootId, f.language, f.path⟩, revisionId sha capture rootId i, f.hash,
          byteLength f.text⟩
      toolchainHash := hashOf sha i.toolchain
      configHash := hashOf sha (i.config capture.maxFileBytes)
      dependencyHash := hashOf sha (.array i.dependencies) }
  coverage := []
  provenance := []
  declarations := []
  calls := []
  controlRegions := []

/-- What the header is made of, apart from the source files. -/
def inputsOf (capture : Capture) : Except String Inputs :=
  match capture.executableDigest with
  | none => throw "native executable not admitted or replaced"
  | some executableHash => do
      let dependencies ← rootInputs.mapM fun name => entry name (capture.bytes name)
      let selectors ← selectors.mapM fun name => entry name (capture.bytes name)
      let ignores ← capture.ignores.mapM fun input => entry input.1 input.2
      pure ⟨executableHash, dependencies, selectors, ignores⟩

def buildNativeHeader (sha : Sha256) (site : Site) (capture : Capture) (rootId : String) :
    Except String (Artifact × List SourceFile) := do
  ensure (rootId ≠ "") "empty text"
  let recordId ← site.recordId
  ensure (recordId = rootId) "native source-set root identity mismatch"
  let inputs ← inputsOf capture
  pure (headerOf sha capture rootId inputs, capture.sorted)

/-! ### A full build -/

def buildNative (libs : Libraries) (site : Site) (capture : Capture) (rootId : String) :
    Except String Artifact := do
  let (header, files) ← buildNativeHeader libs.sha site capture rootId
  let (artifact, _) ← extractAll libs (files.zip header.revision.documents) (header, .empty)
  pure artifact

namespace Artifact

def validate (libs : Libraries) (site : Site) (capture : Capture) (rootId : String)
    (a : Artifact) : Except String Unit := do
  site.verify
  validateStructure libs a capture.files
  let expected ← buildNative libs site capture rootId
  site.verify
  validateStructure libs expected capture.files
  ensure (a = expected) "native evidence differs from captured source or inputs"

def validateSelective (libs : Libraries) (site : Site) (capture : Capture) (rootId : String)
    (a : Artifact) : Except String Unit := do
  site.verify
  let (header, _) ← buildNativeHeader libs.sha site capture rootId
  ensure (a.producer = header.producer ∧ a.sourceSet = header.sourceSet ∧
      a.revision = header.revision) "selective native header differs from captured revision"
  validateStructure libs a capture.files
  site.verify

end Artifact

def fromCapture (libs : Libraries) (site : Site) (capture : Capture) (rootId : String) :
    Except String Artifact := do
  let artifact ← buildNative libs site capture rootId
  artifact.validate libs site capture rootId
  pure artifact

/-! ### One document -/

structure SelectedDocument where
  producer : Producer
  sourceSet : SourceSet
  revision : Revision
  document : Document
  facts : DocumentFacts
  deriving DecidableEq

def Artifact.factsOf? (a : Artifact) (key : DocumentKey) : Option DocumentFacts := do
  let coverage ← a.coverage.find? fun c => c.key = key
  let provenance ← a.provenance.find? fun p => p.document = key
  pure ⟨coverage, provenance, a.declarations.filter fun d => d.document = key,
    a.calls.filter fun c => c.document = key, a.controlRegions.filter fun r => r.document = key⟩

def DocumentFacts.Of (facts : DocumentFacts) (key : DocumentKey) : Prop :=
  (∀ d ∈ facts.declarations, d.document = key) ∧ (∀ c ∈ facts.calls, c.document = key) ∧
    ∀ r ∈ facts.controlRegions, r.document = key

instance (facts : DocumentFacts) (key : DocumentKey) : Decidable (facts.Of key) :=
  inferInstanceAs (Decidable (_ ∧ _))

def measureCapturedDocument (libs : Libraries) (site : Site) (capture : Capture) (rootId : String)
    (path : String) : Except String SelectedDocument := do
  site.verify
  let (header, files) ← buildNativeHeader libs.sha site capture rootId
  match files.filter fun f => f.path = path with
  | [file] => do
      ensure (capture.hashes.lookup path = some file.hash ∧ file.hash = libs.sha.hash file.text)
        "selected native source bytes/hash mismatch"
      match header.revision.documents.filter fun d => d.key.path = path with
      | [document] => do
          ensure (document.key.sourceSetId = header.sourceSet.id ∧
              document.key.language = file.language ∧ document.contentHash = file.hash ∧
              document.byteLength = byteLength file.text ∧
              document.revisionId = header.revision.id)
            "selected native document not bound to full capture"
          let (facts, _) ← measureDocument libs header.producer header.sourceSet header.revision file
            document .empty
          ensure (facts.coverage.documentPath = path ∧ facts.provenance.document = document.key ∧
              facts.Of document.key) "selected native facts escaped the admitted document"
          site.verify
          pure ⟨header.producer, header.sourceSet, header.revision, document, facts⟩
      | _ => throw "selected native revision document must be unique"
  | _ => throw "selected native source must be unique and admitted"

def SelectedDocument.artifact (selected : SelectedDocument) (documents : List Document) : Artifact :=
  { producer := selected.producer
    sourceSet := selected.sourceSet
    revision := { selected.revision with documents := documents }
    coverage := [selected.facts.coverage]
    provenance := [selected.facts.provenance]
    declarations := selected.facts.declarations
    calls := selected.facts.calls
    controlRegions := selected.facts.controlRegions }

def validatedChangedArtifact (libs : Libraries) (site : Site) (capture : Capture)
    (selected : SelectedDocument) : Except String Artifact :=
  match capture.files.find? fun f => f.path = selected.document.key.path with
  | none => throw "changed native source missing from capture"
  | some file => do
      validateStructure libs (selected.artifact [selected.document]) [file]
      site.verify
      pure (selected.artifact selected.revision.documents)

/-! ### Assembly -/

section Rebind

variable (revisionId proofId : String)

-- records, bound to a revision and to the proof of their document there

def Declaration.rebind (d : Declaration) : Declaration :=
  { d with revisionId := revisionId, provenanceId := proofId }

def Call.rebind (c : Call) : Call := { c with revisionId := revisionId, provenanceId := proofId }

def ControlRegion.rebind (r : ControlRegion) : ControlRegion :=
  { r with revisionId := revisionId, provenanceId := proofId }

/-- The facts of a document, bound to a revision and to its proof there. -/
def DocumentFacts.rebind (facts : DocumentFacts) : DocumentFacts where
  coverage := { facts.coverage with revisionId := revisionId }
  provenance := { facts.provenance with revisionId := revisionId, id := proofId }
  declarations := facts.declarations.map (Declaration.rebind revisionId proofId)
  calls := facts.calls.map (Call.rebind revisionId proofId)
  controlRegions := facts.controlRegions.map (ControlRegion.rebind revisionId proofId)

end Rebind

/-- The document was measured by this producer from the bytes that were captured. -/
def SelectedDocument.Authentic (sha : Sha256) (a : Artifact) (file : SourceFile)
    (document : Document) (e : SelectedDocument) : Prop :=
  e.producer = a.producer ∧ e.sourceSet = a.sourceSet ∧
    e.revision.sourceSetId = a.revision.sourceSetId ∧
    e.revision.toolchainHash = a.revision.toolchainHash ∧
    e.revision.configHash = a.revision.configHash ∧
    e.revision.dependencyHash = a.revision.dependencyHash ∧ e.document.key = document.key ∧
    e.document.contentHash = document.contentHash ∧ e.document.byteLength = document.byteLength ∧
    file.hash = document.contentHash ∧ sha.hash file.text = file.hash

instance (sha : Sha256) (a : Artifact) (file : SourceFile) (document : Document)
    (e : SelectedDocument) : Decidable (e.Authentic sha a file document) :=
  inferInstanceAs (Decidable (_ ∧ _))

/-- Its facts are those of the revision it was measured for. -/
def SelectedDocument.Bound (document : Document) (e : SelectedDocument) : Prop :=
  e.document.revisionId = e.revision.id ∧ e.facts.coverage.revisionId = e.revision.id ∧
    e.facts.provenance.revisionId = e.revision.id ∧ e.facts.provenance.document = document.key ∧
    e.facts.provenance.contentHash = document.contentHash ∧
    (∀ d ∈ e.facts.declarations, d.document = document.key ∧ d.revisionId = e.revision.id ∧
      d.provenanceId = e.facts.provenance.id) ∧
    (∀ c ∈ e.facts.calls, c.document = document.key ∧ c.revisionId = e.revision.id ∧
      c.provenanceId = e.facts.provenance.id) ∧
    ∀ r ∈ e.facts.controlRegions, r.document = document.key ∧ r.revisionId = e.revision.id ∧
      r.provenanceId = e.facts.provenance.id

instance (document : Document) (e : SelectedDocument) : Decidable (e.Bound document) :=
  inferInstanceAs (Decidable (_ ∧ _))

def SelectedDocument.path (e : SelectedDocument) : String := e.document.key.path

def assembleAll (libs : Libraries) : List SelectedDocument → List SourceFile → Artifact →
    Except String Artifact
  | _, [], a => pure a
  | entries, file :: rest, a =>
      match Register.get SelectedDocument.path file.path entries with
      | none => throw "selected native document absent"
      | some e =>
          match a.revision.documents.find? fun d => d.key.path = file.path with
          | none => throw "captured document absent"
          | some document => do
              ensure (e.Authentic libs.sha a file document)
                "selected native document not authenticated to capture"
              ensure (e.Bound document) "selected native facts escaped prior document"
              let proof := proofId libs.sha document.key a.revision.id
              assembleAll libs (Register.remove SelectedDocument.path file.path entries) rest
                (a.add (e.facts.rebind a.revision.id proof))

def assembleSelectedRevision (libs : Libraries) (site : Site) (capture : Capture) (rootId : String)
    (selected : List SelectedDocument) : Except String Artifact := do
  site.verify
  let (header, files) ← buildNativeHeader libs.sha site capture rootId
  ensure ((selected.map SelectedDocument.path).Nodup) "duplicate selected native document"
  ensure (selected.length = files.length) "missing selected native document"
  let artifact ← assembleAll libs selected files header
  validateStructure libs artifact capture.files
  site.verify
  pure artifact

end Baleyg.Native
