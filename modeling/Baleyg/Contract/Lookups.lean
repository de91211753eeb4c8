/-
Which identities can be lookup keys.

A key that was looked up is a name, and names do not identify.  The rule that keeps identities out
of the lookup dependencies knows a handle by its prefix, its version and its digits.  Every handle
of a declaration is such a text and is kept out.  A handle of an occurrence carries the second
version, so there is a fixture for each of them whose evidence names it and passes.
-/
import Baleyg.Contract.Basis
import Baleyg.Native.Finish

namespace Baleyg.Contract

open Fallible (ensure bind_eq_ok ensure_bind_eq_ok ensure_eq_ok forM_eq_ok mapM_eq_ok)
open Native (Language DocumentKey Document Revision)

inductive Identified where
  | declaration
  | occurrence
  deriving DecidableEq, Repr

/-- `syntaxId` of a declaration and `occurrenceId` of an occurrence. -/
def identify (sha : Hasher) : Identified → Value → Except DigestError String
  | .declaration => syntaxId sha
  | .occurrence => occurrenceId sha

variable {sha : Hasher} {input : Value} {hash : String}

/-- A digest has the form of a hash, whatever it is of. -/
theorem digest_valid {kind : DigestKind} (h : digest sha kind input = .ok hash) :
    Native.validHash hash = true := by
  obtain ⟨_, -, h⟩ := bind_eq_ok.mp h
  split at h
  all_goals
    first
    | obtain ⟨_, -, h⟩ := bind_eq_ok.mp h
      obtain ⟨bytes, -, h⟩ := bind_eq_ok.mp h
      cases h
      exact sha.hex_valid _
    | obtain ⟨bytes, -, h⟩ := bind_eq_ok.mp h
      cases h
      exact sha.hex_valid _

theorem shortened_take {lead : String} (hlead : lead.toList.length = 7) :
    (shortened lead hash).toList.take 7 = lead.toList := by
  unfold shortened
  rw [String.toList_append, List.take_left' hlead]

theorem shortened_drop {lead : String} (hlead : lead.toList.length = 7) :
    (shortened lead hash).toList.drop 7 = hash.toList.take 32 := by
  unfold shortened
  rw [String.toList_append, List.drop_left' hlead, String.toList_ofList]

/-- **The rule knows the handles of declarations.** -/
theorem isStableId_syntaxId {handle : String} (h : syntaxId sha input = .ok handle) :
    isStableId handle = true := by
  unfold syntaxId at h
  cases hdigest : digest sha .ofDeclaration input with
  | error e => rw [hdigest] at h; cases h
  | ok hash =>
      rw [hdigest] at h
      cases h
      have hvalid := digest_valid hdigest
      have hlength := Native.length_of_validHash hvalid
      unfold Native.validHash at hvalid
      rw [Bool.and_eq_true] at hvalid
      unfold isStableId
      rw [shortened_take rfl, shortened_drop rfl, List.length_take, hlength]
      have hdigits : (hash.toList.take 32).all Native.isLowerHex = true :=
        List.all_eq_true.mpr fun c hc => List.all_eq_true.mp hvalid.2 c (List.mem_of_mem_take hc)
      rw [hdigits]
      rfl

theorem isStableId_occurrenceId {handle : String} (h : occurrenceId sha input = .ok handle) :
    isStableId handle = false ∧ handle ≠ "" := by
  unfold occurrenceId at h
  cases hdigest : digest sha .ofOccurrence input with
  | error e => rw [hdigest] at h; cases h
  | ok hash =>
      rw [hdigest] at h
      cases h
      constructor
      · unfold isStableId
        rw [shortened_take rfl]
        rfl
      · intro hempty
        have htake : (shortened "occ:v2:" hash).toList.take 7 = "occ:v2:".toList :=
          shortened_take rfl
        rw [hempty] at htake
        exact absurd htake (by decide)

/-! ### A fixture whose evidence looked up one key -/

namespace Naming

variable (sha : Hasher) (dep : String)

def key : DocumentKey := ⟨"s", .rust, "a"⟩

theorem key_formatted : KeyFormatted key := by decide

def producer : Producer := ⟨"p", "1", sha.hex [1], .semantic, [.rust], .utf8⟩

def captured : CapturedRevision where
  id := "r"
  sourceSetId := "s"
  documents := [⟨key, "r", "a"⟩]
  toolchainHash := sha.hex [2]
  configHash := sha.hex [3]
  dependencyHash := sha.hex [4]

def revision : Revision where
  id := "r"
  sourceSetId := "s"
  documents := [⟨key, "r", sha.hex [0], 1⟩]
  toolchainHash := sha.hex [2]
  configHash := sha.hex [3]
  dependencyHash := sha.hex [4]

def manifest : String :=
  sha.hex (Utf.utf8 (Native.Value.array [manifestRow (key, sha.hex [0])]).canonical)

def basis : SemanticBasis where
  producerId := "p"
  producerVersion := "1"
  producerHash := sha.hex [1]
  artifactHash := sha.hex [5]
  language := .rust
  sourceSetId := "s"
  revisionId := "r"
  sourceManifestHash := manifest sha
  toolchainHash := sha.hex [2]
  configHash := sha.hex [3]
  dependencyHash := sha.hex [4]
  lookupDependencies := [dep]

def evidence : Provenance where
  id := "e"
  producerId := "p"
  document := key
  revisionId := "r"
  contentHash := sha.hex [0]
  evidenceKind := .semanticReference
  basis := some (basis sha dep)
  freshness := .fresh

/-- A fixture with a capture of every kind. -/
def fixture : Fixture where
  language := .rust
  producers := [producer sha]
  revisions := [captured sha]
  comparison := ⟨"s", "r", [producer sha]⟩
  semanticArtifacts := ["f"]
  captures := [⟨"exe", .executable, "b", sha.hex [1]⟩, ⟨"tool", .toolchain, "c", sha.hex [2]⟩,
    ⟨"config", .config, "d", sha.hex [3]⟩, ⟨"dep", .dependency, "e", sha.hex [4]⟩,
    ⟨"art", .semanticArtifact, "f", sha.hex [5]⟩]

def files : List (String × List UInt8) :=
  [("a", [0]), ("b", [1]), ("c", [2]), ("d", [3]), ("e", [4]), ("f", [5])]

def disk : Disk where
  read path := found (files.lookup path) (.plain "declared input missing")
  isUtf8 _ := true
  producerOf _ := pure "p"
  proofs _ _ := pure [("e", ⟨sha.hex [5], (evidence sha dep).toWrapper⟩)]

def loaded : Loaded where
  fixture := fixture sha
  selected := revision sha
  revisions := [revision sha]
  captures := [⟨⟨"exe", .executable, "b", sha.hex [1]⟩, [1]⟩,
    ⟨⟨"tool", .toolchain, "c", sha.hex [2]⟩, [2]⟩, ⟨⟨"config", .config, "d", sha.hex [3]⟩, [3]⟩,
    ⟨⟨"dep", .dependency, "e", sha.hex [4]⟩, [4]⟩,
    ⟨⟨"art", .semanticArtifact, "f", sha.hex [5]⟩, [5]⟩]
  semanticBytes := [⟨[5], "p"⟩]
  semanticProofs := [("e", ⟨sha.hex [5], (evidence sha dep).toWrapper⟩)]

theorem captureExists_loaded (kind : CaptureKind) (byte : UInt8)
    (h : (kind, byte) ∈ [(CaptureKind.executable, 1), (.toolchain, 2), (.config, 3),
      (.dependency, 4), (.semanticArtifact, 5)]) :
    captureExists sha (loaded sha dep) kind (sha.hex [byte]) = true := by
  simp only [List.mem_cons, Prod.mk.injEq, List.not_mem_nil, or_false] at h
  rcases h with ⟨rfl, rfl⟩ | ⟨rfl, rfl⟩ | ⟨rfl, rfl⟩ | ⟨rfl, rfl⟩ | ⟨rfl, rfl⟩ <;>
    simp [captureExists, loaded]

/-- The captures of the fixture are those of its revision. -/
theorem matching_fixture (kind : CaptureKind) (byte : UInt8)
    (h : (kind, byte) ∈ [(CaptureKind.executable, 1), (.toolchain, 2), (.config, 3),
      (.dependency, 4), (.semanticArtifact, 5)]) :
    (fixture sha).matching kind (sha.hex [byte]) = true := by
  simp only [List.mem_cons, Prod.mk.injEq, List.not_mem_nil, or_false] at h
  rcases h with ⟨rfl, rfl⟩ | ⟨rfl, rfl⟩ | ⟨rfl, rfl⟩ | ⟨rfl, rfl⟩ | ⟨rfl, rfl⟩ <;>
    simp [Fixture.matching, fixture]

theorem checkDescriptor_fixture : checkDescriptor (fixture sha) = .ok () := by
  have hformatted : (fixture sha).Formatted := by
    intro r hr item hitem
    rw [List.mem_singleton.mp hr] at hitem
    rw [List.mem_singleton.mp hitem]
    exact key_formatted
  refine ensure_bind_eq_ok.mpr ⟨hformatted, ?_⟩
  rfl

theorem loadCaptures : (fixture sha).captures.mapM (loadCapture sha (disk sha dep)) =
    .ok (loaded sha dep).captures := by
  refine mapM_eq_ok.mpr (.cons ?_ (.cons ?_ (.cons ?_ (.cons ?_ (.cons ?_ .nil)))))
  all_goals exact bind_eq_ok.mpr ⟨_, rfl, ensure_bind_eq_ok.mpr ⟨rfl, rfl⟩⟩

theorem checkCaptures_fixture : checkCaptures (fixture sha) [revision sha] = .ok () := by
  refine bind_eq_ok.mpr ⟨(), forM_eq_ok.mpr fun x hx => ?_, forM_eq_ok.mpr fun r hr => ?_⟩
  · rw [List.mem_singleton.mp hx]
    exact ensure_eq_ok.mpr (matching_fixture sha .executable 1 (by decide))
  · rw [List.mem_singleton.mp hr]
    exact ensure_bind_eq_ok.mpr ⟨matching_fixture sha .toolchain 2 (by decide),
      ensure_bind_eq_ok.mpr ⟨matching_fixture sha .config 3 (by decide),
        ensure_eq_ok.mpr (matching_fixture sha .dependency 4 (by decide))⟩⟩

/-- **The fixture loads.** -/
theorem loadFixture_fixture :
    loadFixture sha (disk sha dep) (fixture sha) = .ok (loaded sha dep) := by
  have hrevisions : (fixture sha).revisions.mapM
      (loadRevision sha (disk sha dep) (fixture sha)) = .ok [revision sha] :=
    mapM_eq_ok.mpr (.cons rfl .nil)
  have hartifacts : (fixture sha).semanticArtifacts.mapM
      (loadArtifact (disk sha dep) (fixture sha)) = .ok (loaded sha dep).semanticBytes :=
    mapM_eq_ok.mpr (.cons rfl .nil)
  refine bind_eq_ok.mpr ⟨(), checkDescriptor_fixture sha, bind_eq_ok.mpr ⟨_, hrevisions,
    bind_eq_ok.mpr ⟨revision sha, rfl, bind_eq_ok.mpr ⟨_, loadCaptures sha dep,
      bind_eq_ok.mpr ⟨(), checkCaptures_fixture sha, bind_eq_ok.mpr ⟨_, hartifacts,
        ensure_bind_eq_ok.mpr ⟨rfl, rfl⟩⟩⟩⟩⟩⟩⟩

theorem manifestOf_revision : manifestOf sha (revision sha) = .ok (manifest sha) := by
  refine ensure_bind_eq_ok.mpr ⟨fun row hrow => ?_, rfl⟩
  rw [List.mem_singleton.mp hrow]
  exact ⟨key_formatted, sha.hex_valid _⟩

variable {dep}

theorem evidence_formatted (h : dep ≠ "") : (evidence sha dep).Formatted := by
  refine ⟨show ∀ text ∈ ["e", "p", "r"], text ≠ "" by decide, key_formatted, sha.hex_valid _,
    fun b hb => ?_⟩
  rw [← Option.some.inj hb]
  constructor
  · intro text htext
    simp only [basis, List.cons_append, List.nil_append, List.mem_cons, List.not_mem_nil,
      or_false] at htext
    rcases htext with rfl | rfl | rfl | rfl | rfl
    · decide
    · decide
    · decide
    · decide
    · exact h
  · intro hash hhash
    simp only [basis, manifest, List.mem_cons, List.not_mem_nil, or_false] at hhash
    rcases hhash with rfl | rfl | rfl | rfl | rfl | rfl <;> exact sha.hex_valid _

theorem selfRelations_evidence : ∀ row ∈ selfRelations (producer sha) (evidence sha dep)
    (revision sha) (manifest sha) (basis sha dep), row.2.2 = row.2.1 := by
  intro row hrow
  simp only [selfRelations, List.mem_cons, List.not_mem_nil, or_false] at hrow
  rcases hrow with rfl | rfl | rfl | rfl | rfl | rfl | rfl | rfl | rfl | rfl <;> rfl

theorem capturedFields_evidence : ∀ row ∈ capturedFields (basis sha dep),
    captureExists sha (loaded sha dep) row.2.1 row.2.2 = true := by
  intro row hrow
  simp only [capturedFields, List.mem_cons, List.not_mem_nil, or_false] at hrow
  rcases hrow with rfl | rfl | rfl
  · exact captureExists_loaded sha dep .toolchain 2 (by decide)
  · exact captureExists_loaded sha dep .config 3 (by decide)
  · exact captureExists_loaded sha dep .dependency 4 (by decide)

theorem artifactExists_evidence : artifactExists sha (loaded sha dep) (producer sha)
    (basis sha dep).artifactHash = true := by
  simp [artifactExists, loaded, producer, basis]

theorem keys_evidence (h : isStableId dep = false) :
    ∀ x ∈ (basis sha dep).lookupDependencies, isStableId x = false := by
  intro x hx
  rw [List.mem_singleton.mp hx]
  exact h

theorem proofOf_evidence : ∃ proof ∈ (loaded sha dep).proofOf (evidence sha dep).id,
    proof.hash = (basis sha dep).artifactHash ∧ proof.wrapper = (evidence sha dep).toWrapper :=
  ⟨⟨sha.hex [5], (evidence sha dep).toWrapper⟩, rfl, rfl, rfl⟩

/-- **The evidence passes**, whatever key but one the rule knows it looked up. -/
theorem checkCapturedBasis_evidence (h : isStableId dep = false) (hdep : dep ≠ "") :
    checkCapturedBasis sha (loaded sha dep) (evidence sha dep) =
      .ok (producer sha, revision sha) := by
  have hsemantic : checkSemanticBasis sha (loaded sha dep) (evidence sha dep) (producer sha)
      (revision sha) (basis sha dep) = .ok () := by
    refine bind_eq_ok.mpr ⟨_, manifestOf_revision sha, bind_eq_ok.mpr ⟨⟨⟩, ?_, ?_⟩⟩
    · exact forM_eq_ok.mpr fun row hrow => ensure_eq_ok.mpr (selfRelations_evidence sha row hrow)
    · refine ensure_bind_eq_ok.mpr ⟨List.mem_singleton.mpr rfl, bind_eq_ok.mpr ⟨⟨⟩, ?_, ?_⟩⟩
      · exact forM_eq_ok.mpr fun row hrow =>
          ensure_eq_ok.mpr (capturedFields_evidence sha row hrow)
      · exact ensure_bind_eq_ok.mpr ⟨artifactExists_evidence sha, ensure_bind_eq_ok.mpr
          ⟨keys_evidence sha h, ensure_bind_eq_ok.mpr ⟨rfl, ensure_eq_ok.mpr
            (proofOf_evidence sha)⟩⟩⟩
  refine ensure_bind_eq_ok.mpr ⟨evidence_formatted sha hdep, bind_eq_ok.mpr
    ⟨(revision sha, ⟨key, "r", sha.hex [0], 1⟩), rfl, ensure_bind_eq_ok.mpr ⟨rfl, bind_eq_ok.mpr
      ⟨producer sha, rfl, ensure_bind_eq_ok.mpr ⟨captureExists_loaded sha dep .executable 1 (by decide), ?_⟩⟩⟩⟩⟩
  have hkind : EvidenceKind.semanticReference ≠ .measuredSyntax := by decide
  exact ensure_bind_eq_ok.mpr ⟨hkind, bind_eq_ok.mpr ⟨basis sha dep, rfl,
    bind_eq_ok.mpr ⟨(), hsemantic, rfl⟩⟩⟩

/-- The evidence is found in the basis it names. -/
theorem capturedBasis_evidence (h : isStableId dep = false) (hdep : dep ≠ "") :
    capturedBasis sha (loaded sha dep) (evidence sha dep)
      ((loaded sha dep).proofOf (evidence sha dep).id) = .ok (producer sha) := by
  have hsemantic : semanticBasis sha (loaded sha dep) (evidence sha dep)
      ((loaded sha dep).proofOf (evidence sha dep).id) (producer sha) (revision sha)
      (basis sha dep) = .ok () := by
    refine bind_eq_ok.mpr ⟨_, manifestOf_revision sha, bind_eq_ok.mpr ⟨⟨⟩, ?_,
      bind_eq_ok.mpr ⟨⟨⟩, ?_, ?_⟩⟩⟩
    · exact forM_eq_ok.mpr fun row hrow => ensure_eq_ok.mpr (selfRelations_evidence sha row hrow)
    · exact forM_eq_ok.mpr fun row hrow => ensure_eq_ok.mpr (capturedFields_evidence sha row hrow)
    · refine ensure_bind_eq_ok.mpr ⟨?_, ensure_bind_eq_ok.mpr ⟨⟨keys_evidence sha h, rfl⟩,
        ensure_eq_ok.mpr (proofOf_evidence sha)⟩⟩
      rw [artifactExists_evidence, Bool.and_true]
      exact captureExists_loaded sha dep .semanticArtifact 5 (by decide)
  refine ensure_bind_eq_ok.mpr ⟨evidence_formatted sha hdep, bind_eq_ok.mpr
    ⟨(revision sha, ⟨key, "r", sha.hex [0], 1⟩), rfl, ensure_bind_eq_ok.mpr ⟨rfl, bind_eq_ok.mpr
      ⟨producer sha, rfl, ensure_bind_eq_ok.mpr ⟨⟨List.mem_singleton.mpr rfl,
        captureExists_loaded sha dep .executable 1 (by decide)⟩, ?_⟩⟩⟩⟩⟩
  have hkind : EvidenceKind.semanticReference ≠ .measuredSyntax := by decide
  exact ensure_bind_eq_ok.mpr ⟨hkind, bind_eq_ok.mpr ⟨basis sha dep, rfl,
    bind_eq_ok.mpr ⟨(), hsemantic, rfl⟩⟩⟩

def zeros : Hasher := ⟨fun _ => String.ofList (List.replicate 64 '0'), fun _ => by decide⟩

def call : Native.Value := .object
  [("contentHash", .string (zeros.hex [])), ("extractionContext", .string (zeros.hex [])),
    ("nativeProducerId", .string "p"), ("nativeProducerVersion", .string "1"),
    ("ownerSyntaxId", .string "sid:v1:00000000000000000000000000000000"),
    ("kind", .string "call"), ("ordinal", .number 0)]

def handle : String := "occ:v2:00000000000000000000000000000000"

theorem call_keyed : call.Keyed := by
  refine .object _ (by decide) fun m hm => ?_
  simp only [List.mem_cons, List.not_mem_nil, or_false] at hm
  rcases hm with rfl | rfl | rfl | rfl | rfl | rfl | rfl
  case inr.inr.inr.inr.inr.inr => exact .number 0
  all_goals exact .string _

theorem identify_call : identify zeros .occurrence (ofNative call) = .ok handle := by
  have hmatches : Matches occurrenceDigestInput call :=
    matches_occurrence call_keyed (show Native.validateOccurrence call = .ok () by rfl)
  show (digest zeros .ofOccurrence (ofNative call)).map (shortened "occ:v2:") = .ok handle
  unfold digest
  rw [show walk DigestKind.ofOccurrence.shape (ofNative call) _ = .ok () from hmatches.walks _,
    canonicalBytes_ofNative hmatches.plain, if_neg (by decide)]
  rfl

end Naming

/-! ### The rule -/

/-- **A handle can be named exactly when it is an occurrence's.**  No evidence that either checker
takes looked up the handle of a declaration.  For the handle of an occurrence there is a fixture
whose evidence did. -/
theorem dependencies_name_no_declaration {sha : Hasher} {kind : Identified} {input : Value}
    {handle : String} (h : identify sha kind input = .ok handle) :
    (∀ disk fixture loaded p, loadFixture sha disk fixture = .ok loaded →
      Accepted sha loaded p → handle ∉ p.lookupDependencies) ↔ kind = .declaration := by
  cases kind with
  | declaration =>
      refine ⟨fun _ => rfl, fun _ disk fixture loaded p _ haccepted hmem => ?_⟩
      have hfalse := haccepted.keys handle hmem
      rw [isStableId_syntaxId h] at hfalse
      cases hfalse
  | occurrence =>
      refine ⟨fun hnone => ?_, fun heq => by cases heq⟩
      obtain ⟨hstable, hempty⟩ := isStableId_occurrenceId h
      refine absurd (List.mem_singleton.mpr rfl) (hnone _ _ _ (Naming.evidence sha handle)
        (Naming.loadFixture_fixture sha handle)
        (.inl ⟨_, Naming.checkCapturedBasis_evidence sha hstable hempty⟩))

theorem dependencies_name_no_declaration_call :
    (∀ disk fixture loaded p, loadFixture Naming.zeros disk fixture = .ok loaded →
      Accepted Naming.zeros loaded p → Naming.handle ∉ p.lookupDependencies) ↔
        Identified.occurrence = .declaration :=
  dependencies_name_no_declaration Naming.identify_call

/-- **An occurrence is named**: both checkers take the evidence of a fixture that loads, and among
its lookup dependencies is the handle of a call. -/
theorem dependencies_name_occurrence :
    identify Naming.zeros .occurrence (ofNative Naming.call) = .ok Naming.handle ∧
    loadFixture Naming.zeros (Naming.disk Naming.zeros Naming.handle)
      (Naming.fixture Naming.zeros) = .ok (Naming.loaded Naming.zeros Naming.handle) ∧
    checkCapturedBasis Naming.zeros (Naming.loaded Naming.zeros Naming.handle)
      (Naming.evidence Naming.zeros Naming.handle) =
        .ok (Naming.producer Naming.zeros, Naming.revision Naming.zeros) ∧
    capturedBasis Naming.zeros (Naming.loaded Naming.zeros Naming.handle)
      (Naming.evidence Naming.zeros Naming.handle)
      ((Naming.loaded Naming.zeros Naming.handle).proofOf "e") =
        .ok (Naming.producer Naming.zeros) ∧
    Naming.handle ∈ (Naming.evidence Naming.zeros Naming.handle).lookupDependencies := by
  obtain ⟨hstable, hempty⟩ := isStableId_occurrenceId Naming.identify_call
  exact ⟨Naming.identify_call, Naming.loadFixture_fixture _ _,
    Naming.checkCapturedBasis_evidence _ hstable hempty,
    Naming.capturedBasis_evidence _ hstable hempty, List.mem_singleton.mpr rfl⟩

end Baleyg.Contract
