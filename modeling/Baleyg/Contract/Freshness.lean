/-
Whether evidence is fresh.

One checker asks a question after another and stops at the first that fails; the other writes down
what was captured and what is requested, component by component, and compares the two lists.  A
component that has no value in the request is `null` there and matches nothing.

Both begin with a capture that is what it says, and both may look at the same snapshot, so they
give the same label.  For semantic evidence that label is fresh only if nothing the evidence rests
on has changed.  Syntax that was measured has no basis: its producer is not asked for again.
-/
import Baleyg.Contract.Lookups

namespace Baleyg.Contract

open Fallible (ensure bind_eq_ok ensure_bind_eq_ok ensure_eq_ok)
open Native (Language DocumentKey Document Revision)

/-! ### The questions -/

structure Snapshot where
  sourceSetId : String
  revision : Option Revision
  producers : List Producer

/-- `requestedSnapshot`; a request names a source set and a revision. -/
def requestedSnapshot (loaded : Loaded) (request : Option (String × String)) : Snapshot :=
  let wanted := request.getD (loaded.comparison.sourceSetId, loaded.comparison.revisionId)
  if wanted.1 = loaded.comparison.sourceSetId ∧ wanted.2 = loaded.comparison.revisionId then
    ⟨wanted.1, some loaded.selected, loaded.comparison.producers⟩
  else ⟨wanted.1, loaded.revisionAt wanted.1 wanted.2, loaded.fixture.producers⟩

/-- The document of a snapshot evidence would be about. -/
def wantedDocument (revision : Revision) (p : Provenance) : Option Document :=
  revision.documents.find? fun x =>
    x.key.path = p.document.path ∧ x.key.language = p.document.language

/-- The questions about a producer that is requested and its capture. -/
def producerChanged (sha : Hasher) (loaded : Loaded) (producer requested : Producer)
    (basis : SemanticBasis) : Prop :=
  requested.kind ≠ .semantic ∨ basis.language ∉ requested.languages ∨
    requested.version ≠ basis.producerVersion ∨ requested.executableHash ≠ basis.producerHash ∨
    requested.positionEncoding ≠ producer.positionEncoding ∨
    requested.languages ≠ producer.languages ∨
    captureExists sha loaded .executable requested.executableHash = false

instance (sha : Hasher) (loaded : Loaded) (producer requested : Producer) (basis : SemanticBasis) :
    Decidable (producerChanged sha loaded producer requested basis) := by
  unfold producerChanged
  infer_instance

def semanticFreshness (sha : Hasher) (loaded : Loaded) (producer : Producer) (snapshot : Snapshot)
    (revision : Revision) (basis : SemanticBasis) : Except Rejection Freshness :=
  match snapshot.producers.find? fun x => x.id = basis.producerId with
  | none => pure .possiblyStale
  | some requested =>
      if producerChanged sha loaded producer requested basis ∨
          snapshot.sourceSetId ≠ basis.sourceSetId ∨ revision.id ≠ basis.revisionId then
        pure .possiblyStale
      else do
        let manifest ← manifestOf sha revision
        pure (if manifest ≠ basis.sourceManifestHash ∨
            revision.toolchainHash ≠ basis.toolchainHash ∨
            revision.configHash ≠ basis.configHash ∨
            revision.dependencyHash ≠ basis.dependencyHash then
          .possiblyStale else .fresh)

def expectedFreshness (sha : Hasher) (loaded : Loaded) (p : Provenance)
    (request : Option (String × String)) : Except Rejection Freshness := do
  let captured ← checkCapturedBasis sha loaded p
  let snapshot := requestedSnapshot loaded request
  match snapshot.revision with
  | none => pure .stale
  | some revision =>
      match wantedDocument revision p with
      | none => pure .stale
      | some wanted =>
          if wanted.contentHash ≠ p.contentHash then pure .stale
          else
            match captured.1.kind with
            | .native => pure (if revision.id = p.revisionId ∧
                snapshot.sourceSetId = p.document.sourceSetId then .fresh else .possiblyStale)
            | .semantic => do
                let basis ← found p.basis (Rejection.plain "basis is null")
                semanticFreshness sha loaded captured.1 snapshot revision basis

/-! ### The components -/

/-- The components of evidence, with nothing for a `null`. -/
structure Components where
  documentHash : Option String
  revisionId : Option String
  sourceManifestHash : Option String
  toolchainHash : Option String
  configHash : Option String
  dependencyHash : Option String
  sourceSetId : Option String
  producerId : Option String
  producerKind : Option ProducerKind
  producerVersion : Option String
  producerHash : Option String
  language : Option Language
  positionEncoding : Option PositionEncoding
  producerLanguages : Option (List Language)
  deriving DecidableEq, Repr

/-- A component of the request has a value, which is the captured one. -/
def agrees {α : Type} [DecidableEq α] (requested captured : Option α) : Bool :=
  requested.isSome && requested == captured

/-- The components that make evidence possibly stale, field by field. -/
def agreements (captured requested : Components) : List Bool :=
  [agrees requested.revisionId captured.revisionId,
    agrees requested.sourceManifestHash captured.sourceManifestHash,
    agrees requested.toolchainHash captured.toolchainHash,
    agrees requested.configHash captured.configHash,
    agrees requested.dependencyHash captured.dependencyHash,
    agrees requested.sourceSetId captured.sourceSetId,
    agrees requested.producerId captured.producerId,
    agrees requested.producerKind captured.producerKind,
    agrees requested.producerVersion captured.producerVersion,
    agrees requested.producerHash captured.producerHash,
    agrees requested.language captured.language,
    agrees requested.positionEncoding captured.positionEncoding,
    agrees requested.producerLanguages captured.producerLanguages]

def compareFreshnessComponents (captured requested : Components) : Freshness :=
  if agrees requested.documentHash captured.documentHash = false then .stale
  else if (agreements captured requested).all id then .fresh else .possiblyStale

def assertFreshnessComponents (captured requested : Components) (claimed : Freshness) :
    Except Rejection Freshness := do
  ensure (claimed = compareFreshnessComponents captured requested)
    (Rejection.invalid "FRESHNESS.STATE" "freshness" "incorrect freshness label")
  pure (compareFreshnessComponents captured requested)

def nativeComponents (p : Provenance) (producer : Producer) : Components where
  documentHash := some p.contentHash
  revisionId := some p.revisionId
  sourceManifestHash := some "native"
  toolchainHash := some "native"
  configHash := some "native"
  dependencyHash := some "native"
  sourceSetId := some p.document.sourceSetId
  producerId := some producer.id
  producerKind := some producer.kind
  producerVersion := some producer.version
  producerHash := some producer.executableHash
  language := some p.document.language
  positionEncoding := some producer.positionEncoding
  producerLanguages := some producer.languages

def semanticComponents (p : Provenance) (producer : Producer) (basis : SemanticBasis) :
    Components where
  documentHash := some p.contentHash
  revisionId := some basis.revisionId
  sourceManifestHash := some basis.sourceManifestHash
  toolchainHash := some basis.toolchainHash
  configHash := some basis.configHash
  dependencyHash := some basis.dependencyHash
  sourceSetId := some basis.sourceSetId
  producerId := some producer.id
  producerKind := some producer.kind
  producerVersion := some producer.version
  producerHash := some producer.executableHash
  language := some p.document.language
  positionEncoding := some producer.positionEncoding
  producerLanguages := some producer.languages

/-- What is requested; an executable without captured bytes is unavailable. -/
def requestedComponents (sha : Hasher) (loaded : Loaded) (p : Provenance)
    (selected : Option Revision) (manifest : Option String) (requested : Option Producer) :
    Components where
  documentHash := (selected.bind fun r => wantedDocument r p).map Document.contentHash
  revisionId := selected.map Revision.id
  sourceManifestHash := manifest
  toolchainHash := selected.map Revision.toolchainHash
  configHash := selected.map Revision.configHash
  dependencyHash := selected.map Revision.dependencyHash
  sourceSetId := some loaded.comparison.sourceSetId
  producerId := requested.map Producer.id
  producerKind := requested.map Producer.kind
  producerVersion := requested.map Producer.version
  producerHash := requested.bind fun x =>
    if captureExists sha loaded .executable x.executableHash then some x.executableHash else none
  language := requested.bind fun x =>
    if p.document.language ∈ x.languages then some p.document.language else none
  positionEncoding := requested.map Producer.positionEncoding
  producerLanguages := requested.map Producer.languages

/-- The hash of the manifest of a snapshot there may be. -/
def selectedManifest (sha : Hasher) : Option Revision → Except Rejection (Option String)
  | none => pure none
  | some revision => do
      let manifest ← manifestOf sha revision
      pure (some manifest)

/-- What `freshness` compares: the captured components and the requested ones. -/
def components (sha : Hasher) (loaded : Loaded) (p : Provenance) (producer : Producer) :
    Except Rejection (Components × Components) :=
  let selected := loaded.revisionAt loaded.comparison.sourceSetId loaded.comparison.revisionId
  match producer.kind with
  | .native => pure (nativeComponents p producer,
      { nativeComponents p producer with
        documentHash := (selected.bind fun r => wantedDocument r p).map Document.contentHash
        revisionId := selected.map Revision.id
        sourceSetId := some loaded.comparison.sourceSetId })
  | .semantic => do
      let basis ← found p.basis (Rejection.plain "basis is null")
      let manifest ← selectedManifest sha selected
      pure (semanticComponents p producer basis, requestedComponents sha loaded p selected manifest
        (loaded.comparison.producers.find? fun x => x.id = basis.producerId))

def freshness (sha : Hasher) (loaded : Loaded) (p : Provenance) (producer : Producer) :
    Except Rejection Freshness := do
  let sides ← components sha loaded p producer
  assertFreshnessComponents sides.1 sides.2 p.freshness

/-! ### Both give one label -/

/-- **What has not changed where evidence is fresh**: the snapshot it was captured in. -/
structure SameSnapshot (sha : Hasher) (loaded : Loaded) (p : Provenance) (captured : Revision) :
    Prop where
  document : ∃ wanted, wantedDocument loaded.selected p = some wanted ∧
    wanted.contentHash = p.contentHash
  revision : loaded.selected.id = p.revisionId
  sourceSet : loaded.comparison.sourceSetId = p.document.sourceSetId
  manifest : manifestOf sha loaded.selected = manifestOf sha captured
  toolchain : loaded.selected.toolchainHash = captured.toolchainHash
  config : loaded.selected.configHash = captured.configHash
  dependency : loaded.selected.dependencyHash = captured.dependencyHash

/-- **And the producer**, which is requested as it was and whose bytes are at hand. -/
structure SameProducer (sha : Hasher) (loaded : Loaded) (producer : Producer) : Prop where
  requested : loaded.comparison.producers.find? (fun x => x.id = producer.id) = some producer
  available : captureExists sha loaded .executable producer.executableHash = true

section Agreement

variable {sha : Hasher} {loaded : Loaded} {p : Provenance} {producer : Producer}
  {captured : Revision}

theorem agrees_some {α : Type} [DecidableEq α] {requested : Option α} {a : α} :
    agrees requested (some a) = true ↔ requested = some a := by
  unfold agrees
  rw [Bool.and_eq_true, beq_iff_eq]
  exact ⟨fun h => h.2, fun h => ⟨by rw [h]; rfl, h⟩⟩

variable {manifest : String} {basis : SemanticBasis}

theorem selfRelations_iff :
    (∀ row ∈ selfRelations producer p captured manifest basis, row.2.2 = row.2.1) ↔
      basis.producerId = producer.id ∧ basis.producerVersion = producer.version ∧
        basis.producerHash = producer.executableHash ∧ basis.language = p.document.language ∧
        basis.sourceSetId = p.document.sourceSetId ∧ basis.revisionId = p.revisionId ∧
        basis.sourceManifestHash = manifest ∧ basis.toolchainHash = captured.toolchainHash ∧
        basis.configHash = captured.configHash ∧
        basis.dependencyHash = captured.dependencyHash := by
  have hlanguage : basis.language.text = p.document.language.text ↔
      basis.language = p.document.language :=
    ⟨Language.text_inj, congrArg Language.text⟩
  simp [selfRelations, hlanguage]

theorem requestedSnapshot_none : requestedSnapshot loaded none =
    ⟨loaded.comparison.sourceSetId, some loaded.selected, loaded.comparison.producers⟩ :=
  if_pos ⟨rfl, rfl⟩

/-- What makes syntax that was measured fresh, once its bytes are those requested. -/
def NativeFresh (loaded : Loaded) (p : Provenance) : Prop :=
  loaded.selected.id = p.revisionId ∧ loaded.comparison.sourceSetId = p.document.sourceSetId

def SemanticFresh (sha : Hasher) (loaded : Loaded) (producer : Producer) (basis : SemanticBasis)
    (manifest : String) : Prop :=
  ∃ requested, loaded.comparison.producers.find? (fun x => x.id = basis.producerId) =
      some requested ∧
    ¬ producerChanged sha loaded producer requested basis ∧
    loaded.comparison.sourceSetId = basis.sourceSetId ∧
    loaded.selected.id = basis.revisionId ∧ manifest = basis.sourceManifestHash ∧
    loaded.selected.toolchainHash = basis.toolchainHash ∧
    loaded.selected.configHash = basis.configHash ∧
    loaded.selected.dependencyHash = basis.dependencyHash

open Classical in
/-- The label of evidence: the bytes first, and then what is fresh about the rest. -/
noncomputable def labelOf (loaded : Loaded) (p : Provenance) (fresh : Prop) : Freshness :=
  if (wantedDocument loaded.selected p).map Document.contentHash = some p.contentHash then
    if fresh then .fresh else .possiblyStale
  else .stale

theorem labelOf_fresh {fresh : Prop} (h : labelOf loaded p fresh = .fresh) :
    (∃ wanted, wantedDocument loaded.selected p = some wanted ∧
      wanted.contentHash = p.contentHash) ∧ fresh := by
  unfold labelOf at h
  split at h
  · rename_i hdocument
    split at h
    · rename_i hfresh
      exact ⟨Option.map_eq_some_iff.mp hdocument, hfresh⟩
    · cases h
  · cases h

/-! ### The questions give the label -/

theorem semanticFreshness_eq (producer : Producer) (basis : SemanticBasis)
    (hmanifest : manifestOf sha loaded.selected = .ok manifest) :
    ∃ label, semanticFreshness sha loaded producer ⟨loaded.comparison.sourceSetId,
      some loaded.selected, loaded.comparison.producers⟩ loaded.selected basis = .ok label ∧
      (SemanticFresh sha loaded producer basis manifest → label = .fresh) ∧
      (¬ SemanticFresh sha loaded producer basis manifest → label = .possiblyStale) := by
  unfold semanticFreshness SemanticFresh
  cases hfind : loaded.comparison.producers.find? fun x => x.id = basis.producerId with
  | none => exact ⟨_, rfl, fun ⟨_, h, _⟩ => (nomatch h), fun _ => rfl⟩
  | some requested =>
      by_cases hproducer : producerChanged sha loaded producer requested basis ∨
          loaded.comparison.sourceSetId ≠ basis.sourceSetId ∨
          loaded.selected.id ≠ basis.revisionId
      · refine ⟨.possiblyStale, if_pos hproducer, fun ⟨_, h, hsame, hset, hrevision, _⟩ => ?_,
          fun _ => rfl⟩
        rw [← Option.some.inj h] at hsame
        tauto
      · refine ⟨_, (if_neg hproducer).trans (bind_eq_ok.mpr ⟨manifest, hmanifest, rfl⟩), ?_, ?_⟩
        · rintro ⟨_, h, -, -, -, hrest⟩
          exact if_neg (by tauto)
        · intro hnot
          refine if_pos ?_
          by_contra hsame
          exact hnot ⟨requested, rfl, by tauto⟩

theorem expectedFreshness_native (hkind : producer.kind = .native)
    (hcheck : checkCapturedBasis sha loaded p = .ok (producer, captured)) :
    expectedFreshness sha loaded p none = .ok (labelOf loaded p (NativeFresh loaded p)) := by
  unfold expectedFreshness labelOf
  refine bind_eq_ok.mpr ⟨_, hcheck, ?_⟩
  simp only [requestedSnapshot_none]
  cases wantedDocument loaded.selected p with
  | none => rfl
  | some wanted =>
      by_cases hhash : wanted.contentHash = p.contentHash
      · simp only [hkind, hhash, ne_eq, not_true_eq_false, if_false, Option.map_some, if_true]
        by_cases hfresh : NativeFresh loaded p
        · rw [if_pos hfresh]; exact congrArg Except.ok (if_pos hfresh)
        · rw [if_neg hfresh]; exact congrArg Except.ok (if_neg hfresh)
      · simp only [ne_eq, hhash, not_false_eq_true, if_true, Option.map_some, Option.some.injEq,
          if_false]
        rfl

theorem expectedFreshness_semantic (hkind : producer.kind = .semantic)
    (hbasis : p.basis = some basis) (hmanifest : manifestOf sha loaded.selected = .ok manifest)
    (hcheck : checkCapturedBasis sha loaded p = .ok (producer, captured)) :
    expectedFreshness sha loaded p none =
      .ok (labelOf loaded p (SemanticFresh sha loaded producer basis manifest)) := by
  obtain ⟨label, hlabel, hfresh, hstale⟩ :=
    semanticFreshness_eq producer basis hmanifest
  unfold expectedFreshness labelOf
  refine bind_eq_ok.mpr ⟨_, hcheck, ?_⟩
  simp only [requestedSnapshot_none]
  cases wantedDocument loaded.selected p with
  | none => rfl
  | some wanted =>
      by_cases hhash : wanted.contentHash = p.contentHash
      · simp only [hkind, hhash, ne_eq, not_true_eq_false, if_false, Option.map_some, if_true]
        refine bind_eq_ok.mpr ⟨basis, found_eq_ok.mpr hbasis, ?_⟩
        rw [hlabel]
        by_cases h : SemanticFresh sha loaded producer basis manifest
        · rw [if_pos h, hfresh h]
        · rw [if_neg h, hstale h]
      · simp only [ne_eq, hhash, not_false_eq_true, if_true, Option.map_some, Option.some.injEq,
          if_false]
        rfl

/-! ### And so do the components -/

theorem compare_eq {fresh : Prop} {left right : Components}
    (hhash : left.documentHash = some p.contentHash)
    (hdocument : right.documentHash =
      (wantedDocument loaded.selected p).map Document.contentHash)
    (hfresh : (agreements left right).all id = true ↔ fresh) :
    compareFreshnessComponents left right = labelOf loaded p fresh := by
  unfold compareFreshnessComponents labelOf
  rw [hhash, hdocument]
  by_cases h : (wantedDocument loaded.selected p).map Document.contentHash = some p.contentHash
  · rw [if_pos h, if_neg (by rw [agrees_some.mpr h]; exact Bool.noConfusion)]
    by_cases hall : (agreements left right).all id = true
    · rw [if_pos hall, if_pos (hfresh.mp hall)]
    · rw [if_neg hall, if_neg fun hf => hall (hfresh.mpr hf)]
  · rw [if_neg h, if_pos (Bool.eq_false_iff.mpr fun ha => h (agrees_some.mp ha))]

theorem components_native (p : Provenance) (hadmitted : loaded.Admitted sha) (hkind : producer.kind = .native) :
    ∃ left right, components sha loaded p producer = .ok (left, right) ∧
      compareFreshnessComponents left right = labelOf loaded p (NativeFresh loaded p) := by
  unfold components
  simp only [hkind, hadmitted.selected]
  refine ⟨_, _, rfl, compare_eq rfl rfl ?_⟩
  simp [agreements, nativeComponents, agrees_some, NativeFresh]

theorem components_semantic (hadmitted : loaded.Admitted sha) (hkind : producer.kind = .semantic)
    (hbasis : p.basis = some basis) (hmanifest : manifestOf sha loaded.selected = .ok manifest)
    (hid : basis.producerId = producer.id) (hversion : basis.producerVersion = producer.version)
    (hhash : basis.producerHash = producer.executableHash)
    (hlanguage : basis.language = p.document.language) :
    ∃ left right, components sha loaded p producer = .ok (left, right) ∧
      compareFreshnessComponents left right =
        labelOf loaded p (SemanticFresh sha loaded producer basis manifest) := by
  unfold components
  simp only [hkind, hadmitted.selected]
  refine ⟨_, _, bind_eq_ok.mpr ⟨basis, found_eq_ok.mpr hbasis, bind_eq_ok.mpr
    ⟨some manifest, bind_eq_ok.mpr ⟨manifest, hmanifest, rfl⟩, rfl⟩⟩, compare_eq rfl rfl ?_⟩
  unfold SemanticFresh
  cases hfind : loaded.comparison.producers.find? fun x => x.id = basis.producerId with
  | none => simp [agreements, requestedComponents, semanticComponents, agrees_some]
  | some requested =>
      have hrequested : requested.id = basis.producerId := by
        simpa using List.find?_some hfind
      simp [agreements, requestedComponents, semanticComponents, agrees_some, producerChanged,
        hid, hversion, hhash, hlanguage, hkind, hrequested]
      tauto

theorem sameSnapshot_native (hadmitted : loaded.Admitted sha)
    (hcaptured : Captured sha loaded p producer captured)
    (h : labelOf loaded p (NativeFresh loaded p) = .fresh) :
    SameSnapshot sha loaded p captured := by
  obtain ⟨hdocument, hrevision, hset⟩ := labelOf_fresh h
  obtain ⟨document, hfound, -⟩ := hcaptured.documented
  obtain ⟨revision, hat, hfound⟩ := Option.bind_eq_some_iff.mp hfound
  obtain ⟨document', -, hpair⟩ := Option.bind_eq_some_iff.mp hfound
  have hcapture : revision = captured := congrArg Prod.fst (Option.some.inj hpair)
  have hid : loaded.comparison.revisionId = p.revisionId := by
    have hsome := List.find?_some hadmitted.selected
    rw [decide_eq_true_iff] at hsome
    exact hsome.2.symm.trans hrevision
  have hselected : loaded.selected = captured := by
    have heq := hadmitted.selected
    rw [hset, hid, hat, hcapture] at heq
    exact (Option.some.inj heq).symm
  exact ⟨hdocument, hrevision, hset, by rw [hselected], by rw [hselected], by rw [hselected],
    by rw [hselected]⟩

theorem same_of_semanticFresh {captures : String} (hkind : producer.kind = .semantic)
    (hmanifest : manifestOf sha loaded.selected = .ok manifest)
    (hcaptures : manifestOf sha captured = .ok captures)
    (hrelations : ∀ row ∈ selfRelations producer p captured captures basis, row.2.2 = row.2.1)
    (h : labelOf loaded p (SemanticFresh sha loaded producer basis manifest) = .fresh) :
    SameSnapshot sha loaded p captured ∧ SameProducer sha loaded producer := by
  obtain ⟨hid, hversion, hhash, -, hset, hrevision, hsame, htoolchain, hconfig, hdependency⟩ :=
    selfRelations_iff.mp hrelations
  obtain ⟨hdocument, requested, hrequested, hchanged, hset', hrevision', hmanifest', htoolchain',
    hconfig', hdependency'⟩ := labelOf_fresh h
  unfold producerChanged at hchanged
  simp only [not_or, ne_eq, not_not, Bool.not_eq_false] at hchanged
  obtain ⟨hkind', -, hversion', hhash', hencoding, hlanguages, havailable⟩ := hchanged
  have hrequestedId : requested.id = basis.producerId := by
    simpa using List.find?_some hrequested
  have heq : requested = producer := by
    cases requested
    cases producer
    simp only [Producer.mk.injEq]
    exact ⟨hrequestedId.trans hid, hversion'.trans hversion, hhash'.trans hhash,
      hkind'.trans hkind.symm, hlanguages, hencoding⟩
  subst heq
  refine ⟨⟨hdocument, hrevision'.trans hrevision, hset'.trans hset, ?_,
    htoolchain'.trans htoolchain, hconfig'.trans hconfig, hdependency'.trans hdependency⟩, ?_, havailable⟩
  · rw [hmanifest, hcaptures, hmanifest', hsame]
  · rw [← hid]; exact hrequested

end Agreement

/-- **The two checkers agree.**  Of evidence that both take, one expects the label that the other
derives from the components.  Where that label is fresh, nothing of the snapshot has changed, and
nothing of the producer of semantic evidence. -/
theorem freshness_agrees {sha : Hasher} {disk : Disk} {fixture : Fixture} {loaded : Loaded}
    {p : Provenance} {producer producer' : Producer} {captured : Revision}
    (hload : loadFixture sha disk fixture = .ok loaded)
    (hcheck : checkCapturedBasis sha loaded p = .ok (producer, captured))
    (hbasis : capturedBasis sha loaded p (loaded.proofOf p.id) = .ok producer') :
    ∃ left right label, components sha loaded p producer' = .ok (left, right) ∧
      compareFreshnessComponents left right = label ∧
      expectedFreshness sha loaded p none = .ok label ∧
      (label = .fresh → SameSnapshot sha loaded p captured ∧
        (producer.kind = .semantic → SameProducer sha loaded producer)) := by
  have hadmitted := loadFixture_admitted hload
  have hcaptured := checkCapturedBasis_eq_ok hcheck
  obtain ⟨captured', hcaptured'⟩ := capturedBasis_eq_ok hbasis
  obtain rfl : producer' = producer :=
    Option.some.inj (hcaptured'.produced.symm.trans hcaptured.produced)
  cases hkind : producer'.kind with
  | native =>
      obtain ⟨left, right, hcomponents, hlabel⟩ := components_native p hadmitted hkind
      refine ⟨left, right, _, hcomponents, hlabel, expectedFreshness_native hkind hcheck,
        fun hfresh => ⟨sameSnapshot_native hadmitted hcaptured hfresh, fun h => ?_⟩⟩
      cases h
  | semantic =>
      obtain ⟨basis, captures, hsome, hcaptures, hrelations, -⟩ := hcaptured.semantic hkind
      obtain ⟨manifest, hmanifest⟩ :=
        manifest_isOk sha (hadmitted.revisions _ (List.mem_of_find?_eq_some hadmitted.selected))
      obtain ⟨hid, hversion, hhash, hlanguage, -⟩ := selfRelations_iff.mp hrelations
      obtain ⟨left, right, hcomponents, hlabel⟩ := components_semantic hadmitted hkind hsome
        hmanifest hid hversion hhash hlanguage
      refine ⟨left, right, _, hcomponents, hlabel,
        expectedFreshness_semantic hkind hsome hmanifest hcheck, fun hfresh => ?_⟩
      obtain ⟨hsnapshot, hproducer⟩ :=
        same_of_semanticFresh hkind hmanifest hcaptures hrelations hfresh
      exact ⟨hsnapshot, fun _ => hproducer⟩

/-- Evidence of a fixture that loads and is asked about as it was captured. -/
theorem freshness_agrees_evidence : ∃ left right label,
    components Naming.zeros (Naming.loaded Naming.zeros "k") (Naming.evidence Naming.zeros "k")
      (Naming.producer Naming.zeros) = .ok (left, right) ∧
    compareFreshnessComponents left right = label ∧
    expectedFreshness Naming.zeros (Naming.loaded Naming.zeros "k")
      (Naming.evidence Naming.zeros "k") none = .ok label ∧
    (label = .fresh → SameSnapshot Naming.zeros (Naming.loaded Naming.zeros "k")
        (Naming.evidence Naming.zeros "k") (Naming.revision Naming.zeros) ∧
      ((Naming.producer Naming.zeros).kind = .semantic →
        SameProducer Naming.zeros (Naming.loaded Naming.zeros "k") (Naming.producer Naming.zeros))) :=
  freshness_agrees (Naming.loadFixture_fixture Naming.zeros "k")
    (Naming.checkCapturedBasis_evidence Naming.zeros (by decide) (by decide))
    (Naming.capturedBasis_evidence Naming.zeros (by decide) (by decide))

/-! ### Syntax whose producer is not requested -/

namespace Measured

def producer : Producer := ⟨"n", "1", Naming.zeros.hex [], .native, [.rust], .utf8⟩

def fixture : Fixture where
  language := .rust
  producers := [producer]
  revisions := [Naming.captured Naming.zeros]
  comparison := ⟨"s", "r", []⟩
  semanticArtifacts := []
  captures := [⟨"exe", .executable, "b", Naming.zeros.hex []⟩,
    ⟨"tool", .toolchain, "c", Naming.zeros.hex []⟩, ⟨"config", .config, "d", Naming.zeros.hex []⟩,
    ⟨"dep", .dependency, "e", Naming.zeros.hex []⟩]

def disk : Disk where
  read path := found (Naming.files.lookup path) (.plain "declared input missing")
  isUtf8 _ := true
  producerOf _ := pure "n"
  proofs _ _ := pure []

def loaded : Loaded where
  fixture := fixture
  selected := Naming.revision Naming.zeros
  revisions := [Naming.revision Naming.zeros]
  captures := [⟨⟨"exe", .executable, "b", Naming.zeros.hex []⟩, [1]⟩,
    ⟨⟨"tool", .toolchain, "c", Naming.zeros.hex []⟩, [2]⟩,
    ⟨⟨"config", .config, "d", Naming.zeros.hex []⟩, [3]⟩,
    ⟨⟨"dep", .dependency, "e", Naming.zeros.hex []⟩, [4]⟩]
  semanticBytes := []
  semanticProofs := []

def syntaxProof : Provenance where
  id := "e"
  producerId := "n"
  document := Naming.key
  revisionId := "r"
  contentHash := Naming.zeros.hex [0]
  evidenceKind := .measuredSyntax
  basis := none
  freshness := .fresh

end Measured

/-- **Syntax is fresh though its producer is not requested.** -/
theorem freshness_unrequested :
    loadFixture Naming.zeros Measured.disk Measured.fixture = .ok Measured.loaded ∧
    checkCapturedBasis Naming.zeros Measured.loaded Measured.syntaxProof =
      .ok (Measured.producer, Naming.revision Naming.zeros) ∧
    capturedBasis Naming.zeros Measured.loaded Measured.syntaxProof
      (Measured.loaded.proofOf Measured.syntaxProof.id) = .ok Measured.producer ∧
    expectedFreshness Naming.zeros Measured.loaded Measured.syntaxProof none = .ok .fresh ∧
    ¬ SameProducer Naming.zeros Measured.loaded Measured.producer := by
  refine ⟨rfl, rfl, rfl, rfl, fun h => ?_⟩
  cases h.requested

end Baleyg.Contract
