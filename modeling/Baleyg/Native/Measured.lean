/-
What a document's facts are like.

`Measured` says everything about the facts of one document that the check of an artifact
looks at, in terms of the records themselves and of a registry that knows their identities.
It is `Recorded` with the numbering done: a region has its identity and not its pending id,
and so have the calls and regions that name it.
-/
import Baleyg.Native.Finish

namespace Baleyg.Native

open Fallible (ensure bind_eq_ok ensure_eq_ok)

/-! ### Finished records -/

/-- A region of an owner around a range, under its identity. -/
def Encloses (rs : List ControlRegion) (owner : String) (range : Range) (id : String)
    (r : ControlRegion) : Prop :=
  r ∈ rs ∧ r.id = id ∧ r.ownerSyntaxId = owner ∧ range.within r.range

structure RegionMeasured (c : Context) (ds : List Declaration) (rs : List ControlRegion)
    (ids : IdentityRegistry) (r : ControlRegion) : Prop where
  document : r.document = c.document
  revision : r.revisionId = c.revisionId
  proof : r.provenanceId = c.proofId
  spanned : Spanned c.file.text r.range
  owner : ∃ d ∈ ds, d.syntaxId = r.ownerSyntaxId
  id : r.id = occurrenceId c.libs.sha (c.occurrenceInput r.ownerSyntaxId .control r.ordinal)
  known : IdentityRegistry.HasOccurrence c.libs.sha ids
    (c.occurrenceInput r.ownerSyntaxId .control r.ordinal)
  parent : ∀ id ∈ r.parentId, ∃ parent, Encloses rs r.ownerSyntaxId r.range id parent ∧
    parent.id ≠ r.id

structure CallMeasured (c : Context) (ds : List Declaration) (rs : List ControlRegion)
    (ids : IdentityRegistry) (call : Call) : Prop where
  document : call.document = c.document
  revision : call.revisionId = c.revisionId
  proof : call.provenanceId = c.proofId
  spanned : Spanned c.file.text call.range
  owner : ∃ d ∈ ds, d.syntaxId = call.ownerSyntaxId
  callee : call.spelling ≠ some "" ∧ ∀ r ∈ call.calleeRange,
    r.within call.range ∧ call.spelling = get c.file.text r ∧ call.spelling ≠ none
  id : call.id = occurrenceId c.libs.sha (c.occurrenceInput call.ownerSyntaxId .call call.ordinal)
  known : IdentityRegistry.HasOccurrence c.libs.sha ids
    (c.occurrenceInput call.ownerSyntaxId .call call.ordinal)
  regions : ∀ id ∈ call.regionIds, ∃ r, Encloses rs call.ownerSyntaxId call.range id r

/-! ### From pending ids to identities -/

section Finished

variable {c : Context} {s s' : ParserState} {replaced : List (String × String)}

theorem Recorded.pending_unique (hs : Recorded c s) {a b : ControlRegion × Nat}
    (ha : a ∈ s.controlRegions.zipIdx) (hb : b ∈ s.controlRegions.zipIdx)
    (h : a.1.id = b.1.id) : a = b := by
  have hlength : ∀ r ∈ s.controlRegions, r.ownerSyntaxId.toList.length = 39 := fun r hr => by
    obtain ⟨d, hd, hid⟩ := (hs.controlRegions r hr).owner
    rw [← hid, (hs.stable d hd).1]
    exact stableId_length _ _
  have hmem := List.fst_mem_of_mem_zipIdx ha
  have hmem' := List.fst_mem_of_mem_zipIdx hb
  rw [(hs.controlRegions _ hmem).id, (hs.controlRegions _ hmem').id] at h
  obtain ⟨howner, hrange⟩ :=
    Context.pendingId_inj ((hlength _ hmem).trans (hlength _ hmem').symm) h
  have hnodup : (s.controlRegions.zipIdx.map fun row => (row.1.ownerSyntaxId, row.1.range)).Nodup := by
    have hmap := hs.controlsNodup
    rw [← List.zipIdx_map_fst 0 s.controlRegions, List.map_map] at hmap
    exact hmap
  exact List.inj_on_of_nodup_map hnodup ha hb (Prod.ext howner hrange)

/-- **A region that was around a range still is, under its identity.** -/
theorem Finished.encloses (hs : Recorded c s) (hf : Finished c s s' replaced)
    {owner id new : String} {range : Range} {r : ControlRegion}
    (hr : Around s.controlRegions owner range id r) (hnew : replaced.lookup id = some new) :
    ∃ row ∈ s.controlRegions.zipIdx, row.1 = r ∧
      Encloses s'.controlRegions owner range (renamed replaced id)
        (c.finishedRegion s.controlRegions replaced row) := by
  obtain ⟨row, hrow, hid, rfl⟩ := hf.found id new hnew
  obtain ⟨hmem, hid', howner, hwithin⟩ := hr
  obtain ⟨i, hi⟩ := exists_index hmem
  have hsame : row = (r, i) := hs.pending_unique hrow hi (hid.trans hid'.symm)
  refine ⟨row, hrow, congrArg Prod.fst hsame, ?_, ?_, ?_, ?_⟩
  · rw [hf.controlRegions]; exact List.mem_map_of_mem hrow
  · unfold renamed
    rw [hnew]
    rfl
  · rw [hsame]; exact howner
  · rw [hsame]; exact hwithin

theorem Finished.identity_unique (hf : Finished c s s' replaced) {a b : ControlRegion × Nat}
    (ha : a ∈ s.controlRegions.zipIdx) (hb : b ∈ s.controlRegions.zipIdx)
    (h : (c.finishedRegion s.controlRegions replaced a).id =
      (c.finishedRegion s.controlRegions replaced b).id) : a = b := by
  have hinput := (hf.knownControls a ha).inj (hf.knownControls b hb) h
  unfold Context.occurrenceInput at hinput
  rw [OccurrenceInput.mk.injEq] at hinput
  exact Groups.place_inj ha hinput.2.2.2.2.1 hinput.2.2.2.2.2.2

theorem Finished.regionMeasured (hs : Recorded c s) (hf : Finished c s s' replaced) :
    ∀ r ∈ s'.controlRegions,
      RegionMeasured c s'.declarations s'.controlRegions s'.ids r := by
  intro r hr
  rw [hf.controlRegions] at hr
  obtain ⟨row, hrow, rfl⟩ := List.mem_map.mp hr
  have hsound := hs.controlRegions row.1 (List.fst_mem_of_mem_zipIdx hrow)
  refine ⟨hsound.document, hsound.revision, hsound.proof, hsound.spanned, ?_, rfl,
    hf.knownControls row hrow, fun id hid => ?_⟩
  · rw [hf.declarations]; exact hsound.owner
  · obtain ⟨pending, hpending, rfl⟩ := Option.map_eq_some_iff.mp hid
    obtain ⟨parent, haround, hne⟩ := hsound.parent pending hpending
    obtain ⟨new, hnew⟩ := hf.parents row.1 (List.fst_mem_of_mem_zipIdx hrow) pending hpending
    obtain ⟨prow, hprow, rfl, hencloses⟩ := hf.encloses hs haround hnew
    refine ⟨_, hencloses, fun hsame => hne ?_⟩
    rw [hf.identity_unique hprow hrow hsame]

theorem Finished.callMeasured (hs : Recorded c s) (hf : Finished c s s' replaced) :
    ∀ call ∈ s'.calls, CallMeasured c s'.declarations s'.controlRegions s'.ids call := by
  intro call hcall
  rw [hf.calls] at hcall
  obtain ⟨row, hrow, rfl⟩ := List.mem_map.mp hcall
  have hmem := List.fst_mem_of_mem_zipIdx hrow
  have hsound := hs.calls row.1 hmem
  refine ⟨hsound.document, hsound.revision, hsound.proof, hsound.spanned, ?_, hsound.callee, rfl,
    hf.knownCalls row hrow, fun id hid => ?_⟩
  · rw [hf.declarations]; exact hsound.owner
  · obtain ⟨pending, hpending, rfl⟩ := List.mem_map.mp hid
    obtain ⟨r, haround⟩ := hsound.regions pending hpending
    obtain ⟨new, hnew⟩ := hf.regions row.1 hmem pending hpending
    obtain ⟨rrow, -, -, hencloses⟩ := hf.encloses hs haround hnew
    exact ⟨_, hencloses⟩

/-- **The places are the numbers.** -/
theorem Finished.controlNumbers (hf : Finished c s s' replaced) :
    Groups.Numbered ControlRegion.ownerSyntaxId (fun a b => a.range.le b.range)
      ControlRegion.ordinal s'.controlRegions := by
  rw [hf.controlRegions]
  exact (Groups.numbered_place (nodup_zipIdx s.controlRegions)).map (fun _ _ => rfl)
    (fun _ _ _ _ => rfl) fun _ _ => rfl

theorem Finished.callNumbers (hf : Finished c s s' replaced) :
    Groups.Numbered Call.ownerSyntaxId (fun a b => a.range.le b.range) Call.ordinal s'.calls := by
  rw [hf.calls]
  exact (Groups.numbered_place (nodup_zipIdx s.calls)).map (fun _ _ => rfl)
    (fun _ _ _ _ => rfl) fun _ _ => rfl

theorem Finished.controlRanges (hf : Finished c s s' replaced) :
    (s'.controlRegions.map fun r => (r.ownerSyntaxId, r.range)) =
      s.controlRegions.map fun r => (r.ownerSyntaxId, r.range) := by
  rw [hf.controlRegions, List.map_map]
  conv_rhs => rw [← List.zipIdx_map_fst 0 s.controlRegions, List.map_map]
  rfl

theorem Finished.callRanges (hf : Finished c s s' replaced) :
    (s'.calls.map fun call => (call.ownerSyntaxId, call.range)) =
      s.calls.map fun call => (call.ownerSyntaxId, call.range) := by
  rw [hf.calls, List.map_map]
  conv_rhs => rw [← List.zipIdx_map_fst 0 s.calls, List.map_map]
  rfl

theorem Finished.ranges (hf : Finished c s s' replaced) : s'.ranges = s.ranges := by
  have hcontrols := congrArg (List.map Prod.snd) hf.controlRanges
  have hcalls := congrArg (List.map Prod.snd) hf.callRanges
  rw [List.map_map, List.map_map] at hcontrols hcalls
  unfold ParserState.ranges
  rw [hf.declarations]
  exact congrArg _ (congrArg₂ _ hcontrols hcalls)

end Finished

/-! ### One document -/

namespace Context

variable (c : Context)

def coverage (hasError : Bool) (s : ParserState) : Coverage :=
  { producerId := producerId
    language := c.file.language
    sourceSetId := c.sourceSetId
    documentPath := c.file.path
    revisionId := c.revisionId
    requested := true
    selected := true
    state := if hasError || s.opaqueRust then .partly else .complete
    supportedRoles := [.definition, .call]
    observedRoles := (if s.sawDefinition then [.definition] else []) ++
      if s.sawCall then [.call] else []
    diagnostic := diagnostic hasError s.opaqueRust }

def provenance : Provenance :=
  ⟨c.proofId, producerId, c.document, c.revisionId, c.file.hash, "measuredSyntax", none, "fresh",
    none⟩

def moduleAt (range : Range) : Declaration :=
  ⟨stableId c.libs.sha (c.stableInput [] moduleKey), c.document, c.revisionId, .moduleItem, none,
    none, [], moduleKey, range, none, ⟨.moduleItem, none, [], [], [], none, []⟩, c.proofId⟩

def rootPlace : Place := ⟨stableId c.libs.sha (c.stableInput [] moduleKey), [], [], 0, []⟩

def start (range : Range) (ids : IdentityRegistry) : ParserState :=
  ⟨[c.moduleAt range], [], [], ids, [], fun _ => 0, fun _ => 0, fun _ => 0, false, false, 0, false⟩

end Context

/-- The ranges of all facts of a document but the document itself. -/
def innerRanges (ds : List Declaration) (facts : DocumentFacts) : List Range :=
  ds.map Declaration.range ++
    (facts.controlRegions.map ControlRegion.range ++ facts.calls.map Call.range)

/-- **What the facts of a document are like.** -/
structure Measured (c : Context) (root : Node) (facts : DocumentFacts) (ids : IdentityRegistry) :
    Prop where
  coverage : ∃ hasError s, facts.coverage = c.coverage hasError s
  provenance : facts.provenance = c.provenance
  declared : ∃ ds, facts.declarations = c.moduleAt root.range :: ds ∧
    (∀ d ∈ ds, d.kind ≠ .moduleItem) ∧ (innerRanges ds facts).Perm (measured c.file root [])
  declarations : ∀ d ∈ facts.declarations, DeclarationSound c d
  stable : ∀ d ∈ facts.declarations,
    d.syntaxId = stableId c.libs.sha (c.stableInput d.ancestors d.key) ∧
      IdentityRegistry.HasStable c.libs.sha ids (c.stableInput d.ancestors d.key)
  ordered : Ordered facts.declarations
  declarationNumbers : Groups.Numbered Declaration.ordinalKey declarationLe
    (fun d => d.key.ordinal) facts.declarations
  calls : ∀ call ∈ facts.calls,
    CallMeasured c facts.declarations facts.controlRegions ids call
  controlRegions : ∀ r ∈ facts.controlRegions,
    RegionMeasured c facts.declarations facts.controlRegions ids r
  callNumbers : Groups.Numbered Call.ownerSyntaxId (fun a b => a.range.le b.range) Call.ordinal
    facts.calls
  controlNumbers : Groups.Numbered ControlRegion.ownerSyntaxId (fun a b => a.range.le b.range)
    ControlRegion.ordinal facts.controlRegions
  callsNodup : (facts.calls.map fun call => (call.ownerSyntaxId, call.range)).Nodup
  controlsNodup : (facts.controlRegions.map fun r => (r.ownerSyntaxId, r.range)).Nodup

section Document

variable {c : Context} {root : Node} {ids : IdentityRegistry}

theorem moduleAt_sound (hroot : root.Shaped c.file.text) :
    DeclarationSound c (c.moduleAt root.range) :=
  ⟨rfl, rfl, rfl, rfl, rfl, ⟨rfl, rfl⟩, hroot.spanned, .inl ⟨rfl, rfl, rfl⟩, .inr rfl,
    fun _ => ⟨rfl, rfl⟩⟩

/-- **A walk begins in the invariant.** -/
theorem start_recorded (hroot : root.Shaped c.file.text)
    (hids : IdentityRegistry.HasStable c.libs.sha ids (c.stableInput [] moduleKey)) :
    Recorded c (c.start root.range ids) := by
  refine
    { declarations := fun d hd => ?_, stable := fun d hd => ?_, counted := fun k hk => ?_,
      numbered := fun hordered => ?_, calls := fun _ h => absurd h List.not_mem_nil,
      controlRegions := fun _ h => absurd h List.not_mem_nil,
      seenCalls := fun _ h => absurd h List.not_mem_nil,
      seenControls := fun _ h => absurd h List.not_mem_nil, callsNodup := List.nodup_nil,
      controlsNodup := List.nodup_nil }
  · rw [List.mem_singleton.mp hd]; exact moduleAt_sound hroot
  · rw [List.mem_singleton.mp hd]; exact ⟨rfl, hids⟩
  · have hne : (c.moduleAt root.range).ordinalKey ≠ k := by
      rintro rfl
      exact hk rfl
    show 0 = ([c.moduleAt root.range].filter fun d => d.ordinalKey = k).length
    rw [List.filter_cons_of_neg (by simpa using hne), List.filter_nil, List.length_nil]
  · exact Groups.numbered_nil.concat (List.pairwise_singleton _ _) rfl

theorem start_placed : Placed c.rootPlace root.range (c.start root.range ids) :=
  ⟨⟨c.moduleAt root.range, List.mem_cons_self, rfl⟩, fun _ h => absurd h List.not_mem_nil⟩

/-- **A walk from the root, finished, measures the document.** -/
theorem measured_of_walk {s s' : ParserState} {hasError : Bool} (hroot : root.Shaped c.file.text)
    (hids : IdentityRegistry.HasStable c.libs.sha ids (c.stableInput [] moduleKey))
    (hwalk : c.walk root c.rootPlace (c.start root.range ids) = .ok s)
    (hfinish : c.finishOccurrences s = .ok s') :
    Measured c root
      ⟨c.coverage hasError s', c.provenance, s'.declarations, s'.calls, s'.controlRegions⟩
      s'.ids := by
  have hs : Recorded c s := Context.walk_keeps hroot start_placed (start_recorded hroot hids) hwalk
  obtain ⟨replaced, hf⟩ := finish_ok hfinish
  obtain ⟨ds, hadded, -, -, hkinds, hordered⟩ := Context.walk_declares hroot hwalk
  have hcons : s'.declarations = c.moduleAt root.range :: ds := hf.declarations.trans hadded
  have hall : Ordered s'.declarations := by
    rw [hcons]
    refine List.pairwise_cons.mpr ⟨fun d hd hkey => absurd ?_ (hkinds d hd), hordered⟩
    exact (congrArg (fun k : OrdinalKey => k.2.1) hkey).symm
  refine
    { coverage := ⟨hasError, s', rfl⟩, provenance := rfl, declared := ⟨ds, hcons, hkinds, ?_⟩,
      declarations := ?_, stable := ?_, ordered := hall, declarationNumbers := ?_,
      calls := hf.callMeasured hs, controlRegions := hf.regionMeasured hs,
      callNumbers := hf.callNumbers, controlNumbers := hf.controlNumbers, callsNodup := ?_,
      controlsNodup := ?_ }
  · have hranges := Context.walk_ranges hwalk
    rw [← hf.ranges] at hranges
    have hperm : (root.range :: innerRanges ds
        ⟨c.coverage hasError s', c.provenance, s'.declarations, s'.calls, s'.controlRegions⟩).Perm
        (root.range :: measured c.file root []) := by
      have hsame : s'.ranges = root.range :: innerRanges ds
          ⟨c.coverage hasError s', c.provenance, s'.declarations, s'.calls,
            s'.controlRegions⟩ := by
        unfold ParserState.ranges innerRanges
        rw [hcons]
        rfl
      rw [← hsame]
      exact hranges
    exact hperm.cons_inv
  · show ∀ d ∈ s'.declarations, _
    rw [hf.declarations]
    exact hs.declarations
  · show ∀ d ∈ s'.declarations, _
    rw [hf.declarations]
    exact fun d hd => ⟨(hs.stable d hd).1, (hs.stable d hd).2.mono hf.within⟩
  · show Groups.Numbered _ _ _ s'.declarations
    rw [hf.declarations] at hall ⊢
    exact hs.numbered hall
  · show (s'.calls.map _).Nodup
    rw [hf.callRanges]
    exact hs.callsNodup
  · show (s'.controlRegions.map _).Nodup
    rw [hf.controlRanges]
    exact hs.controlsNodup

end Document

theorem Measured.mono {c : Context} {root : Node} {facts : DocumentFacts}
    {ids ids' : IdentityRegistry} (h : Measured c root facts ids) (hids : ids.Within ids') :
    Measured c root facts ids' :=
  { h with
    stable := fun d hd => ⟨(h.stable d hd).1, (h.stable d hd).2.mono hids⟩
    calls := fun call hcall =>
      { h.calls call hcall with known := (h.calls call hcall).known.mono hids }
    controlRegions := fun r hr =>
      { h.controlRegions r hr with known := (h.controlRegions r hr).known.mono hids } }

/-! ### The documents of an artifact -/

section Artifact

variable (libs : Libraries) (h : Artifact)

/-- What a walk over a file of an artifact does not change. -/
def contextOf (f : SourceFile) : Context :=
  let key : DocumentKey := ⟨h.sourceSet.id, f.language, f.path⟩
  ⟨libs, h.producer, h.sourceSet.id, h.revision.id, f, key, proofId libs.sha key h.revision.id,
    extractionContext libs.sha f.language⟩

/-- A file that was extracted, with its document and its facts. -/
structure Extracted (ids : IdentityRegistry) (entry : SourceFile × Document)
    (facts : DocumentFacts) : Prop where
  path : safePath entry.1.path = .ok ()
  hash : entry.1.hash = libs.sha.hash entry.1.text
  document : entry.2.key = ⟨h.sourceSet.id, entry.1.language, entry.1.path⟩ ∧
    entry.2.contentHash = entry.1.hash ∧ entry.2.byteLength = byteLength entry.1.text
  producer : h.producer.id = producerId ∧ h.producer.version = nativeVersion
  measured : ∃ tree, libs.parse entry.1.language entry.1.text = some tree ∧
    Measured (contextOf libs h entry.1) tree.root facts ids

variable {libs h}

variable {ids ids' : IdentityRegistry}

theorem Extracted.mono {entry : SourceFile × Document} {facts : DocumentFacts}
    (he : Extracted libs h ids entry facts) (hids : ids.Within ids') :
    Extracted libs h ids' entry facts := by
  obtain ⟨tree, htree, hmeasured⟩ := he.measured
  exact { he with measured := ⟨tree, htree, hmeasured.mono hids⟩ }

/-- **What is measured of a document is sound.** -/
theorem measureDocument_ok {f : SourceFile} {document : Document} {facts : DocumentFacts}
    (hm : measureDocument libs h.producer h.sourceSet h.revision f document ids = .ok (facts, ids')) :
    ids.Within ids' ∧ Extracted libs h ids' (f, document) facts := by
  unfold measureDocument at hm
  obtain ⟨_, hpath, hm⟩ := bind_eq_ok.mp hm
  obtain ⟨_, hhash, hm⟩ := bind_eq_ok.mp hm
  obtain ⟨_, hdocument, hm⟩ := bind_eq_ok.mp hm
  obtain ⟨context, hcontext, hm⟩ := bind_eq_ok.mp hm
  obtain ⟨_, hproducer, hcontext⟩ := bind_eq_ok.mp hcontext
  cases hcontext
  cases htree : libs.parse f.language f.text with
  | none => rw [htree] at hm; cases hm
  | some tree =>
      rw [htree] at hm
      obtain ⟨⟨id, ids₁⟩, hstable, hm⟩ := bind_eq_ok.mp hm
      obtain ⟨rfl, hwithin, hknown⟩ := IdentityRegistry.stable_ok hstable
      obtain ⟨s, hwalk, hm⟩ := bind_eq_ok.mp hm
      obtain ⟨s', hfinish, hm⟩ := bind_eq_ok.mp hm
      cases hm
      have hroot := libs.shaped _ _ _ htree
      obtain ⟨replaced, hf⟩ := finish_ok hfinish
      obtain ⟨hset, hlanguage, hdpath, hcontent, hlength⟩ := ensure_eq_ok.mp hdocument
      refine ⟨hwithin.trans ((Context.walk_adds hwalk).ids.trans hf.within),
        { path := hpath, hash := ensure_eq_ok.mp hhash, document := ⟨?_, hcontent, hlength⟩,
          producer := ensure_eq_ok.mp hproducer,
          measured := ⟨tree, htree, measured_of_walk (c := contextOf libs h f) hroot hknown hwalk
            hfinish⟩ }⟩
      rw [← hset, ← hlanguage, ← hdpath]

/-- **The loop over the files adds the facts of each.** -/
theorem extractAll_ok {todo : List (SourceFile × Document)} {a a' : Artifact}
    (hm : extractAll libs todo (a, ids) = .ok (a', ids')) :
    ids.Within ids' ∧ ∃ all : List DocumentFacts,
      List.Forall₂ (Extracted libs a ids') todo all ∧ a' = all.foldl Artifact.add a := by
  induction todo generalizing a ids with
  | nil => cases hm; exact ⟨.refl _, [], .nil, rfl⟩
  | cons entry todo ih =>
      obtain ⟨f, document⟩ := entry
      obtain ⟨⟨a₁, ids₁⟩, hknown, hm⟩ := bind_eq_ok.mp hm
      obtain ⟨⟨facts, ids₂⟩, hfacts, hknown⟩ := bind_eq_ok.mp hknown
      cases hknown
      obtain ⟨hwithin, hextracted⟩ := measureDocument_ok hfacts
      obtain ⟨hwithin', all, hall, rfl⟩ := ih hm
      have hall' : List.Forall₂ (Extracted libs a ids') todo all :=
        hall.imp fun _ _ h => ⟨h.path, h.hash, h.document, h.producer, h.measured⟩
      exact ⟨hwithin.trans hwithin', facts :: all, .cons (hextracted.mono hwithin') hall', rfl⟩

theorem foldl_add (all : List DocumentFacts) (a : Artifact) :
    all.foldl Artifact.add a =
      { a with
        coverage := a.coverage ++ all.map DocumentFacts.coverage
        provenance := a.provenance ++ all.map DocumentFacts.provenance
        declarations := a.declarations ++ all.flatMap DocumentFacts.declarations
        calls := a.calls ++ all.flatMap DocumentFacts.calls
        controlRegions := a.controlRegions ++ all.flatMap DocumentFacts.controlRegions } := by
  induction all generalizing a with
  | nil => simp only [List.foldl_nil, List.map_nil, List.flatMap_nil, List.append_nil]
  | cons facts all ih =>
      rw [List.foldl_cons, ih]
      simp only [Artifact.add, List.map_cons, List.flatMap_cons, List.append_assoc,
        List.singleton_append]

end Artifact

end Baleyg.Native
