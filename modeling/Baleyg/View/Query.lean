/-
Query views.

A view is asked for one symbol: its calls in the order of the source, up to a limit, and the
control regions they stand in, with all that are around those.  The regions are closed under
their parents by a worklist that remembers nothing, so that it ends is a fact about the graph:
a parent is always wider than its child (`DocumentSound.parents`), which is so because it is
in the native facts that the rows are cross-witnessed against.

The calls are limited before the excluded paths are left out.  That the limit is exact all the
same rests on the graph as well: the calls of a symbol are in its own file, so either all of
them are excluded, with the symbol, or none.
-/
import Mathlib.Algebra.Order.BigOperators.Group.List
import Baleyg.Lib.Closure
import Baleyg.View.Records

namespace Baleyg.View

open Fallible (ensure bind_eq_ok ensure_bind_eq_ok ensure_eq_ok)
open Native (SourceFile Artifact Libraries Declaration)
open Relation (ReflTransGen)

/-! ### Stored rows -/

structure NodeRow where
  id : String
  name : String
  path : String
  payload : Symbol

structure CallRow where
  id : String
  caller : String
  target : Option String
  path : String
  payload : CallSite

structure RegionRow where
  id : String
  owner : String
  path : String
  payload : ControlRegion

structure DocumentRows where
  file : SourceFile
  nodes : List NodeRow
  calls : List CallRow
  regions : List RegionRow
  /-- What else the attestation comes to: budgets, native rows, classes, and fingerprints. -/
  rest : Except String Unit

/-- The selected revision: its pin, its native header, and its documents. -/
structure Selected (R : Type) where
  pin : R
  header : Artifact
  documents : List DocumentRows

namespace Selected

variable {R : Type} (s : Selected R)

def nodes : List NodeRow := s.documents.flatMap DocumentRows.nodes

def calls : List CallRow := s.documents.flatMap DocumentRows.calls

def regions : List RegionRow := s.documents.flatMap DocumentRows.regions

end Selected

/-! ### Attestation -/

def selectedSourceWitness (libs : Libraries) (header : Artifact) (file : SourceFile) :
    Except String Artifact := do
  let document : Native.Document :=
    ⟨⟨header.sourceSet.id, file.language, file.path⟩, header.revision.id, file.hash,
      Native.byteLength file.text⟩
  let artifact : Artifact :=
    ⟨header.producer, header.sourceSet, { header.revision with documents := [document] },
      [], [], [], [], []⟩
  let (facts, _) ← Native.measureDocument libs artifact.producer artifact.sourceSet
    artifact.revision file document .empty
  pure (artifact.add facts)

/-- The rows of a document are those of its payloads. -/
def materialize (doc : DocumentRows) : Except String Unit := do
  doc.nodes.forM fun row =>
    ensure (row.payload.id = row.id ∧ row.payload.name = row.name ∧ row.payload.path = row.path ∧
        row.path = doc.file.path)
      "incompatible_index: selected graph node materialization differs"
  doc.calls.forM fun row =>
    ensure (row.payload.id = row.id ∧ row.payload.caller = row.caller ∧
        row.payload.path = row.path ∧ row.path = doc.file.path ∧ row.target = none)
      "incompatible_index: selected graph call materialization differs"
  doc.regions.forM fun row =>
    ensure (row.payload.id = row.id ∧ row.payload.owner = row.owner ∧
        row.payload.path = row.path ∧ row.path = doc.file.path)
      "incompatible_index: selected graph region materialization differs"

def graphOf (doc : DocumentRows) (coverage : List Native.Coverage) : Graph where
  files := [doc.file]
  nodes := doc.nodes.map NodeRow.payload
  calls := doc.calls.map CallRow.payload
  regions := doc.regions.map RegionRow.payload
  diagnostics := diagnosticsOf coverage
  stats := statsOf [doc.file] doc.nodes.length doc.calls.length doc.regions.length coverage

/-- `attest_selected_document_for`. -/
def attestSelectedDocument {R : Type} (libs : Libraries) (s : Selected R) (path : String) :
    Except String Unit :=
  match s.documents.filter fun doc => doc.file.path = path with
  | [doc] => do
      let witness ← selectedSourceWitness libs s.header doc.file
      materialize doc
      validateNativeGraphRecords (graphOf doc witness.coverage) witness
      doc.rest
  | _ => throw "incompatible_index: selected document missing or ambiguous"

/-! ### The query -/

structure ViewQuery where
  seed : String
  depth : Nat
  maxNodes : Nat
  maxCalls : Nat
  includeCallbacks : Bool
  excludePaths : List String
  deriving DecidableEq

structure ViewResult (R : Type) where
  revision : R
  query : ViewQuery
  nodes : List Symbol
  calls : List CallSite
  regions : List ControlRegion
  truncated : Bool
  omittedNodes : Nat
  warnings : List String

/-- Why a query has no answer: an error, or so many steps were not enough. -/
inductive Stop where
  | error (message : String)
  | fuel
  deriving DecidableEq

def ViewQuery.excludes (query : ViewQuery) (path : String) : Bool :=
  query.excludePaths.any fun lead => Native.startsWith path lead

def sourceLe (a b : CallRow) : Bool :=
  a.path < b.path || (a.path == b.path &&
    (a.payload.range.startByte < b.payload.range.startByte ||
      (a.payload.range.startByte == b.payload.range.startByte &&
        (b.payload.range.endByte < a.payload.range.endByte ||
          (a.payload.range.endByte == b.payload.range.endByte && a.id ≤ b.id)))))

def Selected.callsOf {R : Type} (s : Selected R) (caller : String) : List CallRow :=
  (s.calls.filter fun row => row.caller = caller).mergeSort sourceLe

def takeCalls (query : ViewQuery) : List CallRow → List CallSite → List CallSite × Bool
  | [], calls => (calls, false)
  | row :: rows, calls =>
      if query.excludes row.payload.path then takeCalls query rows calls
      else if query.maxCalls ≤ calls.length then (calls, true)
      else takeCalls query rows (calls ++ [row.payload])

def Selected.region {R : Type} (s : Selected R) (id : String) : Option ControlRegion :=
  (s.regions.find? fun row => row.id = id).map RegionRow.payload

def orderedSet (ids : List String) : List String :=
  ids.foldl (fun set id => Closure.insert id set) []

/-- `query_view_in_for`, with so many steps for the closure. -/
def queryView {R : Type} (libs : Libraries) (fuel : Nat) (s : Selected R) (query : ViewQuery) :
    Except Stop (Option (ViewResult R)) :=
  match s.nodes.find? fun row => row.id = query.seed with
  | none => pure none
  | some row => do
      (attestSelectedDocument libs s row.path).mapError Stop.error
      let seed := row.payload
      let (calls, truncated) :=
        if query.excludes seed.path then ([], false)
        else takeCalls query ((s.callsOf seed.id).take (query.maxCalls + 1)) []
      match Closure.close s.region ControlRegion.parent fuel
          (orderedSet (calls.flatMap CallSite.regions)) [] with
      | none => throw .fuel
      | some found => do
          let regions := found.map Prod.snd
          (orderedSet (seed.path :: (calls.map CallSite.path ++ regions.map ControlRegion.path))).forM
            fun path => (attestSelectedDocument libs s path).mapError Stop.error
          pure (some
            { revision := s.pin
              query
              nodes := [seed]
              calls
              regions
              truncated
              omittedNodes := 0
              warnings := if truncated then ["Measured calls truncated at the request limit."]
                else [] })

/-- **The graph is attested**: every document of it is, and no id comes twice in it, which is
checked of the whole graph when it is published. -/
structure Attested {R : Type} (libs : Libraries) (s : Selected R) : Prop where
  documents : ∀ doc ∈ s.documents, attestSelectedDocument libs s doc.file.path = .ok ()
  nodeIds : (s.nodes.map NodeRow.id).Nodup
  regionIds : (s.regions.map RegionRow.id).Nodup

/-! ### What an attested document is like -/

section Witness

variable {α β : Type} [DecidableEq α] {cardinality missing differs : String} {idOf : α → String}
  {factId : β → String} {rowOf : α → β → Except String α} {rows : List α} {facts : List β}

theorem witnessRows_row
    (h : witnessRows cardinality missing differs idOf factId rowOf rows facts = .ok ()) :
    ∀ fact ∈ facts, ∃ row ∈ rows, idOf row = factId fact ∧ rowOf row fact = .ok row := by
  intro fact hfact
  unfold witnessRows at h
  rw [ensure_bind_eq_ok, Fallible.forM_eq_ok] at h
  have hrow := h.2 fact hfact
  cases hfound : rows.find? fun row => idOf row = factId fact with
  | none => rw [hfound] at hrow; cases hrow
  | some row =>
      simp only [hfound, bind_eq_ok, ensure_eq_ok] at hrow
      obtain ⟨expected, hexpected, rfl⟩ := hrow
      exact ⟨row, List.mem_of_find?_eq_some hfound, by simpa using List.find?_some hfound,
        hexpected⟩

/-- **Every row has its fact**, if no two facts share an id. -/
theorem witnessRows_fact
    (h : witnessRows cardinality missing differs idOf factId rowOf rows facts = .ok ())
    (hids : (facts.map factId).Nodup) :
    ∀ row ∈ rows, ∃ fact ∈ facts, rowOf row fact = .ok row := by
  intro row hrow
  have hrows := witnessRows_row h
  unfold witnessRows at h
  rw [ensure_bind_eq_ok] at h
  obtain ⟨⟨hnodup, hlength⟩, -⟩ := h
  -- as many facts as rows, and every fact's id is a row's
  have hsub : facts.map factId ⊆ rows.map idOf := fun id hid => by
    obtain ⟨fact, hfact, rfl⟩ := List.mem_map.mp hid
    obtain ⟨row, hrow, hsame, -⟩ := hrows fact hfact
    rw [← hsame]
    exact List.mem_map_of_mem hrow
  have hperm : (facts.map factId).Perm (rows.map idOf) := by
    refine (List.subperm_of_subset hids hsub).perm_of_length_le ?_
    rw [List.length_map, List.length_map]
    omega
  obtain ⟨fact, hfact, hid⟩ :=
    List.mem_map.mp (hperm.mem_iff.mpr (List.mem_map_of_mem hrow))
  obtain ⟨row', hrow', hsame, hexpected⟩ := hrows fact hfact
  have heq : row' = row := List.inj_on_of_nodup_map hnodup hrow' hrow (hsame.trans hid)
  rw [heq] at hexpected
  exact ⟨fact, hfact, hexpected⟩

end Witness

section Facts

variable {c : Native.Context} {root : Native.Node} {facts : Native.DocumentFacts}
  {ids : Native.IdentityRegistry}

theorem controlIds_nodup (h : Native.Measured c root facts ids) :
    (facts.controlRegions.map Native.ControlRegion.id).Nodup := by
  refine List.pairwise_map.mpr (h.controlNumbers.pairwise.imp_of_mem ?_)
  intro a b ha hb hordinal hid
  have ha := h.controlRegions a ha
  have hb := h.controlRegions b hb
  have hinput := ha.known.inj hb.known (ha.id.symm.trans (hid.trans hb.id))
  unfold Native.Context.occurrenceInput at hinput
  rw [Native.OccurrenceInput.mk.injEq] at hinput
  obtain ⟨-, -, -, -, howner, -, hnumber⟩ := hinput
  exact hordinal howner hnumber

theorem callIds_nodup (h : Native.Measured c root facts ids) :
    (facts.calls.map Native.Call.id).Nodup := by
  refine List.pairwise_map.mpr (h.callNumbers.pairwise.imp_of_mem ?_)
  intro a b ha hb hordinal hid
  have ha := h.calls a ha
  have hb := h.calls b hb
  have hinput := ha.known.inj hb.known (ha.id.symm.trans (hid.trans hb.id))
  unfold Native.Context.occurrenceInput at hinput
  rw [Native.OccurrenceInput.mk.injEq] at hinput
  obtain ⟨-, -, -, -, howner, -, hnumber⟩ := hinput
  exact hordinal howner hnumber

/-- **A parent is wider than its child.** -/
theorem parent_wider (h : Native.Measured c root facts ids) {r : Native.ControlRegion}
    (hr : r ∈ facts.controlRegions) {id : String} (hparent : r.parentId = some id) :
    ∃ parent ∈ facts.controlRegions, parent.id = id ∧
      r.range.stop - r.range.start < parent.range.stop - parent.range.start := by
  have hregion := h.controlRegions r hr
  obtain ⟨parent, ⟨hmem, hid, howner, hstart, hstop⟩, hne⟩ := hregion.parent id hparent
  refine ⟨parent, hmem, hid, ?_⟩
  have hranges : parent.range ≠ r.range := fun hsame => by
    have heq : parent = r := List.inj_on_of_nodup_map h.controlsNodup hmem hr (by
      show (parent.ownerSyntaxId, parent.range) = (r.ownerSyntaxId, r.range)
      rw [howner, hsame])
    exact hne (congrArg Native.ControlRegion.id heq)
  have hle := hregion.spanned.le
  rcases hp : parent.range with ⟨start, stop⟩
  rcases hc : r.range with ⟨start', stop'⟩
  rw [hp, hc] at hranges
  simp only [hp, hc] at hstart hstop hle ⊢
  have hdiffer : start ≠ start' ∨ stop ≠ stop' := by
    by_contra hsame
    rw [not_or, not_not, not_not] at hsame
    exact hranges (by rw [hsame.1, hsame.2])
  omega

end Facts

section Rows

variable {files : List SourceFile}

theorem measuredRange_ok {file : SourceFile} {r : Native.Range} {range : SourceRange}
    (h : measuredRange file r = .ok range) :
    range.startByte = r.start ∧ range.endByte = r.stop := by
  unfold measuredRange at h
  simp only [bind_eq_ok] at h
  obtain ⟨⟨_, _⟩, -, ⟨_, _⟩, -, _, -, h⟩ := h
  cases h
  exact ⟨rfl, rfl⟩

theorem regionOf_ok {r : Native.ControlRegion} {region : ControlRegion}
    (h : regionOf files r = .ok region) :
    region.id = r.id ∧ region.parent = r.parentId ∧ region.range.startByte = r.range.start ∧
      region.range.endByte = r.range.stop := by
  unfold regionOf at h
  rw [bind_eq_ok] at h
  obtain ⟨file, -, h⟩ := h
  cases htext : Native.get file.text r.range with
  | none => rw [htext] at h; cases h
  | some text =>
      simp only [htext, bind_eq_ok] at h
      obtain ⟨range, hrange, h⟩ := h
      obtain ⟨hstart, hstop⟩ := measuredRange_ok hrange
      cases h
      exact ⟨rfl, rfl, hstart, hstop⟩

theorem callOf_ok {c : Native.Call} {call : CallSite} (h : callOf files c = .ok call) :
    call.caller = c.ownerSyntaxId := by
  unfold callOf at h
  simp only [bind_eq_ok] at h
  obtain ⟨_, -, _, -, _, -, h⟩ := h
  cases h
  rfl

end Rows

def ControlRegion.width (r : ControlRegion) : Nat := r.range.endByte - r.range.startByte

/-- **What an attested document is like.** -/
structure DocumentSound (doc : DocumentRows) : Prop where
  nodes : ∀ row ∈ doc.nodes, row.payload.id = row.id ∧ row.payload.path = row.path ∧
    row.path = doc.file.path
  calls : ∀ row ∈ doc.calls, row.payload.caller = row.caller ∧ row.payload.path = row.path ∧
    row.path = doc.file.path
  callers : ∀ row ∈ doc.calls, ∃ node ∈ doc.nodes, node.id = row.caller
  regions : ∀ row ∈ doc.regions, row.payload.id = row.id ∧ row.payload.path = row.path ∧
    row.path = doc.file.path
  parents : ∀ row ∈ doc.regions, ∀ id, row.payload.parent = some id →
    ∃ parent ∈ doc.regions, parent.id = id ∧ row.payload.width < parent.payload.width

theorem materialize_ok {doc : DocumentRows} (h : materialize doc = .ok ()) :
    (∀ row ∈ doc.nodes, row.payload.id = row.id ∧ row.payload.path = row.path ∧
      row.path = doc.file.path) ∧
    (∀ row ∈ doc.calls, row.payload.caller = row.caller ∧ row.payload.path = row.path ∧
      row.path = doc.file.path) ∧
    ∀ row ∈ doc.regions, row.payload.id = row.id ∧ row.payload.path = row.path ∧
      row.path = doc.file.path := by
  unfold materialize at h
  simp only [bind_eq_ok, Fallible.forM_eq_ok, ensure_eq_ok] at h
  obtain ⟨_, hnodes, _, hcalls, hregions⟩ := h
  refine ⟨fun row hrow => ?_, fun row hrow => ?_, fun row hrow => ?_⟩
  · obtain ⟨hid, -, hpath, hfile⟩ := hnodes row hrow
    exact ⟨hid, hpath, hfile⟩
  · obtain ⟨-, hcaller, hpath, hfile, -⟩ := hcalls row hrow
    exact ⟨hcaller, hpath, hfile⟩
  · obtain ⟨hid, -, hpath, hfile⟩ := hregions row hrow
    exact ⟨hid, hpath, hfile⟩

theorem attest_sound {R : Type} {libs : Libraries} {s : Selected R} {path : String}
    (h : attestSelectedDocument libs s path = .ok ()) :
    ∃ doc, (s.documents.filter fun doc => doc.file.path = path) = [doc] ∧ DocumentSound doc := by
  unfold attestSelectedDocument at h
  split at h
  · rename_i doc hdoc
    refine ⟨doc, hdoc, ?_⟩
    simp only [bind_eq_ok] at h
    obtain ⟨witness, hwitness, _, hrows, _, hvalid, -⟩ := h
    unfold selectedSourceWitness at hwitness
    rw [bind_eq_ok] at hwitness
    obtain ⟨⟨facts, ids⟩, hfacts, hwitness⟩ := hwitness
    obtain ⟨-, hextracted⟩ := Native.measureDocument_ok hfacts
    obtain ⟨tree, -, hmeasured⟩ := hextracted.measured
    cases hwitness
    unfold validateNativeGraphRecords at hvalid
    simp only [bind_eq_ok] at hvalid
    obtain ⟨_, -, _, hnodes, _, hregions, _, hcalls, -⟩ := hvalid
    obtain ⟨hnodeRows, hcallRows, hregionRows⟩ := materialize_ok hrows
    refine ⟨hnodeRows, hcallRows, fun row hrow => ?_, hregionRows, fun row hrow id hparent => ?_⟩
    · obtain ⟨c, hc, hrowOf⟩ :=
        witnessRows_fact hcalls (callIds_nodup hmeasured) _ (List.mem_map_of_mem hrow)
      obtain ⟨d, hd, howner⟩ := (hmeasured.calls c hc).owner
      obtain ⟨symbol, hsymbol, hid, -⟩ := witnessRows_row hnodes d hd
      obtain ⟨node, hnode, rfl⟩ := List.mem_map.mp hsymbol
      refine ⟨node, hnode, ?_⟩
      rw [← (hnodeRows node hnode).1, hid, howner, ← (hcallRows row hrow).1, callOf_ok hrowOf]
    · obtain ⟨r, hr, hrowOf⟩ :=
        witnessRows_fact hregions (controlIds_nodup hmeasured) _ (List.mem_map_of_mem hrow)
      obtain ⟨-, hparentId, hstart, hstop⟩ := regionOf_ok hrowOf
      obtain ⟨parent, hmem, hid, hwider⟩ :=
        parent_wider hmeasured hr (hparentId.symm.trans hparent)
      obtain ⟨region, hregion, hsame, hparentOf⟩ := witnessRows_row hregions parent hmem
      obtain ⟨row', hrow', rfl⟩ := List.mem_map.mp hregion
      obtain ⟨-, -, hstart', hstop'⟩ := regionOf_ok hparentOf
      refine ⟨row', hrow', ?_, ?_⟩
      · rw [← (hregionRows row' hrow').1, hsame, hid]
      · unfold ControlRegion.width
        rw [hstart, hstop, hstart', hstop']
        exact hwider
  · cases h

/-! ### Exact views -/

def Selected.Parent {R : Type} (s : Selected R) (a b : String) : Prop :=
  ∃ row ∈ s.regions, row.id = a ∧ row.payload.parent = some b

theorem takeCalls_eq {query : ViewQuery} {rows : List CallRow} {calls : List CallSite}
    (hrows : ∀ row ∈ rows, query.excludes row.payload.path = false)
    (hcalls : calls.length ≤ query.maxCalls) :
    takeCalls query rows calls = ((calls ++ rows.map CallRow.payload).take query.maxCalls,
      decide (query.maxCalls < calls.length + rows.length)) := by
  induction rows generalizing calls with
  | nil =>
      unfold takeCalls
      rw [List.map_nil, List.append_nil, List.take_of_length_le hcalls]
      simp [hcalls]
  | cons row rows ih =>
      unfold takeCalls
      rw [hrows row List.mem_cons_self, if_neg Bool.false_ne_true]
      split_ifs with hfull
      · have hlength : calls.length = query.maxCalls := Nat.le_antisymm hcalls hfull
        rw [← hlength, List.take_left]
        simp
      · rw [ih (fun row hrow => hrows row (List.mem_cons_of_mem _ hrow)) (by simp; omega)]
        simp [Nat.add_comm, Nat.add_left_comm]

theorem mem_orderedSet {ids : List String} {id : String} : id ∈ orderedSet ids ↔ id ∈ ids := by
  unfold orderedSet
  have hfold : ∀ (ids set : List String),
      id ∈ ids.foldl (fun set id => Closure.insert id set) set ↔ id ∈ set ∨ id ∈ ids := by
    intro ids
    induction ids with
    | nil => simp
    | cons first ids ih =>
        intro set
        rw [List.foldl_cons, ih, Closure.mem_insert, List.mem_cons]
        tauto
  rw [hfold]
  simp

namespace Attested

variable {R : Type} {libs : Libraries} {s : Selected R}

theorem sound (h : Attested libs s) {doc : DocumentRows} (hdoc : doc ∈ s.documents) :
    DocumentSound doc := by
  obtain ⟨found, hfound, hsound⟩ := attest_sound (h.documents doc hdoc)
  have hmem : doc ∈ s.documents.filter fun other => other.file.path = doc.file.path :=
    List.mem_filter.mpr ⟨hdoc, by simp⟩
  rw [hfound, List.mem_singleton] at hmem
  rw [hmem]
  exact hsound

theorem region_eq_some (h : Attested libs s) {row : RegionRow} (hrow : row ∈ s.regions) :
    s.region row.id = some row.payload := by
  unfold Selected.region
  cases hfound : s.regions.find? fun other => other.id = row.id with
  | none =>
      have hnone := List.find?_eq_none.mp hfound row hrow
      simp at hnone
  | some other =>
      have hid : other.id = row.id := by simpa using List.find?_some hfound
      rw [List.inj_on_of_nodup_map h.regionIds (List.mem_of_find?_eq_some hfound) hrow hid]
      rfl

theorem row_of_region {id : String} {region : ControlRegion} (h : s.region id = some region) :
    ∃ row ∈ s.regions, row.id = id ∧ row.payload = region := by
  unfold Selected.region at h
  rw [Option.map_eq_some_iff] at h
  obtain ⟨row, hrow, hpayload⟩ := h
  exact ⟨row, List.mem_of_find?_eq_some hrow, by simpa using List.find?_some hrow, hpayload⟩

theorem up_iff (h : Attested libs s) {a b : String} :
    Closure.Up s.region ControlRegion.parent a b ↔ s.Parent a b := by
  constructor
  · rintro ⟨region, hregion, hparent⟩
    obtain ⟨row, hrow, hid, rfl⟩ := row_of_region hregion
    exact ⟨row, hrow, hid, hparent⟩
  · rintro ⟨row, hrow, rfl, hparent⟩
    exact ⟨row.payload, h.region_eq_some hrow, hparent⟩

/-- How much wider than a region the parents around it may be. -/
def rank (s : Selected R) (id : String) : Nat :=
  (s.regions.map fun row => row.payload.width).sum - (s.region id).elim 0 ControlRegion.width

/-- **Parents do not go round**: every one is wider than its child. -/
theorem rank_lt (h : Attested libs s) (a b : String)
    (hup : Closure.Up s.region ControlRegion.parent a b) : rank s b < rank s a := by
  obtain ⟨row, hrow, rfl, hparent⟩ := h.up_iff.mp hup
  obtain ⟨doc, hdoc, hrowDoc⟩ := List.mem_flatMap.mp hrow
  obtain ⟨parent, hparentDoc, rfl, hwider⟩ := (h.sound hdoc).parents row hrowDoc _ hparent
  have hparentRow : parent ∈ s.regions := List.mem_flatMap.mpr ⟨doc, hdoc, hparentDoc⟩
  have hle : parent.payload.width ≤ (s.regions.map fun row => row.payload.width).sum :=
    List.single_le_sum (fun _ _ => Nat.zero_le _) _ (List.mem_map_of_mem hparentRow)
  unfold rank
  rw [h.region_eq_some hrow, h.region_eq_some hparentRow]
  show _ - parent.payload.width < _ - row.payload.width
  omega

theorem call_path (h : Attested libs s) {node : NodeRow} (hnode : node ∈ s.nodes)
    {call : CallRow} (hcall : call ∈ s.callsOf node.id) : call.payload.path = node.payload.path := by
  unfold Selected.callsOf at hcall
  rw [List.mem_mergeSort, List.mem_filter, decide_eq_true_eq] at hcall
  obtain ⟨hmem, hcaller⟩ := hcall
  obtain ⟨doc, hdoc, hcallDoc⟩ := List.mem_flatMap.mp hmem
  have hsound := h.sound hdoc
  obtain ⟨owner, howner, hid⟩ := hsound.callers call hcallDoc
  have hsame : owner = node := List.inj_on_of_nodup_map h.nodeIds
    (List.mem_flatMap.mpr ⟨doc, hdoc, howner⟩) hnode (hid.trans hcaller)
  obtain ⟨-, hpath, hfile⟩ := hsound.calls call hcallDoc
  obtain ⟨-, hpath', hfile'⟩ := hsound.nodes owner howner
  rw [hpath, hfile, ← hfile', ← hpath', hsame]

theorem attest_path (h : Attested libs s) {doc : DocumentRows} (hdoc : doc ∈ s.documents)
    {path : String} (hpath : path = doc.file.path) :
    (attestSelectedDocument libs s path).mapError Stop.error = .ok () := by
  rw [hpath, h.documents doc hdoc]
  rfl

end Attested

/-- What a view has of the calls of its seed: the first in the order of the source, or none if
the seed is excluded. -/
structure ExactCalls {R : Type} (s : Selected R) (query : ViewQuery) (seed : Symbol)
    (view : ViewResult R) : Prop where
  excluded : query.excludes seed.path = true → view.calls = [] ∧ view.truncated = false
  calls : query.excludes seed.path = false →
    view.calls = ((s.callsOf query.seed).map CallRow.payload).take query.maxCalls
  truncated : query.excludes seed.path = false →
    (view.truncated = true ↔ query.maxCalls < (s.callsOf query.seed).length)

/-- What a view has of the regions: those its calls stand in, and those around them. -/
structure ExactRegions {R : Type} (s : Selected R) (view : ViewResult R) : Prop where
  once : (view.regions.map ControlRegion.id).Nodup
  regions : ∀ region, region ∈ view.regions ↔ (∃ row ∈ s.regions, row.payload = region) ∧
    ∃ call ∈ view.calls, ∃ id ∈ call.regions, ReflTransGen s.Parent id region.id

theorem Attested.exact_calls {R : Type} {libs : Libraries} {s : Selected R} {query : ViewQuery}
    {node : NodeRow} {view : ViewResult R} (h : Attested libs s) (hnode : node ∈ s.nodes)
    (hseed : node.id = query.seed)
    (hview : (view.calls, view.truncated) =
      if query.excludes node.payload.path then ([], false)
      else takeCalls query ((s.callsOf node.id).take (query.maxCalls + 1)) []) :
    ExactCalls s query node.payload view := by
  have htaken : query.excludes node.payload.path = false → (view.calls, view.truncated) =
      (((s.callsOf query.seed).map CallRow.payload).take query.maxCalls,
        decide (query.maxCalls < (s.callsOf query.seed).length)) := fun hexcluded => by
    rw [hexcluded, if_neg Bool.false_ne_true, takeCalls_eq (fun call hcall => ?_) (Nat.zero_le _)]
      at hview
    · rw [hview, hseed, List.nil_append, ← List.map_take, List.take_take, ← List.map_take,
        Nat.min_eq_left (Nat.le_succ _)]
      refine Prod.ext rfl (decide_eq_decide.mpr ?_)
      rw [List.length_nil, List.length_take]
      omega
    · rw [h.call_path hnode (List.mem_of_mem_take hcall)]; exact hexcluded
  refine ⟨fun hexcluded => ?_, fun hexcluded => (Prod.mk.inj (htaken hexcluded)).1,
    fun hexcluded => ?_⟩
  · rw [hexcluded, if_pos rfl] at hview; exact Prod.mk.inj hview
  · rw [(Prod.mk.inj (htaken hexcluded)).2, decide_eq_true_eq]

theorem Attested.view_path {R : Type} {libs : Libraries} {s : Selected R} {query : ViewQuery}
    {node : NodeRow} {view : ViewResult R} (h : Attested libs s) (hnode : node ∈ s.nodes)
    (hseed : node.id = query.seed) (hcalls : ExactCalls s query node.payload view)
    {call : CallSite} (hcall : call ∈ view.calls) : call.path = node.payload.path := by
  by_cases hexcluded : query.excludes node.payload.path = true
  · rw [(hcalls.excluded hexcluded).1] at hcall; cases hcall
  · rw [hcalls.calls (Bool.eq_false_iff.mpr hexcluded)] at hcall
    obtain ⟨row, hrow, rfl⟩ := List.mem_map.mp (List.mem_of_mem_take hcall)
    rw [← hseed] at hrow
    exact h.call_path hnode hrow

theorem Attested.exact_regions {R : Type} {libs : Libraries} {s : Selected R} {fuel : Nat}
    {view : ViewResult R} {found : List (String × ControlRegion)} (h : Attested libs s)
    (hclose : Closure.close s.region ControlRegion.parent fuel
      (orderedSet (view.calls.flatMap CallSite.regions)) [] = some found)
    (hview : view.regions = found.map Prod.snd) : ExactRegions s view := by
  obtain ⟨hsorted, hfound⟩ := Closure.close_spec hclose
  have hup : Closure.Up s.region ControlRegion.parent = s.Parent := by
    funext a b
    exact propext h.up_iff
  rw [hup] at hfound
  have hid : ∀ entry ∈ found, entry.2.id = entry.1 := fun entry hentry => by
    obtain ⟨row, hrow, hkey, hpayload⟩ := row_of_region ((hfound entry.1 entry.2).mp hentry).1
    obtain ⟨doc, hdoc, hrowDoc⟩ := List.mem_flatMap.mp hrow
    rw [← hpayload, ((h.sound hdoc).regions row hrowDoc).1, hkey]
  have hids : view.regions.map ControlRegion.id = found.map Prod.fst := by
    rw [hview, List.map_map]
    exact List.map_congr_left hid
  refine ⟨?_, fun region => ?_⟩
  · rw [hids]; exact hsorted.imp fun hlt => ne_of_lt hlt
  · rw [hview, List.mem_map]
    constructor
    · rintro ⟨⟨key, region⟩, hentry, rfl⟩
      obtain ⟨hregion, start, hstart, hreach⟩ := (hfound key region).mp hentry
      obtain ⟨row, hrow, -, hpayload⟩ := row_of_region hregion
      rw [mem_orderedSet, List.mem_flatMap] at hstart
      obtain ⟨call, hcall, hstart⟩ := hstart
      have hsame : region.id = key := hid (key, region) hentry
      rw [← hsame] at hreach
      exact ⟨⟨row, hrow, hpayload⟩, call, hcall, start, hstart, hreach⟩
    · rintro ⟨⟨row, hrow, rfl⟩, call, hcall, start, hstart, hreach⟩
      obtain ⟨doc, hdoc, hrowDoc⟩ := List.mem_flatMap.mp hrow
      have hpayload := ((h.sound hdoc).regions row hrowDoc).1
      refine ⟨(row.id, row.payload), (hfound _ _).mpr ⟨h.region_eq_some hrow, start, ?_, ?_⟩, rfl⟩
      · rw [mem_orderedSet]; exact List.mem_flatMap.mpr ⟨call, hcall, hstart⟩
      · rw [← hpayload]; exact hreach

/-- **Query views are exact.**  Of an attested graph every query has an answer once so many steps
are allowed: none if there is no such symbol, and else a view with the first calls of the symbol
in the order of the source, which says that it is truncated if and only if there are more, and
with the regions around these calls, each once; a symbol that is itself excluded has no calls. -/
theorem query_view_exact {R : Type} (libs : Libraries) (s : Selected R) (query : ViewQuery)
    (h : Attested libs s) :
    ∃ enough, ∀ fuel, enough ≤ fuel →
      ((∀ row ∈ s.nodes, row.id ≠ query.seed) ∧ queryView libs fuel s query = .ok none) ∨
      ∃ row ∈ s.nodes, row.id = query.seed ∧ ∃ view,
        queryView libs fuel s query = .ok (some view) ∧ view.revision = s.pin ∧
          view.query = query ∧ view.nodes = [row.payload] ∧
          ExactCalls s query row.payload view ∧ ExactRegions s view := by
  cases hfind : s.nodes.find? fun row => row.id = query.seed with
  | none =>
      refine ⟨0, fun fuel _ => .inl ⟨fun row hrow => ?_, ?_⟩⟩
      · simpa using List.find?_eq_none.mp hfind row hrow
      · unfold queryView
        rw [hfind]
        rfl
  | some row =>
      have hrow := List.mem_of_find?_eq_some hfind
      have hseed : row.id = query.seed := by simpa using List.find?_some hfind
      obtain ⟨doc, hdoc, hrowDoc⟩ := List.mem_flatMap.mp hrow
      obtain ⟨hid, hpath, hfile⟩ := (h.sound hdoc).nodes row hrowDoc
      obtain ⟨calls, truncated, htaken⟩ : ∃ calls truncated, (calls, truncated) =
          if query.excludes row.payload.path then ([], false)
          else takeCalls query ((s.callsOf row.id).take (query.maxCalls + 1)) [] := ⟨_, _, rfl⟩
      refine ⟨Closure.weight (Attested.rank s) (orderedSet (calls.flatMap CallSite.regions)),
        fun fuel hfuel => .inr ⟨row, hrow, hseed, ?_⟩⟩
      obtain ⟨found, hclose⟩ := Closure.close_ends (m := []) h.rank_lt hfuel
      let view : ViewResult R :=
        { revision := s.pin
          query
          nodes := [row.payload]
          calls
          regions := found.map Prod.snd
          truncated
          omittedNodes := 0
          warnings := if truncated then ["Measured calls truncated at the request limit."] else [] }
      have hcalls : ExactCalls s query row.payload view := h.exact_calls hrow hseed htaken
      have hregions : ExactRegions s view := @Attested.exact_regions R libs s fuel view found h hclose rfl
      refine ⟨view, ?_, rfl, rfl, rfl, hcalls, hregions⟩
      -- every path of the view is that of a document
      have hpaths : ((orderedSet (row.payload.path :: (calls.map CallSite.path ++
          (found.map Prod.snd).map ControlRegion.path))).forM fun path =>
            (attestSelectedDocument libs s path).mapError Stop.error) = .ok () := by
        refine Fallible.forM_eq_ok.mpr fun path hmem => ?_
        rw [mem_orderedSet, List.mem_cons, List.mem_append, List.mem_map, List.mem_map] at hmem
        rcases hmem with rfl | ⟨call, hcall, rfl⟩ | ⟨region, hregion, rfl⟩
        · exact h.attest_path hdoc (hpath.trans hfile)
        · refine h.attest_path hdoc ?_
          rw [h.view_path hrow hseed hcalls hcall, hpath, hfile]
        · obtain ⟨⟨other, hother, rfl⟩, -⟩ := (hregions.regions region).mp hregion
          obtain ⟨doc', hdoc', hotherDoc⟩ := List.mem_flatMap.mp hother
          obtain ⟨-, hpath', hfile'⟩ := (h.sound hdoc').regions other hotherDoc
          exact h.attest_path hdoc' (hpath'.trans hfile')
      unfold queryView
      rw [hfind]
      simp only [hid, ← htaken, hclose, hpaths, h.attest_path hdoc hfile]
      rfl

/-! ### The rows of a file with one call -/

namespace Sample

def rowsOf (libs : Libraries) (header : Artifact) (file : SourceFile) :
    Except String DocumentRows := do
  let witness ← selectedSourceWitness libs header file
  let nodes ← witness.declarations.mapM (symbolOf [file] witness.declarations none)
  let calls ← witness.calls.mapM (callOf [file])
  let regions ← witness.controlRegions.mapM (regionOf [file])
  pure
    { file
      nodes := nodes.map fun symbol => ⟨symbol.id, symbol.name, symbol.path, symbol⟩
      calls := calls.map fun call => ⟨call.id, call.caller, none, call.path, call⟩
      regions := regions.map fun region => ⟨region.id, region.owner, region.path, region⟩
      rest := pure () }

/-- `f()`. -/
def file : SourceFile := Native.Sample.file "a.js" "f()"

def store : Selected Nat :=
  ⟨3, Native.Sample.header [file],
    (rowsOf Native.Sample.libs (Native.Sample.header [file]) file).toOption.toList⟩

def query (excludePaths : List String) : ViewQuery :=
  ⟨(store.calls.map CallRow.caller).headD "", 1, 10, 1, false, excludePaths⟩

end Sample

theorem attested_sample : Attested Native.Sample.libs Sample.store where
  documents := by decide +kernel
  nodeIds := by decide +kernel
  regionIds := by decide +kernel

/-- **A symbol that is excluded has no calls in its view**, whatever calls it has. -/
theorem query_view_excluded : Attested Native.Sample.libs Sample.store ∧
    ∃ view, queryView Native.Sample.libs 0 Sample.store (Sample.query ["a"]) = .ok (some view) ∧
      view.calls = [] ∧
      ((Sample.store.callsOf (Sample.query ["a"]).seed).map CallRow.payload).take
        (Sample.query ["a"]).maxCalls ≠ [] := by
  refine ⟨attested_sample, ?_⟩
  have hview : ((queryView Native.Sample.libs 0 Sample.store (Sample.query ["a"])).toOption.bind
      id).any (fun view => view.calls = []) = true := by
    decide +kernel
  cases h : queryView Native.Sample.libs 0 Sample.store (Sample.query ["a"]) with
  | error e => rw [h] at hview; cases hview
  | ok view =>
      cases view with
      | none => rw [h] at hview; cases hview
      | some view =>
          rw [h] at hview
          refine ⟨view, rfl, of_decide_eq_true hview, ?_⟩
          decide +kernel

theorem query_view_exact_sample :
    ∃ enough, ∀ fuel, enough ≤ fuel →
      ((∀ row ∈ Sample.store.nodes, row.id ≠ (Sample.query []).seed) ∧
        queryView Native.Sample.libs fuel Sample.store (Sample.query []) = .ok none) ∨
      ∃ row ∈ Sample.store.nodes, row.id = (Sample.query []).seed ∧ ∃ view,
        queryView Native.Sample.libs fuel Sample.store (Sample.query []) = .ok (some view) ∧
          view.revision = Sample.store.pin ∧ view.query = Sample.query [] ∧
          view.nodes = [row.payload] ∧ ExactCalls Sample.store (Sample.query []) row.payload view ∧
          ExactRegions Sample.store view :=
  query_view_exact Native.Sample.libs Sample.store (Sample.query []) attested_sample

end Baleyg.View
