/-
What an answer of the call graph says of its calls.

An answer keeps to the limits of its request (`Bounded`), and every measured call of a declaration
it names is in it: on one edge, or among those that one entry of the frontier counts (`Conserved`).
What is left out is said to be, and how the records were ordered does not show.
-/
import Baleyg.Contract.Reordering
import Baleyg.Contract.Traversal

namespace Baleyg.Contract.Graph

open Fallible (bind_eq_ok ensure_bind_eq_ok)
open Native (Language DocumentKey)
open Table (Keyed)

def GraphResult.Follows (r : GraphResult) (source target : String) : Prop :=
  ∃ edge ∈ r.edges, edge.source = source ∧ edge.target = some target

/-- The answer keeps to the limits of its request. -/
structure Bounded (e : Effective) (r : GraphResult) : Prop where
  distinct : (r.nodes.map GraphNode.id).Nodup
  few : r.nodes.length ≤ e.maxNodes
  sorted : r.nodes.Pairwise fun n m => n.depth ≤ m.depth
  shallow : ∀ n ∈ r.nodes, n.depth ≤ e.depth
  /-- A depth is the length of a shortest path. -/
  distance : ∀ n ∈ r.nodes, Layers.Distance r.Follows e.rootSyntaxId n.id n.depth
  fewEdges : r.edges.length ≤ e.maxCalls
  target : ∀ edge ∈ r.edges, ∀ t, edge.target = some t → ∃ n ∈ r.nodes, n.id = t

/-- The first so many calls of a node are on an edge each, and the others on none. -/
structure Split (r : GraphResult) (own : List Call) (id : String) (k : Nat) : Prop where
  le : k ≤ own.length
  inOrder : (r.edges.filter fun a => a.source = id).map GraphEdge.call = own.take k
  once : ∀ c ∈ own.take k, r.edges.countP (fun a => a.call.id = c.id) = 1
  never : ∀ c ∈ own.drop k, r.edges.countP (fun a => a.call.id = c.id) = 0
  /-- If there are others, one entry of the frontier counts them from the first on. -/
  leaves : Leaves own k (omitting (r.frontier.filter fun f => f.nodeId = id))

/-- Every call of every node is accounted for. -/
def Conserved (records : Records) (r : GraphResult) : Prop :=
  ∀ n ∈ r.nodes,
    ∃ k, Split r (measuredCalls records r.request.sourceSetId r.request.revisionId n.id) n.id k

/-- Something is left out: a call of a node, or the target of one. -/
def Omits (records : Records) (r : GraphResult) : Prop :=
  (∃ n ∈ r.nodes, ∃ c ∈ measuredCalls records r.request.sourceSetId r.request.revisionId n.id,
    ∀ edge ∈ r.edges, edge.call.id ≠ c.id) ∨
    ∃ edge ∈ r.edges, edge.boundaryReason = .nodeLimit

/-! ### The depths -/

section Depths

variable {e : Effective} {root : Declaration} {w : Walk}

theorem Base.unique (h : Base e root w) {n m : GraphNode} (hn : n ∈ w.nodes) (hm : m ∈ w.nodes)
    (heq : n.id = m.id) : n = m := by
  have hdistinct := h.distinct
  rw [h.seen] at hdistinct
  exact List.inj_on_of_nodup_map hdistinct hn hm heq

theorem Base.root_mem (h : Base e root w) : ⟨root, 0⟩ ∈ w.nodes := List.mem_of_getElem? h.first

/-- **The depths of a walk are layers.** -/
theorem Base.layered (h : Base e root w) (hroot : root.syntaxId = e.rootSyntaxId) :
    Layers.Layered (w.result e).Follows e.rootSyntaxId
      fun id level => ∃ n ∈ w.nodes, n.id = id ∧ n.depth = level := by
  refine ⟨⟨⟨root, 0⟩, h.root_mem, hroot, rfl⟩, ?_, ?_, ?_, ?_⟩
  · rintro id ⟨n, hn, rfl, hdepth⟩
    rcases h.origin n hn with hfirst | ⟨_, _, _, m, _, _, hlevel⟩
    · rw [hfirst]; exact hroot
    · omega
  · rintro id target level ⟨n, hn, rfl, rfl⟩ ⟨edge, hedge, hsource, htarget⟩
    obtain ⟨m, hm, hid, hleads⟩ := h.edge edge hedge
    obtain ⟨t, ht, htid, hlevel⟩ := hleads target htarget
    rw [h.unique hm hn (hid.trans hsource)] at hlevel
    exact ⟨t.depth, hlevel, t, ht, htid, rfl⟩
  · rintro id level ⟨n, hn, rfl, hdepth⟩
    rcases h.origin n hn with hfirst | ⟨edge, hedge, htarget, m, hm, hid, hlevel⟩
    · rw [hfirst] at hdepth; cases hdepth
    · exact ⟨m.id, ⟨m, hm, rfl, by omega⟩, edge, hedge, hid.symm, htarget⟩
  · rintro id level level' ⟨n, hn, hid, rfl⟩ ⟨m, hm, hid', rfl⟩
    rw [h.unique hn hm (hid.trans hid'.symm)]

theorem Base.bounded (h : Base e root w) (hroot : root.syntaxId = e.rootSyntaxId) :
    Bounded e (w.result e) := by
  refine ⟨?_, h.few, h.sorted, h.shallow, ?_, h.fewEdges, ?_⟩
  · have hdistinct := h.distinct
    rw [h.seen] at hdistinct
    exact hdistinct
  · intro n hn; exact (h.layered hroot).distance ⟨n, hn, rfl, rfl⟩
  · intro edge hedge t ht
    obtain ⟨_, _, _, hleads⟩ := h.edge edge hedge
    obtain ⟨n, hn, hid, _⟩ := hleads t ht
    exact ⟨n, hn, hid⟩

end Depths

/-! ### The calls -/

section Calls

variable {records : Records} {e : Effective} {idx : Index} {root : Declaration} {w : Walk}

/-- What the walk knows of the calls. -/
structure Measured (records : Records) (e : Effective) (idx : Index) : Prop where
  calls : idx.calls = measuredCalls records e.sourceSetId e.revisionId
  ids : Keyed Call.id records.calls

theorem Measured.mem (h : Measured records e idx) {id : String} {c : Call} (hc : c ∈ idx.calls id) :
    c ∈ records.calls ∧ c.ownerSyntaxId = id := by
  rw [h.calls] at hc
  obtain ⟨hmem, hselected⟩ := List.mem_filter.mp (Ranking.mem_ordered.mp hc)
  exact ⟨hmem, (of_decide_eq_true hselected).2.2.1⟩

theorem Measured.keyed (h : Measured records e idx) (id : String) : Keyed Call.id (idx.calls id) := by
  rw [h.calls]
  have hkeyed := h.ids.sublist (List.filter_sublist (p := fun c : Call =>
    decide (c.revisionId = e.revisionId ∧ c.document.sourceSetId = e.sourceSetId ∧
      c.ownerSyntaxId = id ∧
      (byId records e.sourceSetId e.revisionId id).map Declaration.document = some c.document)))
  have hperm := (Ranking.perm_ordered sourcePlace (records.calls.filter fun c =>
    c.revisionId = e.revisionId ∧ c.document.sourceSetId = e.sourceSetId ∧ c.ownerSyntaxId = id ∧
      (byId records e.sourceSetId e.revisionId id).map Declaration.document = some c.document)).map
    Call.id
  exact hperm.nodup_iff.mpr hkeyed

theorem Steady.call_mem (h : Steady idx e root w) (hend : w.head = w.nodes.length)
    {edge : GraphEdge} (hedge : edge ∈ w.edges) : edge.call ∈ idx.calls edge.source := by
  obtain ⟨m, hm, hid, -⟩ := h.base.edge edge hedge
  have hdone : m ∈ w.nodes.take w.head := by
    rw [hend, List.take_length]
    exact hm
  obtain ⟨k, -, hcalls, -⟩ := h.done m hdone
  have hmine : edge ∈ w.edgesOf m.id :=
    List.mem_filter.mpr ⟨hedge, decide_eq_true hid.symm⟩
  have hcall := List.mem_map_of_mem (f := GraphEdge.call) hmine
  rw [hcalls] at hcall
  rw [← hid]
  exact List.mem_of_mem_take hcall

theorem Steady.countP_edges (h : Steady idx e root w) (hend : w.head = w.nodes.length)
    (hmeasured : Measured records e idx) {id : String} {c : Call} (hc : c ∈ idx.calls id) :
    w.edges.countP (fun a => a.call.id = c.id) =
      ((w.edgesOf id).map GraphEdge.call).countP fun d => d.id = c.id := by
  unfold Walk.edgesOf
  rw [List.countP_map, List.countP_filter]
  refine List.countP_congr fun edge hedge => ?_
  obtain ⟨hcall, howner⟩ := hmeasured.mem (h.call_mem hend hedge)
  obtain ⟨hmem, hid⟩ := hmeasured.mem hc
  simp only [Function.comp_apply, decide_eq_true_eq, Bool.and_eq_true]
  constructor
  · intro hsame
    refine ⟨hsame, ?_⟩
    rw [← howner, hmeasured.ids.eq_of_key hcall hmem hsame, hid]
  · intro hsame; exact hsame.1

/-- **The calls of a node are split.** -/
theorem Steady.split (h : Steady idx e root w) (hend : w.head = w.nodes.length)
    (hmeasured : Measured records e idx) {n : GraphNode} (hn : n ∈ w.nodes) :
    ∃ k, Split (w.result e) (idx.calls n.id) n.id k := by
  have hdone : n ∈ w.nodes.take w.head := by
    rw [hend, List.take_length]
    exact hn
  obtain ⟨k, hk, hcalls, hleaves⟩ := h.done n hdone
  have hkeyed : ((idx.calls n.id).map Call.id).Nodup := hmeasured.keyed n.id
  have hsplit := hkeyed
  rw [← List.take_append_drop k (idx.calls n.id), List.map_append, List.nodup_append] at hsplit
  obtain ⟨htaken, -, hapart⟩ := hsplit
  refine ⟨k, hk, hcalls, fun c hc => ?_, fun c hc => ?_, hleaves⟩
  · have hcount := h.countP_edges hend hmeasured (List.mem_of_mem_take hc)
    rw [hcalls] at hcount
    refine hcount.trans ?_
    have hone := List.count_eq_one_of_mem htaken (List.mem_map_of_mem hc)
    rw [List.count, List.countP_map] at hone
    exact hone
  · have hcount := h.countP_edges hend hmeasured (List.mem_of_mem_drop hc)
    rw [hcalls] at hcount
    refine hcount.trans (List.countP_eq_zero.mpr fun d hd heq => ?_)
    exact hapart _ (List.mem_map_of_mem hd) _ (List.mem_map_of_mem hc) (of_decide_eq_true heq)

/-- **The frontier has entries exactly where something is left out.** -/
theorem Steady.truncated (h : Steady idx e root w) (hend : w.head = w.nodes.length)
    (hmeasured : Measured records e idx) :
    (w.result e).truncated = true ↔ Omits records (w.result e) := by
  unfold Omits
  change decide (w.frontier ≠ []) = true ↔
    (∃ n ∈ w.nodes, ∃ c ∈ measuredCalls records e.sourceSetId e.revisionId n.id,
      ∀ edge ∈ w.edges, edge.call.id ≠ c.id) ∨ ∃ edge ∈ w.edges, edge.boundaryReason = .nodeLimit
  rw [decide_eq_true_iff, ← hmeasured.calls]
  constructor
  · intro hne
    obtain ⟨f, hf⟩ := List.exists_mem_of_ne_nil _ hne
    by_cases homitted : f.omittedCalls = 0
    · exact .inr (h.base.stop f hf homitted)
    · obtain ⟨n, hn, hid⟩ := h.base.mem_seen.mp (h.base.known f hf)
      obtain ⟨k, hsplit⟩ := h.split hend hmeasured hn
      have hentry : f ∈ omitting (w.frontier.filter fun f => f.nodeId = n.id) :=
        List.mem_filter.mpr ⟨List.mem_filter.mpr ⟨hf, decide_eq_true hid.symm⟩,
          decide_eq_true (Nat.pos_of_ne_zero homitted)⟩
      rcases hsplit.leaves with ⟨_, hnil⟩ | ⟨c, _, hget, _⟩
      · have hnone : f ∈ ([] : List Frontier) := by
          rw [← hnil]
          exact hentry
        cases hnone
      · have hdrop : c ∈ (idx.calls n.id).drop k := by
          obtain ⟨hlt, hc⟩ := List.getElem?_eq_some_iff.mp hget
          rw [← hc, List.drop_eq_getElem_cons hlt]
          exact List.mem_cons_self
        refine .inl ⟨n, hn, c, List.mem_of_mem_drop hdrop, fun edge hedge heq => ?_⟩
        have hzero := List.countP_eq_zero.mp (hsplit.never c hdrop) edge hedge
        exact hzero (decide_eq_true heq)
  · rintro (⟨n, hn, c, hc, hnone⟩ | ⟨edge, hedge, hlimit⟩)
    · obtain ⟨k, hsplit⟩ := h.split hend hmeasured hn
      rcases hsplit.leaves with ⟨hall, _⟩ | ⟨_, f, _, hone, _⟩
      · -- All calls of the node have their edges.
        have htake : c ∈ (idx.calls n.id).take k := by
          rw [hall, List.take_length]
          exact hc
        have hcount := hsplit.once c htake
        have hzero : w.edges.countP (fun a => a.call.id = c.id) = 0 :=
          List.countP_eq_zero.mpr fun edge hedge heq => hnone edge hedge (of_decide_eq_true heq)
        change w.edges.countP (fun a => a.call.id = c.id) = 1 at hcount
        omega
      · intro hnil
        change omitting (w.frontier.filter fun f => f.nodeId = n.id) = [f] at hone
        rw [hnil] at hone
        cases hone
    · exact h.base.limit edge hedge hlimit

end Calls

/-! ### Answers -/

section Answers

variable {sha : Hasher} {loaded : Loaded} {records : Records} {request : Request}

theorem limited_eq_ok {field : String} {value : Option Int} {default low high n : Nat}
    (h : limited field value default low high = .ok n) : low ≤ n ∧ n ≤ high := by
  unfold limited at h
  by_cases hout : value.getD default < low ∨ (high : Int) < value.getD default
  · rw [if_pos hout] at h; cases h
  · rw [if_neg hout] at h
    cases h
    omega

/-- A request that has its limits is about the snapshot it named, and may have some nodes. -/
theorem effective_eq_ok {e : Effective} (h : effective request = .ok e) :
    e.sourceSetId = request.sourceSetId ∧ e.revisionId = request.revisionId ∧
      0 < e.maxNodes ∧ e.maxNodes ≤ 150 := by
  unfold effective at h
  obtain ⟨depth, -, h⟩ := bind_eq_ok.mp h
  obtain ⟨maxNodes, hnodes, h⟩ := bind_eq_ok.mp h
  obtain ⟨maxCalls, -, h⟩ := bind_eq_ok.mp h
  cases h
  obtain ⟨hlow, hhigh⟩ := limited_eq_ok hnodes
  exact ⟨rfl, rfl, hlow, hhigh⟩

theorem admitted_eq_ok {e : Effective} {root : Declaration} (h : admitted records e = .ok root) :
    root.syntaxId = e.rootSyntaxId := by
  unfold admitted at h
  obtain ⟨-, h⟩ := ensure_bind_eq_ok.mp h
  obtain ⟨-, h⟩ := ensure_bind_eq_ok.mp h
  obtain ⟨-, h⟩ := ensure_bind_eq_ok.mp h
  cases hroot : byId records e.sourceSetId e.revisionId e.rootSyntaxId with
  | none => rw [hroot] at h; cases h
  | some d =>
      rw [hroot] at h
      obtain ⟨-, h⟩ := ensure_bind_eq_ok.mp h
      cases h
      exact (Register.mem_of_get hroot).2

theorem ordinal_zero {own : List Call} (h : own.map Call.ordinal = List.range own.length) {c : Call}
    (hfirst : own[0]? = some c) : c.ordinal = 0 := by
  have hmap : (own.map Call.ordinal)[0]? = some c.ordinal := by
    rw [List.getElem?_map, hfirst]
    rfl
  rw [h] at hmap
  obtain ⟨_, hzero⟩ := List.getElem?_eq_some_iff.mp hmap
  rw [List.getElem_range] at hzero
  exact hzero.symm

end Answers

/-! ### A root and its calls -/

namespace Followed

def root : String := "sid:v1:00000000000000000000000000000000"

def callee : String := "sid:v1:00000000000000000000000000000001"

def document (path : String) : DocumentKey := ⟨"s", .rust, path⟩

def declared (id path : String) : Declaration := ⟨id, "r", document path⟩

def call (id owner path : String) (ordinal : Nat) : Call :=
  ⟨id, owner, ordinal, document path, "r", ordinal, ordinal + 1⟩

def proof : Provenance where
  id := "p"
  producerId := "rust-analyzer"
  document := document "a"
  revisionId := "r"
  contentHash := "h"
  evidenceKind := .semanticReference
  basis := none
  freshness := .fresh

def binding : CallBinding where
  callId := some "c"
  join := ⟨.exact, ["c"], ⟨document "a", "r", "h"⟩⟩
  resolution := .resolved
  declaredTarget := some (.internal callee (document "b") "r")
  dispatch := .direct
  staleTarget := some false
  provenanceId := "p"

/-- The root has two calls, and evidence where the first one leads; there is a third call there. -/
def records : Records where
  sourceSets := ["s"]
  revisions := [("r", "s")]
  comparison := ⟨"s", "r", []⟩
  producers := [⟨"rust-analyzer", "1", "h", .semantic, [.rust], .utf8⟩]
  declarations := [declared root "a", declared callee "b"]
  coverage := [⟨"rust-analyzer", "s", .rust, "a", "r", true, .complete⟩]
  provenance := [proof]
  calls := [call "c" root "a" 0, call "d" root "a" 1, call "e" callee "b" 0]
  callBindings := [binding]

/-- There is room for one call. -/
def request : Request := ⟨"s", "r", root, some "rust-analyzer", none, none, some 1⟩

def limits : Effective := ⟨"s", "r", root, some "rust-analyzer", 2, 150, 1⟩

def loaded : Loaded where
  fixture := ⟨.rust, [], [], ⟨"s", "r", []⟩, [], []⟩
  selected := ⟨"r", "s", [], "", "", ""⟩
  revisions := []
  captures := []
  semanticBytes := []
  semanticProofs := []

theorem zeros_valid (_ : List UInt8) :
    Native.validHash (String.ofList (List.replicate 64 '0')) = true := by decide

def zeros : Hasher := ⟨fun _ => String.ofList (List.replicate 64 '0'), zeros_valid⟩

/-- The first call is followed, and the limit leaves out the other two. -/
def answered : GraphResult where
  request := limits
  nodes := [⟨declared root "a", 0⟩, ⟨declared callee "b", 1⟩]
  edges := [⟨call "c" root "a" 0, root, some callee, some binding, .new, .none⟩]
  frontier := [⟨.callLimit, root, none, none, some 1, 1⟩, ⟨.callLimit, callee, none, none, some 0, 1⟩]
  truncated := true

theorem expectedGraph_records :
    expectedGraph zeros loaded 151 records request = .ok (.ok (some answered)) := by
  decide +kernel

theorem ordinals (owner : String) :
    (measuredCalls records "s" "r" owner).map Call.ordinal =
      List.range (measuredCalls records "s" "r" owner).length := by
  by_cases howner : owner ∈ [root, callee]
  · revert owner
    decide +kernel
  · have howners : ∀ c ∈ records.calls, c.ownerSyntaxId ∈ [root, callee] := by decide
    have hnone : measuredCalls records "s" "r" owner = [] := by
      refine List.eq_nil_iff_forall_not_mem.mpr fun c hc => howner ?_
      obtain ⟨hmem, hselected⟩ := List.mem_filter.mp (Ranking.mem_ordered.mp hc)
      rw [← (of_decide_eq_true hselected).2.2.1]
      exact howners c hmem
    rw [hnone]
    rfl

theorem keyed_calls : Keyed Call.id records.calls := by
  unfold Keyed
  decide

theorem separate : Separate records := by
  constructor <;> unfold Keyed <;> decide

/-- The root, and another declaration of its id. -/
def twice (paths : List String) : Records :=
  { records with
    declarations := paths.map (declared root), calls := [], callBindings := [] }

end Followed

/-- **An answer accounts for every call of the declarations it names.** -/
theorem expectedGraph_conserves (sha : Hasher) (loaded : Loaded) {fuel : Nat} {records : Records}
    {request : Request} {out : Option GraphResult} (hfuel : 150 < fuel)
    (hids : Keyed Call.id records.calls)
    (hordinals : ∀ owner,
      (measuredCalls records request.sourceSetId request.revisionId owner).map Call.ordinal =
        List.range (measuredCalls records request.sourceSetId request.revisionId owner).length)
    (hok : expectedGraph sha loaded fuel records request = .ok (.ok out)) :
    ∃ r, out = some r ∧ effective request = .ok r.request ∧ Bounded r.request r ∧
      Conserved records r ∧ (r.truncated = true ↔ Omits records r) ∧
      (Separate records → ∀ records', Reordered records records' →
        expectedGraph sha loaded fuel records' request = .ok (.ok (some r))) := by
  have hwhole := hok
  unfold expectedGraph at hok
  cases heffective : effective request with
  | error f => rw [heffective] at hok; cases hok
  | ok e =>
      rw [heffective] at hok
      dsimp only at hok
      cases hadmitted : admitted records e with
      | error f => rw [hadmitted] at hok; cases hok
      | ok root =>
          rw [hadmitted] at hok
          obtain ⟨result, hanswer, hok⟩ := bind_eq_ok.mp hok
          cases hok
          obtain ⟨idx, hidx, hanswer⟩ := bind_eq_ok.mp hanswer
          obtain ⟨end', htraverse, hanswer⟩ := bind_eq_ok.mp hanswer
          cases hanswer
          obtain ⟨hset, hrevision, hpos, hmax⟩ := effective_eq_ok heffective
          have hroot := admitted_eq_ok hadmitted
          have hmeasured : Measured records e idx := by
            obtain ⟨proofs, -, hidx⟩ := bind_eq_ok.mp hidx
            cases hidx
            exact ⟨rfl, hids⟩
          have hzero : ∀ id c, (idx.calls id)[0]? = some c → c.ordinal = 0 := by
            intro id c hfirst
            rw [hmeasured.calls, hset, hrevision] at hfirst
            exact ordinal_zero (hordinals id) hfirst
          have hbound : e.maxNodes - (start root e.rootSyntaxId).head < fuel := by omega
          obtain ⟨w, rfl, hsteady, hend⟩ :=
            traverse_steady hzero (steady_start hroot hpos) hbound htraverse
          refine ⟨w.result e, rfl, rfl, hsteady.base.bounded hroot, fun n hn => ?_,
            hsteady.truncated hend hmeasured, fun hseparate records' hreordered => ?_⟩
          · obtain ⟨k, hsplit⟩ := hsteady.split hend hmeasured hn
            rw [hmeasured.calls] at hsplit
            exact ⟨k, hsplit⟩
          · exact hreordered.expectedGraph hseparate hids hwhole

open Followed in
theorem expectedGraph_conserves_followed :
    Bounded limits answered ∧ Conserved records answered ∧ Omits records answered ∧
      expectedGraph zeros loaded 151 { records with calls := records.calls.reverse } request =
        .ok (.ok (some answered)) := by
  obtain ⟨r, hr, -, hbounded, hconserved, htruncated, hreordered⟩ :=
    expectedGraph_conserves zeros loaded (by decide : 150 < 151)
      keyed_calls ordinals expectedGraph_records
  cases hr
  exact ⟨hbounded, hconserved, htruncated.mp rfl, hreordered separate _
    ⟨.refl _, .refl _, rfl, .refl _, .refl _, .refl _, .refl _, List.reverse_perm _, .refl _⟩⟩

open Followed in
theorem expectedGraph_two_roots :
    (twice ["a", "b"]).calls = [] ∧ Reordered (twice ["a", "b"]) (twice ["b", "a"]) ∧
      expectedGraph zeros loaded 151 (twice ["a", "b"]) request =
        .ok (.ok (some ⟨limits, [⟨declared root "b", 0⟩], [], [], false⟩)) ∧
      expectedGraph zeros loaded 151 (twice ["b", "a"]) request =
        .ok (.ok (some ⟨limits, [⟨declared root "a", 0⟩], [], [], false⟩)) ∧
      declared root "a" ≠ declared root "b" := by
  have hswap : [declared root "b", declared root "a"].Perm [declared root "a", declared root "b"] :=
    .swap _ _ _
  exact ⟨rfl, ⟨.refl _, .refl _, rfl, .refl _, hswap, .refl _, .refl _, .refl _, .refl _⟩,
    by decide +kernel, by decide +kernel, by decide⟩

end Baleyg.Contract.Graph
