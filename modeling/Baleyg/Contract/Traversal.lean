/-
The walk over the call graph loses no call.

Whatever a turn of the loop adds is of one node: an edge for each of its calls, in their order, up
to where the calls run out or the edges do, and for the rest an entry of the frontier (`Turn`).
So the calls of a node that has had its turn are all accounted for, and a node that has not had it
has nothing yet (`Steady`).

The nodes are met in the order of their depths, and a call leads at most one level further than
the node it stands in.  That makes a depth a distance (`Layers.Layered`), counted along the edges
that lead somewhere.
-/
import Baleyg.Contract.Graph
import Baleyg.Lib.Layers

namespace Baleyg.Contract.Graph

open Fallible (ensure bind_eq_ok ensure_bind_eq_ok ensure_eq_ok)
open Native (Language DocumentKey)

/-! ### What a walk keeps -/

/-- What holds of a walk at every call. -/
structure Base (e : Effective) (root : Declaration) (w : Walk) : Prop where
  seen : w.seen = w.nodes.map GraphNode.id
  distinct : w.seen.Nodup
  first : w.nodes[0]? = some ⟨root, 0⟩
  few : w.nodes.length ≤ e.maxNodes
  fewEdges : w.edges.length ≤ e.maxCalls
  sorted : w.nodes.Pairwise fun a b => a.depth ≤ b.depth
  shallow : ∀ n ∈ w.nodes, n.depth ≤ e.depth
  /-- Every node but the root was reached from one a level up. -/
  origin : ∀ n ∈ w.nodes, n = ⟨root, 0⟩ ∨ ∃ edge ∈ w.edges, edge.target = some n.id ∧
    ∃ m ∈ w.nodes, m.id = edge.source ∧ n.depth = m.depth + 1
  /-- An edge is between nodes and leads down one level at most. -/
  edge : ∀ edge ∈ w.edges, ∃ m ∈ w.nodes, m.id = edge.source ∧
    ∀ t, edge.target = some t → ∃ n ∈ w.nodes, n.id = t ∧ n.depth ≤ m.depth + 1
  /-- A target left out is said to be. -/
  limit : ∀ edge ∈ w.edges, edge.boundaryReason = .nodeLimit → w.frontier ≠ []
  stop : ∀ f ∈ w.frontier, f.omittedCalls = 0 →
    ∃ edge ∈ w.edges, edge.boundaryReason = .nodeLimit
  known : ∀ f ∈ w.frontier, f.nodeId ∈ w.seen

/-- No node lies more than a level below the one whose turn it is. -/
def Near (node : GraphNode) (w : Walk) : Prop := ∀ m ∈ w.nodes, m.depth ≤ node.depth + 1

/-- What one call of a node adds to a walk. -/
structure Adds (e : Effective) (node : GraphNode) (c : Call) (w w' : Walk) (ns : List GraphNode)
    (added : GraphEdge) (fs : List Frontier) : Prop where
  nodes : w'.nodes = w.nodes ++ ns
  seen : w'.seen = w.seen ++ ns.map GraphNode.id
  edges : w'.edges = w.edges ++ [added]
  frontier : w'.frontier = w.frontier ++ fs
  head : w'.head = w.head
  call : added.call = c
  source : added.source = node.id
  /-- A node it adds is new, is where the edge leads to, and is one level down. -/
  fresh : ∀ n ∈ ns, n.id ∉ w.seen ∧ added.target = some n.id ∧ n.depth = node.depth + 1
  single : ns.length ≤ 1
  room : ns ≠ [] → w.nodes.length < e.maxNodes
  target : ∀ t, added.target = some t → t ∈ w'.seen
  omits : ∀ f ∈ fs, f.nodeId = node.id ∧ f.omittedCalls = 0 ∧ added.boundaryReason = .nodeLimit
  limit : added.boundaryReason = .nodeLimit → fs ≠ []

section Calls

variable {idx : Index} {e : Effective} {root : Declaration} {node : GraphNode} {c : Call}
  {w w' : Walk}

theorem ensure_bind_eq_error {α β : Type} {p : Prop} [Decidable p] {a b : β} {x : Except β α}
    (h : (ensure p a >>= fun _ => x) = .error b) : b = a ∨ x = .error b := by
  unfold ensure at h
  by_cases hp : p
  · rw [if_pos hp] at h; exact .inr h
  · rw [if_neg hp] at h
    cases h
    exact .inl rfl

/-- Evidence that leads nowhere does so for a reason of its own, never for want of room. -/
theorem destination_ne {binding : Option CallBinding} {reason : Boundary}
    (h : destination idx binding = .error reason) : reason ≠ .nodeLimit := by
  unfold destination at h
  cases binding with
  | none => cases h; exact Boundary.noConfusion
  | some b =>
      rcases ensure_bind_eq_error h with rfl | h
      · exact Boundary.noConfusion
      rcases ensure_bind_eq_error h with rfl | h
      · exact Boundary.noConfusion
      rcases ensure_bind_eq_error h with rfl | h
      · exact Boundary.noConfusion
      rcases ensure_bind_eq_error h with rfl | h
      · exact Boundary.noConfusion
      rcases ensure_bind_eq_error h with rfl | h
      · exact Boundary.noConfusion
      have hstale : reason = .stale := by
        split at h
        · split at h
          · split at h
            · cases h
            · cases h; rfl
          · cases h; rfl
        · cases h; rfl
      rw [hstale]
      exact Boundary.noConfusion

/-- **What a call adds.** -/
theorem visitCall_adds (h : Base e root w) (hok : visitCall idx e node w c = .ok w') :
    ∃ ns added fs, Adds e node c w w' ns added fs := by
  unfold visitCall at hok
  obtain ⟨binding, -, hok⟩ := bind_eq_ok.mp hok
  cases hdest : destination idx binding with
  | error reason =>
      rw [hdest] at hok
      cases hok
      refine ⟨[], _, [], ⟨by simp, by simp, rfl, by simp, rfl, rfl, rfl, by simp, by simp,
        by simp, ?_, by simp, ?_⟩⟩
      · intro t ht; cases ht
      · intro hlimit; exact absurd hlimit (destination_ne hdest)
  | ok d =>
      rw [hdest] at hok
      by_cases hseen : d.syntaxId ∈ w.seen
      · simp only [if_pos hseen] at hok
        cases hok
        refine ⟨[], _, [], ⟨by simp, by simp, rfl, by simp, rfl, rfl, rfl, by simp, by simp,
          by simp, ?_, by simp, ?_⟩⟩
        · intro t ht
          cases ht
          exact hseen
        · intro hlimit; cases hlimit
      · by_cases hfull : w.nodes.length = e.maxNodes
        · simp only [if_neg hseen, if_pos hfull] at hok
          cases hok
          refine ⟨[], _, _, ⟨by simp, by simp, rfl, rfl, rfl, rfl, rfl, by simp, by simp,
            by simp, ?_, ?_, by simp⟩⟩
          · intro t ht; cases ht
          · intro f hf
            rw [List.mem_singleton.mp hf]
            exact ⟨rfl, rfl, rfl⟩
        · simp only [if_neg hseen, if_neg hfull] at hok
          cases hok
          have hroom := h.few
          refine ⟨_, _, [], ⟨rfl, rfl, rfl, by simp, rfl, rfl, rfl, ?_, by simp, ?_, ?_,
            by simp, ?_⟩⟩
          · intro n hn
            rw [List.mem_singleton.mp hn]
            exact ⟨hseen, rfl, rfl⟩
          · intro _; omega
          · intro t ht
            cases ht
            exact List.mem_append_right _ (List.mem_singleton.mpr rfl)
          · intro hlimit; cases hlimit

variable {ns : List GraphNode} {added : GraphEdge} {fs : List Frontier}

theorem Base.mem_seen (h : Base e root w) {id : String} :
    id ∈ w.seen ↔ ∃ n ∈ w.nodes, n.id = id := by
  rw [h.seen, List.mem_map]

namespace Adds

variable (hadds : Adds e node c w w' ns added fs)

include hadds

theorem mem_nodes {n : GraphNode} : n ∈ w'.nodes ↔ n ∈ w.nodes ∨ n ∈ ns := by
  rw [hadds.nodes, List.mem_append]

theorem mem_edges {edge : GraphEdge} : edge ∈ w'.edges ↔ edge ∈ w.edges ∨ edge = added := by
  rw [hadds.edges, List.mem_append, List.mem_singleton]

theorem mem_frontier {f : Frontier} : f ∈ w'.frontier ↔ f ∈ w.frontier ∨ f ∈ fs := by
  rw [hadds.frontier, List.mem_append]

theorem near (hnear : Near node w) : Near node w' := by
  intro m hm
  rcases hadds.mem_nodes.mp hm with hold | hnew
  · exact hnear m hold
  · exact Nat.le_of_eq (hadds.fresh m hnew).2.2

/-- What is added is at most one. -/
theorem pairwise {R : GraphNode → GraphNode → Prop} : ns.Pairwise R :=
  match ns, hadds.single with
  | [], _ => .nil
  | [_], _ => List.pairwise_singleton _ _

theorem seen_nodes (h : Base e root w) : w'.seen = w'.nodes.map GraphNode.id := by
  rw [hadds.seen, hadds.nodes, h.seen, List.map_append]

theorem distinct (h : Base e root w) : w'.seen.Nodup := by
  rw [hadds.seen, List.nodup_append]
  refine ⟨h.distinct, List.pairwise_map.mpr hadds.pairwise, ?_⟩
  intro a ha b hb hab
  obtain ⟨n, hn, rfl⟩ := List.mem_map.mp hb
  exact (hadds.fresh n hn).1 (hab ▸ ha)

theorem sorted (h : Base e root w) (hnear : Near node w) :
    w'.nodes.Pairwise fun a b => a.depth ≤ b.depth := by
  rw [hadds.nodes, List.pairwise_append]
  refine ⟨h.sorted, hadds.pairwise, ?_⟩
  intro a ha b hb
  rw [(hadds.fresh b hb).2.2]
  exact hnear a ha

/-- A node that is added was reached by the edge that is added. -/
theorem origin (h : Base e root w) (hnode : node ∈ w.nodes) :
    ∀ n ∈ w'.nodes, n = ⟨root, 0⟩ ∨ ∃ edge ∈ w'.edges, edge.target = some n.id ∧
      ∃ m ∈ w'.nodes, m.id = edge.source ∧ n.depth = m.depth + 1 := by
  intro n hn
  rcases hadds.mem_nodes.mp hn with hold | hnew
  · rcases h.origin n hold with hroot | ⟨edge, hedge, htarget, m, hm, hid, hlevel⟩
    · exact .inl hroot
    · exact .inr ⟨edge, hadds.mem_edges.mpr (.inl hedge), htarget, m,
        hadds.mem_nodes.mpr (.inl hm), hid, hlevel⟩
  · obtain ⟨-, htarget, hlevel⟩ := hadds.fresh n hnew
    exact .inr ⟨added, hadds.mem_edges.mpr (.inr rfl), htarget, node,
      hadds.mem_nodes.mpr (.inl hnode), hadds.source.symm, hlevel⟩

/-- The edge that is added leads to a node that was there, or to the one that is added. -/
theorem leads (h : Base e root w) (hnode : node ∈ w.nodes) (hnear : Near node w) :
    ∀ edge ∈ w'.edges, ∃ m ∈ w'.nodes, m.id = edge.source ∧
      ∀ t, edge.target = some t → ∃ n ∈ w'.nodes, n.id = t ∧ n.depth ≤ m.depth + 1 := by
  intro edge hedge
  rcases hadds.mem_edges.mp hedge with hold | rfl
  · obtain ⟨m, hm, hid, htarget⟩ := h.edge edge hold
    refine ⟨m, hadds.mem_nodes.mpr (.inl hm), hid, fun t ht => ?_⟩
    obtain ⟨n, hn, hrest⟩ := htarget t ht
    exact ⟨n, hadds.mem_nodes.mpr (.inl hn), hrest⟩
  · refine ⟨node, hadds.mem_nodes.mpr (.inl hnode), hadds.source.symm, fun t ht => ?_⟩
    have hmem := hadds.target t ht
    rw [hadds.seen_nodes h] at hmem
    obtain ⟨n, hn, hid⟩ := List.mem_map.mp hmem
    exact ⟨n, hn, hid, hadds.near hnear n hn⟩

end Adds

/-- **A call keeps the walk as it should be.** -/
theorem Base.call (h : Base e root w) (hnode : node ∈ w.nodes) (hdepth : node.depth < e.depth)
    (hroom : w.edges.length < e.maxCalls) (hnear : Near node w)
    (hadds : Adds e node c w w' ns added fs) : Base e root w' where
  seen := hadds.seen_nodes h
  distinct := hadds.distinct h
  first := by
    obtain ⟨hlt, -⟩ := List.getElem?_eq_some_iff.mp h.first
    rw [hadds.nodes, List.getElem?_append_left hlt]
    exact h.first
  few := by
    rw [hadds.nodes, List.length_append]
    have hsingle := hadds.single
    have hfew := h.few
    by_cases hnil : ns = []
    · rw [hnil]; exact hfew
    · have := hadds.room hnil
      omega
  fewEdges := by
    rw [hadds.edges, List.length_append, List.length_singleton]
    exact hroom
  sorted := hadds.sorted h hnear
  shallow n hn := by
    rcases hadds.mem_nodes.mp hn with hold | hnew
    · exact h.shallow n hold
    · rw [(hadds.fresh n hnew).2.2]; exact hdepth
  origin := hadds.origin h hnode
  edge := hadds.leads h hnode hnear
  limit edge hedge hlimit := by
    rw [hadds.frontier]
    intro hnil
    rcases hadds.mem_edges.mp hedge with hold | rfl
    · exact h.limit edge hold hlimit (List.append_eq_nil_iff.mp hnil).1
    · exact hadds.limit hlimit (List.append_eq_nil_iff.mp hnil).2
  stop f hf homitted := by
    rcases hadds.mem_frontier.mp hf with hold | hnew
    · obtain ⟨edge, hedge, hlimit⟩ := h.stop f hold homitted
      exact ⟨edge, hadds.mem_edges.mpr (.inl hedge), hlimit⟩
    · exact ⟨added, hadds.mem_edges.mpr (.inr rfl), (hadds.omits f hnew).2.2⟩
  known f hf := by
    rw [hadds.seen]
    rcases hadds.mem_frontier.mp hf with hold | hnew
    · exact List.mem_append_left _ (h.known f hold)
    · rw [(hadds.omits f hnew).1]
      exact List.mem_append_left _ (h.mem_seen.mpr ⟨node, hnode, rfl⟩)

end Calls

/-! ### The turn of a node

The calls of a node are visited in their order, until they or the edges run out.
-/

/-- What the frontier says of the calls of a node of which so many have their edges. -/
def Leaves (own : List Call) (k : Nat) (fs : List Frontier) : Prop :=
  (k = own.length ∧ fs = []) ∨ ∃ c f, own[k]? = some c ∧ fs = [f] ∧
    f.nextOrdinal = some c.ordinal ∧ f.omittedCalls = own.length - k

/-- The entries of a frontier that leave calls out. -/
def omitting (fs : List Frontier) : List Frontier := fs.filter fun f => 0 < f.omittedCalls

/-- **What the turn of a node adds to a walk.** -/
structure Turn (own : List Call) (node : GraphNode) (w w' : Walk) : Prop where
  nodes : w.nodes <+: w'.nodes
  head : w'.head = w.head
  account : ∃ k ≤ own.length, ∃ edges fs, w'.edges = w.edges ++ edges ∧
    edges.map GraphEdge.call = own.take k ∧ (∀ edge ∈ edges, edge.source = node.id) ∧
    w'.frontier = w.frontier ++ fs ∧ (∀ f ∈ fs, f.nodeId = node.id) ∧ Leaves own k (omitting fs)

section Turns

variable {idx : Index} {e : Effective} {root : Declaration} {node : GraphNode} {w w' : Walk}

/-- Where nothing is done about calls that there are, all of them are left out. -/
theorem Turn.leave {own : List Call} {c : Call} {f : Frontier} (hfirst : own[0]? = some c)
    (hnode : f.nodeId = node.id) (hnext : f.nextOrdinal = some c.ordinal)
    (homitted : f.omittedCalls = own.length) (hnodes : w'.nodes = w.nodes)
    (hedges : w'.edges = w.edges) (hfrontier : w'.frontier = w.frontier ++ [f])
    (hhead : w'.head = w.head) : Turn own node w w' := by
  obtain ⟨hlt, -⟩ := List.getElem?_eq_some_iff.mp hfirst
  have homitting : omitting [f] = [f] := by
    have hpos : 0 < f.omittedCalls := by omega
    exact List.filter_eq_self.mpr fun g hg => by
      rw [List.mem_singleton.mp hg]
      exact decide_eq_true hpos
  refine ⟨by rw [hnodes], hhead, 0, Nat.zero_le _, [], [f], ?_, rfl, ?_, hfrontier, ?_, ?_⟩
  · rw [hedges, List.append_nil]
  · intro edge hedge; cases hedge
  · intro f' hf'
    rw [List.mem_singleton.mp hf']
    exact hnode
  · rw [homitting]; exact .inr ⟨c, f, hfirst, rfl, hnext, by omega⟩

theorem Base.leave (h : Base e root w) {f : Frontier} (hknown : f.nodeId ∈ w.seen)
    (homitted : f.omittedCalls ≠ 0) (hnodes : w'.nodes = w.nodes) (hseen : w'.seen = w.seen)
    (hedges : w'.edges = w.edges) (hfrontier : w'.frontier = w.frontier ++ [f]) :
    Base e root w' := by
  refine ⟨?_, ?_, ?_, ?_, ?_, ?_, ?_, ?_, ?_, ?_, ?_, ?_⟩
  · rw [hseen, hnodes]; exact h.seen
  · rw [hseen]; exact h.distinct
  · rw [hnodes]; exact h.first
  · rw [hnodes]; exact h.few
  · rw [hedges]; exact h.fewEdges
  · rw [hnodes]; exact h.sorted
  · rw [hnodes]; exact h.shallow
  · rw [hnodes, hedges]; exact h.origin
  · rw [hnodes, hedges]; exact h.edge
  · rw [hfrontier]
    intro _ _ _ hnil
    cases (List.append_eq_nil_iff.mp hnil).2
  · rw [hfrontier, hedges]
    intro f' hf' hzero
    rcases List.mem_append.mp hf' with hold | hnew
    · exact h.stop f' hold hzero
    · rw [List.mem_singleton.mp hnew] at hzero; exact absurd hzero homitted
  · rw [hfrontier, hseen]
    intro f' hf'
    rcases List.mem_append.mp hf' with hold | hnew
    · exact h.known f' hold
    · rw [List.mem_singleton.mp hnew]; exact hknown

theorem visitCalls_nil (h : Base e root w) (hnear : Near node w)
    (hok : visitCalls idx e node [] w = .ok w') : Base e root w' ∧ Near node w' ∧ Turn [] node w w' := by
  cases hok
  refine ⟨h, hnear, List.prefix_refl _, rfl, 0, Nat.le_refl _, [], [], ?_, rfl, ?_, ?_, ?_,
    .inl ⟨rfl, rfl⟩⟩
  · rw [List.append_nil]
  · intro edge hedge; cases hedge
  · rw [List.append_nil]
  · intro f hf; cases hf

/-- **The calls of a node are gone through to their end, or to the last edge there may be.** -/
theorem visitCalls_turn {own : List Call} (h : Base e root w) (hnode : node ∈ w.nodes)
    (hdepth : node.depth < e.depth) (hnear : Near node w)
    (hok : visitCalls idx e node own w = .ok w') :
    Base e root w' ∧ Near node w' ∧ Turn own node w w' := by
  induction own generalizing w with
  | nil => exact visitCalls_nil h hnear hok
  | cons c rest ih =>
      unfold visitCalls at hok
      by_cases hcap : w.edges.length = e.maxCalls
      · rw [if_pos hcap] at hok
        cases hok
        have hknown : node.id ∈ w.seen := h.mem_seen.mpr ⟨node, hnode, rfl⟩
        have homitted : rest.length + 1 ≠ 0 := Nat.succ_ne_zero _
        exact ⟨h.leave hknown homitted rfl rfl rfl rfl, hnear,
          Turn.leave (by rfl) rfl rfl rfl rfl rfl rfl rfl⟩
      · rw [if_neg hcap] at hok
        obtain ⟨u, hu, hok⟩ := bind_eq_ok.mp hok
        obtain ⟨ns, added, fs, hadds⟩ := visitCall_adds h hu
        have hroom : w.edges.length < e.maxCalls := by
          have := h.fewEdges
          omega
        have hbase := h.call hnode hdepth hroom hnear hadds
        have hprefix : w.nodes <+: u.nodes := by
          rw [hadds.nodes]
          exact List.prefix_append _ _
        obtain ⟨hbase', hnear', hturn⟩ :=
          ih hbase (List.IsPrefix.subset hprefix hnode) (hadds.near hnear) hok
        obtain ⟨k, hk, edges, fs', hedges, hcalls, hsources, hfrontier, hnodes, hleaves⟩ :=
          hturn.account
        have homitting : omitting (fs ++ fs') = omitting fs' := by
          unfold omitting
          rw [List.filter_append]
          have hnone : (fs.filter fun f => 0 < f.omittedCalls) = [] := by
            rw [List.filter_eq_nil_iff]
            intro f hf hpos
            rw [(hadds.omits f hf).2.1] at hpos
            cases hpos
          rw [hnone, List.nil_append]
        refine ⟨hbase', hnear', hprefix.trans hturn.nodes, hturn.head.trans hadds.head, k + 1,
          Nat.succ_le_succ hk, added :: edges, fs ++ fs', ?_, ?_, ?_, ?_, ?_, ?_⟩
        · rw [hedges, hadds.edges, List.append_assoc, List.singleton_append]
        · rw [List.map_cons, hcalls, hadds.call, List.take_succ_cons]
        · intro edge hedge
          rcases List.mem_cons.mp hedge with hnew | hrest
          · rw [hnew]; exact hadds.source
          · exact hsources edge hrest
        · rw [hfrontier, hadds.frontier, List.append_assoc]
        · intro f hf
          rcases List.mem_append.mp hf with hnew | hrest
          · exact (hadds.omits f hnew).1
          · exact hnodes f hrest
        · rw [homitting]
          rcases hleaves with ⟨hall, hnil⟩ | ⟨c', f, hget, hone, hnext, homitted⟩
          · exact .inl ⟨by rw [List.length_cons, hall], hnil⟩
          · refine .inr ⟨c', f, ?_, hone, hnext, ?_⟩
            · rw [List.getElem?_cons_succ]; exact hget
            · rw [homitted, List.length_cons]; omega

/-- **The turn of a node keeps the walk as it should be, and accounts for the node's calls.** -/
theorem visitNode_turn (hzero : ∀ id c, (idx.calls id)[0]? = some c → c.ordinal = 0)
    (h : Base e root w) (hnode : node ∈ w.nodes) (hnear : Near node w)
    (hok : visitNode idx e node w = .ok w') :
    Base e root w' ∧ Near node w' ∧ Turn (idx.calls node.id) node w w' := by
  unfold visitNode at hok
  by_cases hnil : idx.calls node.id = []
  · simp only [if_pos hnil] at hok
    have hdone : visitCalls idx e node [] w = .ok w' := hok
    rw [hnil]
    exact visitCalls_nil h hnear hdone
  · simp only [if_neg hnil] at hok
    by_cases hleft : node.depth = e.depth ∨ w.callCapReached = true
    · simp only [if_pos hleft] at hok
      cases hok
      have hknown : node.id ∈ w.seen := h.mem_seen.mpr ⟨node, hnode, rfl⟩
      have hpos : (idx.calls node.id).length ≠ 0 := by
        intro hlength
        exact hnil (List.length_eq_zero_iff.mp hlength)
      obtain ⟨c, hfirst⟩ : ∃ c, (idx.calls node.id)[0]? = some c :=
        ⟨_, List.getElem?_eq_getElem (by omega)⟩
      have hnext : some 0 = some c.ordinal := by rw [hzero _ c hfirst]
      exact ⟨h.leave hknown hpos rfl rfl rfl rfl, hnear,
        Turn.leave hfirst rfl hnext rfl rfl rfl rfl rfl⟩
    · simp only [if_neg hleft] at hok
      have hdepth : node.depth < e.depth := by
        have hle := h.shallow node hnode
        have hne : node.depth ≠ e.depth := fun heq => hleft (.inl heq)
        omega
      exact visitCalls_turn h hnode hdepth hnear hok

end Turns

/-! ### The loop -/

def Walk.edgesOf (w : Walk) (id : String) : List GraphEdge := w.edges.filter fun a => a.source = id

def Walk.frontierOf (w : Walk) (id : String) : List Frontier :=
  w.frontier.filter fun f => f.nodeId = id

/-- So many calls of a node have their edges, and the frontier says so of the rest. -/
def Accounted (idx : Index) (w : Walk) (id : String) : Prop :=
  ∃ k ≤ (idx.calls id).length, (w.edgesOf id).map GraphEdge.call = (idx.calls id).take k ∧
    Leaves (idx.calls id) k (omitting (w.frontierOf id))

/-- What holds of a walk at every turn. -/
structure Steady (idx : Index) (e : Effective) (root : Declaration) (w : Walk) : Prop where
  base : Base e root w
  head : w.head ≤ w.nodes.length
  done : ∀ n ∈ w.nodes.take w.head, Accounted idx w n.id
  waiting : ∀ n ∈ w.nodes.drop w.head, w.edgesOf n.id = [] ∧ w.frontierOf n.id = []
  near : ∀ node, w.nodes[w.head]? = some node → Near node w

section Loop

variable {idx : Index} {e : Effective} {root : Declaration} {node : GraphNode} {w w' : Walk}

theorem Base.unknown (h : Base e root w) {id : String} (hid : id ∉ w.seen) :
    w.edgesOf id = [] ∧ w.frontierOf id = [] := by
  constructor
  · refine List.filter_eq_nil_iff.mpr fun edge hedge hsource => ?_
    obtain ⟨m, hm, hmid, -⟩ := h.edge edge hedge
    exact hid (h.mem_seen.mpr ⟨m, hm, hmid.trans (of_decide_eq_true hsource)⟩)
  · refine List.filter_eq_nil_iff.mpr fun f hf hnode => ?_
    have hknown := h.known f hf
    rw [of_decide_eq_true hnode] at hknown
    exact hid hknown

theorem Turn.other {own : List Call} (hturn : Turn own node w w') {id : String}
    (hne : id ≠ node.id) : w'.edgesOf id = w.edgesOf id ∧ w'.frontierOf id = w.frontierOf id := by
  obtain ⟨k, -, edges, fs, hedges, -, hsources, hfrontier, hnodes, -⟩ := hturn.account
  constructor
  · unfold Walk.edgesOf
    have hnone : (edges.filter fun a => a.source = id) = [] := by
      refine List.filter_eq_nil_iff.mpr fun edge hedge hsource => hne ?_
      rw [← hsources edge hedge]
      exact (of_decide_eq_true hsource).symm
    rw [hedges, List.filter_append, hnone, List.append_nil]
  · unfold Walk.frontierOf
    have hnone : (fs.filter fun f => f.nodeId = id) = [] := by
      refine List.filter_eq_nil_iff.mpr fun f hf hnode => hne ?_
      rw [← hnodes f hf]
      exact (of_decide_eq_true hnode).symm
    rw [hfrontier, List.filter_append, hnone, List.append_nil]

theorem Turn.accounted (hturn : Turn (idx.calls node.id) node w w')
    (hedgeless : w.edgesOf node.id = []) (hentryless : w.frontierOf node.id = []) :
    Accounted idx w' node.id := by
  obtain ⟨k, hk, edges, fs, hedges, hcalls, hsources, hfrontier, hnodes, hleaves⟩ := hturn.account
  refine ⟨k, hk, ?_, ?_⟩
  · have hall : (edges.filter fun a => a.source = node.id) = edges :=
      List.filter_eq_self.mpr fun edge hedge => decide_eq_true (hsources edge hedge)
    have hmine : w'.edgesOf node.id = edges := by
      unfold Walk.edgesOf at hedgeless ⊢
      rw [hedges, List.filter_append, hedgeless, hall, List.nil_append]
    rw [hmine]
    exact hcalls
  · have hall : (fs.filter fun f => f.nodeId = node.id) = fs :=
      List.filter_eq_self.mpr fun f hf => decide_eq_true (hnodes f hf)
    have hmine : w'.frontierOf node.id = fs := by
      unfold Walk.frontierOf at hentryless ⊢
      rw [hfrontier, List.filter_append, hentryless, hall, List.nil_append]
    rw [hmine]
    exact hleaves

theorem Accounted.congr {id : String} (h : Accounted idx w id)
    (hedges : w'.edgesOf id = w.edgesOf id) (hfrontier : w'.frontierOf id = w.frontierOf id) :
    Accounted idx w' id := by
  obtain ⟨k, hk, hcalls, hleaves⟩ := h
  refine ⟨k, hk, ?_, ?_⟩
  · rw [hedges]; exact hcalls
  · rw [hfrontier]; exact hleaves

theorem Base.turn (h : Base e root w) (head : Nat) : Base e root { w with head := head } :=
  ⟨h.seen, h.distinct, h.first, h.few, h.fewEdges, h.sorted, h.shallow, h.origin, h.edge, h.limit,
    h.stop, h.known⟩

theorem Base.ids (h : Base e root w) : (w.nodes.map GraphNode.id).Nodup := by
  rw [← h.seen]
  exact h.distinct

theorem ids_apart {xs ys : List GraphNode} (h : ((xs ++ ys).map GraphNode.id).Nodup)
    {n m : GraphNode} (hn : n ∈ xs) (hm : m ∈ ys) : n.id ≠ m.id := by
  rw [List.map_append, List.nodup_append] at h
  exact h.2.2 _ (List.mem_map_of_mem hn) _ (List.mem_map_of_mem hm)

/-- **A turn keeps the walk steady.** -/
theorem Steady.turn (hzero : ∀ id c, (idx.calls id)[0]? = some c → c.ordinal = 0)
    (h : Steady idx e root w) (hget : w.nodes[w.head]? = some node)
    (hok : visitNode idx e node { w with head := w.head + 1 } = .ok w') :
    Steady idx e root w' ∧ w'.head = w.head + 1 := by
  obtain ⟨hlt, hnode⟩ := List.getElem?_eq_some_iff.mp hget
  have hmem : node ∈ w.nodes := List.mem_of_getElem? hget
  obtain ⟨hbase, hnear, hturn⟩ :=
    visitNode_turn hzero (h.base.turn (w.head + 1)) hmem (h.near node hget) hok
  have hhead : w'.head = w.head + 1 := hturn.head
  -- The nodes are those done, the one whose turn it is, those that wait and the new ones.
  have hdrop : w.nodes.drop w.head = node :: w.nodes.drop (w.head + 1) := by
    rw [List.drop_eq_getElem_cons hlt, hnode]
  have htake : w.nodes.take (w.head + 1) = w.nodes.take w.head ++ [node] := by
    rw [List.take_succ_eq_append_getElem hlt, hnode]
  have hparts : ∀ k, ((w.nodes.take k ++ w.nodes.drop k).map GraphNode.id).Nodup := fun k => by
    rw [List.take_append_drop]
    exact h.base.ids
  have hidle : ∀ n ∈ node :: w.nodes.drop (w.head + 1),
      w.edgesOf n.id = [] ∧ w.frontierOf n.id = [] := by
    rw [← hdrop]
    exact h.waiting
  obtain ⟨extra, hextra⟩ := hturn.nodes
  change w.nodes ++ extra = w'.nodes at hextra
  have hall : ((w.nodes ++ extra).map GraphNode.id).Nodup := by
    rw [hextra]
    exact hbase.ids
  refine ⟨⟨hbase, ?_, ?_, ?_, ?_⟩, hhead⟩
  · rw [hhead, ← hextra, List.length_append]; omega
  · intro n hn
    rw [hhead, ← hextra, List.take_append_of_le_length (by omega), htake] at hn
    rcases List.mem_append.mp hn with hold | hthis
    · have hne := ids_apart (hparts w.head) hold (by rw [hdrop]; exact List.mem_cons_self)
      obtain ⟨hedges, hfrontier⟩ := hturn.other hne
      exact (h.done n hold).congr hedges hfrontier
    · rw [List.mem_singleton.mp hthis]
      obtain ⟨hedgeless, hentryless⟩ := hidle node List.mem_cons_self
      exact hturn.accounted hedgeless hentryless
  · intro n hn
    rw [hhead, ← hextra, List.drop_append_of_le_length (by omega)] at hn
    have hempty : node.id ≠ n.id ∧ w.edgesOf n.id = [] ∧ w.frontierOf n.id = [] := by
      rcases List.mem_append.mp hn with hold | hfresh
      · refine ⟨ids_apart (hparts (w.head + 1)) ?_ hold, hidle n (List.mem_cons_of_mem _ hold)⟩
        rw [htake]
        exact List.mem_append_right _ (List.mem_singleton.mpr rfl)
      · refine ⟨ids_apart hall hmem hfresh, h.base.unknown fun hseen => ?_⟩
        obtain ⟨m, hm, heq⟩ := h.base.mem_seen.mp hseen
        exact ids_apart hall hm hfresh heq
    obtain ⟨hne, hedgeless, hentryless⟩ := hempty
    obtain ⟨hedges, hfrontier⟩ := hturn.other hne.symm
    exact ⟨hedges.trans hedgeless, hfrontier.trans hentryless⟩
  · intro next hnext m hm
    rw [hhead] at hnext
    obtain ⟨hlt', hnext⟩ := List.getElem?_eq_some_iff.mp hnext
    have hbound : w.head < w'.nodes.length := by omega
    have hhere : w'.nodes[w.head] = node := by
      simp only [← hextra]
      rw [List.getElem_append_left hlt]
      exact hnode
    have hle := List.pairwise_iff_getElem.mp hbase.sorted w.head (w.head + 1) (by omega) hlt'
      (Nat.lt_succ_self _)
    rw [hhere, hnext] at hle
    have hm' := hnear m hm
    omega

/-- **The loop ends, and when it does all nodes are accounted for.** -/
theorem traverse_steady (hzero : ∀ id c, (idx.calls id)[0]? = some c → c.ordinal = 0) {fuel : Nat}
    (h : Steady idx e root w) (hfuel : e.maxNodes - w.head < fuel) {out : Option Walk}
    (hok : traverse idx e fuel w = .ok out) :
    ∃ u, out = some u ∧ Steady idx e root u ∧ u.head = u.nodes.length := by
  induction fuel generalizing w with
  | zero => exact absurd hfuel (Nat.not_lt_zero _)
  | succ fuel ih =>
      unfold traverse at hok
      cases hget : w.nodes[w.head]? with
      | none =>
          rw [hget] at hok
          cases hok
          have hle := List.getElem?_eq_none_iff.mp hget
          exact ⟨w, rfl, h, Nat.le_antisymm h.head hle⟩
      | some node =>
          rw [hget] at hok
          obtain ⟨v, hv, hok⟩ := bind_eq_ok.mp hok
          obtain ⟨hsteady, hhead⟩ := h.turn hzero hget hv
          obtain ⟨hlt, -⟩ := List.getElem?_eq_some_iff.mp hget
          have hfew := h.base.few
          refine ih hsteady ?_ hok
          rw [hhead]
          omega

theorem steady_start (hroot : root.syntaxId = e.rootSyntaxId) (hnodes : 0 < e.maxNodes) :
    Steady idx e root (start root e.rootSyntaxId) := by
  have hnear : ∀ node, (start root e.rootSyntaxId).nodes[0]? = some node →
      Near node (start root e.rootSyntaxId) := by
    intro node hnode m hm
    cases hnode
    rw [List.mem_singleton.mp hm]
    exact Nat.zero_le _
  refine ⟨⟨?_, ?_, rfl, hnodes, Nat.zero_le _, ?_, ?_, ?_, ?_, ?_, ?_, ?_⟩, Nat.zero_le _, ?_, ?_,
    hnear⟩
  · unfold start GraphNode.id
    rw [← hroot]
    rfl
  · exact List.nodup_singleton _
  · exact List.pairwise_singleton _ _
  · intro n hn
    rw [List.mem_singleton.mp hn]
    exact Nat.zero_le _
  · intro n hn; exact .inl (List.mem_singleton.mp hn)
  · intro edge hedge; cases hedge
  · intro edge hedge; cases hedge
  · intro f hf; cases hf
  · intro f hf; cases hf
  · intro n hn; cases hn
  · intro n _; exact ⟨rfl, rfl⟩

end Loop

end Baleyg.Contract.Graph
