/-
The order of the records is of no account to the call graph.

All the walk asks of the records it asks through an index.  What is looked up there by a key is the
same in whatever order the rows came, as long as the keys tell the rows apart (`Separate`), and
what is listed there is sorted by a key: the calls of a declaration by their places in the source,
the bindings of a call by their proofs.
-/
import Baleyg.Contract.Graph

namespace Baleyg.Contract.Graph

open Fallible (ensure bind_eq_ok mapM_eq_ok map_eq_of_forall₂)
open Native (Language DocumentKey)
open Table (Keyed)

/-- The same records in another order. -/
structure Reordered (a b : Records) : Prop where
  sourceSets : b.sourceSets.Perm a.sourceSets
  revisions : b.revisions.Perm a.revisions
  comparison : b.comparison = a.comparison
  producers : b.producers.Perm a.producers
  declarations : b.declarations.Perm a.declarations
  coverage : b.coverage.Perm a.coverage
  provenance : b.provenance.Perm a.provenance
  calls : b.calls.Perm a.calls
  callBindings : b.callBindings.Perm a.callBindings

def declarationKey (d : Declaration) : String × String × String :=
  (d.document.sourceSetId, d.revisionId, d.syntaxId)

def bindingKey (b : CallBinding) : Option String × String := (b.callId, b.provenanceId)

/-- Keys tell the records apart. -/
structure Separate (r : Records) : Prop where
  declarations : Keyed declarationKey r.declarations
  coverage : Keyed coverageKey r.coverage
  provenance : Keyed (fun p => p.id) r.provenance
  /-- A binding that is about no call has no key. -/
  bindings : Keyed bindingKey (r.callBindings.filter fun b => b.callId.isSome = true)

/-! ### What is looked up -/

section Lookups

variable {sha : Hasher} {loaded : Loaded} {a b : Records} {e : Effective}

theorem Reordered.byId (h : Reordered a b) (hseparate : Separate a) (sourceSetId revisionId : String) :
    byId b sourceSetId revisionId = byId a sourceSetId revisionId := by
  funext id
  refine Register.get_reverse_eq_of_perm ?_ (h.declarations.filter _)
  -- Within a snapshot a declaration's name is its key.
  refine List.pairwise_map.mpr ?_
  have hkeys := (List.pairwise_map.mp hseparate.declarations).sublist
    (List.filter_sublist (p := fun d : Declaration =>
      decide (d.revisionId = revisionId ∧ d.document.sourceSetId = sourceSetId)))
  refine hkeys.imp_of_mem fun {d d'} hd hd' hne heq => hne ?_
  obtain ⟨hrevision, hset⟩ := of_decide_eq_true (List.mem_filter.mp hd).2
  obtain ⟨hrevision', hset'⟩ := of_decide_eq_true (List.mem_filter.mp hd').2
  unfold declarationKey
  rw [hrevision, hrevision', hset, hset', heq]

theorem Reordered.recordedProof (h : Reordered a b) (hseparate : Separate a) (id : String) :
    recordedProof b id = recordedProof a id :=
  Register.get_reverse_eq_of_perm hseparate.provenance h.provenance

theorem Reordered.coverageOf (h : Reordered a b) (hseparate : Separate a) :
    coverageOf b e = coverageOf a e := by
  funext document
  unfold Graph.coverageOf
  congr 1
  funext producer
  exact Register.get_reverse_eq_of_perm hseparate.coverage h.coverage

theorem Reordered.atComparison (h : Reordered a b) : atComparison b e = atComparison a e := by
  unfold Graph.atComparison
  rw [h.comparison]

theorem Reordered.admitted (h : Reordered a b) (hseparate : Separate a) :
    admitted b e = admitted a e := by
  unfold Graph.admitted
  simp only [h.sourceSets.mem_iff, h.revisions.mem_iff, h.producers.mem_iff,
    h.byId hseparate]

theorem Reordered.projectBinding (h : Reordered a b) (hseparate : Separate a) :
    projectBinding sha loaded b e = projectBinding sha loaded a e := by
  funext binding
  unfold Graph.projectBinding expectedStaleTarget
  simp only [h.atComparison, h.recordedProof hseparate, h.byId hseparate]

theorem Reordered.measuredCalls (h : Reordered a b) (hseparate : Separate a)
    (hids : Keyed Call.id a.calls) (sourceSetId revisionId : String) :
    measuredCalls b sourceSetId revisionId = measuredCalls a sourceSetId revisionId := by
  funext owner
  unfold Graph.measuredCalls
  rw [h.byId hseparate]
  refine Ranking.ordered_eq_of_perm (h.calls.filter _) ?_
  -- A call's name is part of its place.
  refine List.pairwise_map.mpr ?_
  have hne := (List.pairwise_map.mp hids).sublist (List.filter_sublist (p := fun c : Call =>
    decide (c.revisionId = revisionId ∧ c.document.sourceSetId = sourceSetId ∧
      c.ownerSyntaxId = owner ∧
      (Graph.byId a sourceSetId revisionId owner).map Declaration.document = some c.document)))
  refine hne.imp fun {c c'} hid heq => hid ?_
  unfold sourcePlace at heq
  simp only [EmbeddingLike.apply_eq_iff_eq, Prod.mk.injEq] at heq
  exact heq.2.2.2

/-! ### The proofs -/

theorem projectProofs_ids {proofs : List Provenance}
    (h : projectProofs sha loaded a e = .ok proofs) :
    proofs.map (fun p => p.id) = a.provenance.map fun p => p.id := by
  unfold projectProofs at h
  by_cases hat : Graph.atComparison a e = true
  · rw [if_pos hat] at h
    cases h
    rfl
  · rw [if_neg hat] at h
    obtain ⟨-, h⟩ := Fallible.ensure_bind_eq_ok.mp h
    refine map_eq_of_forall₂ (mapM_eq_ok.mp h) fun row row' hrow => ?_
    obtain ⟨label, -, hrow⟩ := bind_eq_ok.mp hrow
    cases hrow
    rfl

theorem Reordered.projectProofs (h : Reordered a b) {proofs : List Provenance}
    (hok : projectProofs sha loaded a e = .ok proofs) :
    ∃ proofs', projectProofs sha loaded b e = .ok proofs' ∧ proofs'.Perm proofs := by
  unfold Graph.projectProofs at hok ⊢
  rw [h.atComparison]
  by_cases hat : Graph.atComparison a e = true
  · rw [if_pos hat] at hok ⊢
    cases hok
    exact ⟨b.provenance, rfl, h.provenance⟩
  · rw [if_neg hat] at hok ⊢
    obtain ⟨hknown, hok⟩ := Fallible.ensure_bind_eq_ok.mp hok
    obtain ⟨proofs', hlabelled, hperm⟩ :=
      List.perm_comp_forall₂ h.provenance (mapM_eq_ok.mp hok)
    exact ⟨proofs', Fallible.ensure_bind_eq_ok.mpr ⟨hknown, mapM_eq_ok.mpr hlabelled⟩, hperm⟩

theorem Reordered.proof (hseparate : Separate a) {proofs proofs' : List Provenance}
    (hok : Graph.projectProofs sha loaded a e = .ok proofs) (hperm : proofs'.Perm proofs)
    (id : String) :
    Register.get (fun p : Provenance => p.id) id proofs'.reverse =
      Register.get (fun p : Provenance => p.id) id proofs.reverse := by
  refine Register.get_reverse_eq_of_perm ?_ hperm
  unfold Keyed
  rw [projectProofs_ids hok]
  exact hseparate.provenance

end Lookups

/-! ### The walk over a reordered index -/

/-- An index that lists the bindings of calls in another order. -/
structure Index.Alike (x y : Index) : Prop where
  declaration : y.declaration = x.declaration
  calls : y.calls = x.calls
  proof : y.proof = x.proof
  coverage : y.coverage = x.coverage
  project : y.project = x.project
  bindings : ∀ id, (y.bindings id).Perm (x.bindings id)
  keyed : ∀ id, Keyed CallBinding.provenanceId (x.bindings id)

namespace Index.Alike

variable {x y : Index} {e : Effective}

theorem selectBinding (h : Index.Alike x y) (c : Call) : selectBinding y c = selectBinding x c := by
  have hordered : Ranking.ordered CallBinding.provenanceId (y.bindings c.id) =
      Ranking.ordered CallBinding.provenanceId (x.bindings c.id) :=
    Ranking.ordered_eq_of_perm (h.bindings c.id) (h.keyed c.id)
  unfold Graph.selectBinding usable
  rw [hordered, h.coverage, h.proof]

theorem visitCall (h : Index.Alike x y) (node : GraphNode) (w : Walk) (c : Call) :
    visitCall y e node w c = visitCall x e node w c := by
  unfold Graph.visitCall authorize
  rw [h.selectBinding, h.project]
  unfold destination
  rw [h.proof, h.declaration]

theorem visitCalls (h : Index.Alike x y) (node : GraphNode) (own : List Call) (w : Walk) :
    visitCalls y e node own w = visitCalls x e node own w := by
  induction own generalizing w with
  | nil => rfl
  | cons c rest ih =>
      unfold Graph.visitCalls
      rw [h.visitCall]
      congr 1
      congr 1
      funext u
      exact ih u

theorem visitNode (h : Index.Alike x y) (node : GraphNode) (w : Walk) :
    visitNode y e node w = visitNode x e node w := by
  unfold Graph.visitNode
  simp only [h.calls, h.visitCalls]

/-- **The walk is the same.** -/
theorem traverse (h : Index.Alike x y) (fuel : Nat) (w : Walk) :
    traverse y e fuel w = traverse x e fuel w := by
  induction fuel generalizing w with
  | zero => rfl
  | succ fuel ih =>
      unfold Graph.traverse
      cases w.nodes[w.head]? with
      | none => rfl
      | some node =>
          dsimp only
          rw [h.visitNode]
          congr 1
          funext u
          exact ih u

end Index.Alike

section Answers

variable {sha : Hasher} {loaded : Loaded} {a b : Records} {e : Effective}

theorem keyed_installs (hseparate : Separate a) (proof : String → Option Provenance) (id : String) :
    Keyed CallBinding.provenanceId (a.callBindings.filter (installs proof e id)) := by
  refine List.pairwise_map.mpr ?_
  have hsub : (a.callBindings.filter (installs proof e id)).Sublist
      (a.callBindings.filter fun b => b.callId.isSome = true) := by
    refine List.monotone_filter_right _ fun b hb => ?_
    rw [(of_decide_eq_true hb).1]
    rfl
  have hkeys := (List.pairwise_map.mp hseparate.bindings).sublist hsub
  refine hkeys.imp_of_mem fun {b b'} hb hb' hne heq => hne ?_
  unfold bindingKey
  rw [(of_decide_eq_true (List.mem_filter.mp hb).2).1,
    (of_decide_eq_true (List.mem_filter.mp hb').2).1, heq]

theorem Reordered.index (h : Reordered a b) (hseparate : Separate a)
    (hids : Keyed Call.id a.calls) {x : Index} (hok : index sha loaded a e = .ok x) :
    ∃ y, index sha loaded b e = .ok y ∧ Index.Alike x y := by
  obtain ⟨proofs, hproofs, hok⟩ := bind_eq_ok.mp hok
  cases hok
  obtain ⟨proofs', hproofs', hperm⟩ := h.projectProofs hproofs
  have hproof : (fun id => Register.get (fun p : Provenance => p.id) id proofs'.reverse) =
      fun id => Register.get (fun p : Provenance => p.id) id proofs.reverse := by
    funext id
    exact Reordered.proof hseparate hproofs hperm id
  refine ⟨_, bind_eq_ok.mpr ⟨proofs', hproofs', rfl⟩, ?_⟩
  refine ⟨h.byId hseparate _ _, h.measuredCalls hseparate hids _ _, hproof,
    h.coverageOf hseparate, h.projectBinding hseparate, fun id => ?_, fun id => ?_⟩
  · dsimp only
    rw [hproof]
    exact h.callBindings.filter _
  · exact keyed_installs hseparate _ id

/-- **Records that are told apart answer alike in whatever order they come.** -/
theorem Reordered.expectedGraph (h : Reordered a b) (hseparate : Separate a)
    (hids : Keyed Call.id a.calls) {fuel : Nat} {request : Request} {out : Option GraphResult}
    (hok : expectedGraph sha loaded fuel a request = .ok (.ok out)) :
    expectedGraph sha loaded fuel b request = .ok (.ok out) := by
  unfold Graph.expectedGraph at hok ⊢
  cases heffective : effective request with
  | error f => rw [heffective] at hok; cases hok
  | ok e =>
      rw [heffective] at hok
      dsimp only at hok ⊢
      rw [h.admitted hseparate]
      cases hadmitted : Graph.admitted a e with
      | error f => rw [hadmitted] at hok; cases hok
      | ok root =>
          rw [hadmitted] at hok
          dsimp only at hok ⊢
          obtain ⟨result, hanswer, hok⟩ := bind_eq_ok.mp hok
          refine bind_eq_ok.mpr ⟨result, ?_, hok⟩
          obtain ⟨x, hx, hwalk⟩ := bind_eq_ok.mp hanswer
          obtain ⟨y, hy, halike⟩ := h.index hseparate hids hx
          refine bind_eq_ok.mpr ⟨y, hy, ?_⟩
          rw [halike.traverse]
          exact hwalk

end Answers

end Baleyg.Contract.Graph
