/-
A release keeps the evidence sound.

The unit of a pending revision is a run of small deletions.  Each has two lemmas
here: that it keeps `Sound`, and that it does no more than `Shed` allows, which is
to take rows of the released revision, and parents and child rows nothing selects
any more.  The loops over manifest rows, child tables and candidates then keep both
by induction on what they have left to do.
-/
import Baleyg.Store.Sound

namespace Baleyg.Store

variable {digest : Preimage → String} {P : Set Preimage} {db db' db'' : Database}
  {pin : IndexPin} {k : ParentKey}

/-! ### What a release may do -/

/-- **The rows a release of `pin` may take**, and what it then leaves as it was. -/
structure Shed (pin : IndexPin) (db db' : Database) : Prop where
  metadata : db'.metadata = db.metadata
  headers : db'.headers = db.headers
  inputs : db'.inputs = db.inputs
  supersessions : db'.supersessions = db.supersessions
  debt : db'.debt = db.debt
  manifest : db'.manifest.Sublist db.manifest
  others : ∀ pin', pin' ≠ pin → db'.manifestOf pin' = db.manifestOf pin'
  parents : db'.parents.Sublist db.parents
  children : db'.children.Sublist db.children
  selectedAt : ∀ k, db'.Selected k → db'.selectedAt k = db.selectedAt k
  candidates : ∀ c ∈ db'.candidates, c ∈ db.candidates ∨ c.revision = pin

namespace Shed

theorem refl (pin : IndexPin) (db : Database) : Shed pin db db where
  metadata := rfl
  headers := rfl
  inputs := rfl
  supersessions := rfl
  debt := rfl
  manifest := List.Sublist.refl _
  others := fun _ _ => rfl
  parents := List.Sublist.refl _
  children := List.Sublist.refl _
  selectedAt := fun _ _ => rfl
  candidates := fun _ hc => Or.inl hc

theorem selected (h : Shed pin db db') {k : ParentKey} (hk : db'.Selected k) : db.Selected k := by
  obtain ⟨m, hm, hmk⟩ := hk
  exact ⟨m, h.manifest.subset hm, hmk⟩

theorem trans (h : Shed pin db db') (h' : Shed pin db' db'') : Shed pin db db'' where
  metadata := h'.metadata.trans h.metadata
  headers := h'.headers.trans h.headers
  inputs := h'.inputs.trans h.inputs
  supersessions := h'.supersessions.trans h.supersessions
  debt := h'.debt.trans h.debt
  manifest := h'.manifest.trans h.manifest
  others := fun pin' hne => (h'.others pin' hne).trans (h.others pin' hne)
  parents := h'.parents.trans h.parents
  children := h'.children.trans h.children
  selectedAt := fun k hk => (h'.selectedAt k hk).trans (h.selectedAt k (h'.selected hk))
  candidates := by
    intro c hc
    rcases h'.candidates c hc with hc | hc
    · exact h.candidates c hc
    · exact Or.inr hc

theorem headed (h : Shed pin db db') {pin' : IndexPin} : db'.Headed pin' ↔ db.Headed pin' := by
  unfold Database.Headed
  rw [h.headers]

end Shed

/-- A release keeps the evidence sound and stays within `Shed`. -/
structure Releases (digest : Preimage → String) (P : Set Preimage) (pin : IndexPin)
    (db db' : Database) : Prop where
  sound : db'.Sound digest P
  shed : Shed pin db db'

namespace Releases

theorem refl (h : db.Sound digest P) : Releases digest P pin db db := ⟨h, Shed.refl pin db⟩

theorem trans (h : Releases digest P pin db db') (h' : Releases digest P pin db' db'') :
    Releases digest P pin db db'' := ⟨h'.sound, h.shed.trans h'.shed⟩

end Releases

/-! ### Journaling -/

theorem releases_journal (h : db.Sound digest P) (hpin : db.Headed pin) (k : ParentKey) :
    Releases digest P pin db (db.journal pin k) := by
  unfold Database.journal
  split
  · exact Releases.refl h
  · refine ⟨{ h with journaled := ?_, foreignKeys := ?_ }, { Shed.refl pin db with candidates := ?_ }⟩
    · intro p hp
      rcases h.journaled p hp with hsel | ⟨c, hc, hck⟩
      · exact Or.inl hsel
      · exact Or.inr ⟨c, List.mem_append_left _ hc, hck⟩
    · refine h.foreignKeys.with_candidates fun c hc => ?_
      rcases List.mem_append.mp hc with hc | hc
      · exact h.foreignKeys.candidatesHeaded c hc
      · rw [List.mem_singleton.mp hc]; exact hpin
    · intro c hc
      rcases List.mem_append.mp hc with hc | hc
      · exact Or.inl hc
      · rw [List.mem_singleton.mp hc]; exact Or.inr rfl

theorem mem_journal (db : Database) (pin : IndexPin) (k : ParentKey) :
    ⟨pin, k⟩ ∈ (db.journal pin k).candidates := by
  unfold Database.journal
  split
  · assumption
  · exact List.mem_append_right _ List.mem_cons_self

theorem mem_journal_of_mem {c : Candidate} (hc : c ∈ db.candidates) (pin : IndexPin)
    (k : ParentKey) : c ∈ (db.journal pin k).candidates := by
  unfold Database.journal
  split
  · exact hc
  · exact List.mem_append_left _ hc

/-- A candidate may be crossed off once it is selected, or is no longer there. -/
theorem releases_unjournal (h : db.Sound digest P)
    (hk : db.Selected k ∨ ∀ p ∈ db.parents, p.key ≠ k) :
    Releases digest P pin db (db.unjournal pin k) := by
  have hsub : ∀ c ∈ (db.unjournal pin k).candidates, c ∈ db.candidates := fun c hc =>
    List.mem_of_mem_filter hc
  refine ⟨{ h with journaled := ?_, foreignKeys := ?_ },
    { Shed.refl pin db with candidates := fun c hc => Or.inl (hsub c hc) }⟩
  · intro p hp
    rcases h.journaled p hp with hsel | ⟨c, hc, hck⟩
    · exact Or.inl hsel
    · by_cases hpk : p.key = k
      · rcases hk with hk | hk
        · exact Or.inl (hpk ▸ hk)
        · exact absurd hpk (hk p hp)
      · refine Or.inr ⟨c, List.mem_filter.mpr ⟨hc, ?_⟩, hck⟩
        rw [decide_eq_true_eq]
        rintro ⟨-, hc'⟩
        exact hpk (hck.symm.trans hc')
  · exact h.foreignKeys.with_candidates fun c hc =>
      h.foreignKeys.candidatesHeaded c (hsub c hc)

/-! ### Child rows -/

/-- Only child rows of `k` went. -/
structure Pruned (k : ParentKey) (db db' : Database) : Prop where
  rest : db' = { db with children := db'.children }
  children : db'.children.Sublist db.children
  others : ∀ r ∈ db.children, r.parent ≠ k → r ∈ db'.children

namespace Pruned

theorem refl (k : ParentKey) (db : Database) : Pruned k db db :=
  ⟨rfl, List.Sublist.refl _, fun _ hr _ => hr⟩

theorem trans (h : Pruned k db db') (h' : Pruned k db' db'') : Pruned k db db'' where
  rest := by rw [h'.rest, h.rest]
  children := h'.children.trans h.children
  others := fun r hr hne => h'.others r (h.others r hr hne) hne

theorem parents (h : Pruned k db db') : db'.parents = db.parents := by rw [h.rest]

theorem manifest (h : Pruned k db db') : db'.manifest = db.manifest := by rw [h.rest]

theorem candidates (h : Pruned k db db') : db'.candidates = db.candidates := by rw [h.rest]

theorem selected (h : Pruned k db db') {k' : ParentKey} : db'.Selected k' ↔ db.Selected k' := by
  unfold Database.Selected
  rw [h.manifest]

end Pruned

/-- Child rows of a parent nothing selects may go, as far as references allow. -/
theorem releases_pruned (h : db.Sound digest P) (hp : Pruned k db db')
    (hunselected : ¬ db.Selected k) (hfk : db'.ForeignKeys) : Releases digest P pin db db' := by
  obtain ⟨hrest, hsub, hothers⟩ := hp
  generalize hchildren : db'.children = children at hrest hsub hothers
  subst hrest
  refine ⟨{ h with
      childrenKeyed := h.childrenKeyed.sublist hsub, rows := ?_, complete := ?_,
      foreignKeys := hfk },
    { Shed.refl pin db with children := hsub, selectedAt := ?_ }⟩
  · intro r hr; exact h.rows r (hsub.subset hr)
  · intro p hp hsel
    obtain ⟨f, hf, hrows⟩ := h.complete p hp hsel
    refine ⟨f, hf, fun r hr => hothers r (hrows r hr) ?_⟩
    rw [Parent.hangOff_rows p f r hr]
    intro hpk
    exact hunselected (hpk ▸ hsel)
  · intro k' hsel
    have hne : k' ≠ k := by
      intro hk
      exact hunselected (hk ▸ hsel)
    have hchildrenOf : children.filter (fun r => r.parent = k')
        = db.children.filter fun r => r.parent = k' := by
      refine Table.filter_eq_of_sublist hsub h.childrenKeyed.nodup fun r hr hrk => ?_
      refine hothers r hr ?_
      rw [decide_eq_true_eq.mp hrk]
      exact hne
    unfold Database.selectedAt Database.childrenOf
    rw [hchildrenOf]

/-- No row of `id` is left in these tables. -/
def Emptied (db : Database) (id : String) (tables : List ChildTable) : Prop :=
  ∀ r ∈ db.children, r.owner = id → r.table ∉ tables

variable {t : ChildTable} {id : String} {r : ChildRow}

theorem isChild_iff : Database.isChild t id r = true ↔ r.table = t ∧ r.owner = id := by
  unfold Database.isChild
  rw [decide_eq_true_eq]

theorem mem_deleteChild_of_not (hr : r ∈ db.children) (hnot : Database.isChild t id r = false) :
    r ∈ (db.deleteChild t id).children := by
  unfold Database.deleteChild
  dsimp only
  split
  · rw [List.mem_filter, hnot]; exact ⟨hr, rfl⟩
  · exact Table.mem_deleteUpTo_of_not hr hnot

theorem not_mem_deleteChild (hself : t.selfReferential = true)
    (hchild : Database.isChild t id r = true) : r ∉ (db.deleteChild t id).children := by
  unfold Database.deleteChild
  dsimp only
  rw [if_pos hself, List.mem_filter, hchild]
  rintro ⟨-, hfalse⟩
  exact Bool.false_ne_true hfalse

theorem deleteChild_sublist (db : Database) (t : ChildTable) (id : String) :
    (db.deleteChild t id).children.Sublist db.children := by
  unfold Database.deleteChild
  dsimp only
  split
  · exact List.filter_sublist
  · exact Table.deleteUpTo_sublist _ _ _

theorem pruned_deleteChild (db : Database) (ht : t ∈ k.kind.children) :
    Pruned k db (db.deleteChild t k.id) := by
  refine ⟨rfl, deleteChild_sublist db t k.id, fun r hr hne => mem_deleteChild_of_not hr ?_⟩
  rw [Bool.eq_false_iff]
  intro hchild
  obtain ⟨htable, howner⟩ := isChild_iff.mp hchild
  refine hne ?_
  unfold ChildRow.parent
  rw [htable, howner, ChildTable.kind_of_mem ht]

/-- **A table can be emptied once the ones before it are.** -/
theorem foreignKeys_deleteChild (hfk : db.ForeignKeys) {done tables : List ChildTable}
    (hsplit : k.kind.children = done ++ t :: tables) (hdone : Emptied db k.id done)
    (hdependents : ∀ p ∈ db.parents, p.above ≠ some k) : (db.deleteChild t k.id).ForeignKeys := by
  have ht : t ∈ k.kind.children := by rw [hsplit]; simp
  have hsub := (deleteChild_sublist db t k.id).subset
  refine hfk.with_children (fun r hr => hsub hr) ?_
  intro r hr t' owner columns href r' hr' ht' ho'
  by_contra hgone
  -- the row that went is one of this table
  have hchild : Database.isChild t k.id r' = true := by
    by_contra hnot
    exact hgone (mem_deleteChild_of_not hr' (Bool.not_eq_true _ ▸ hnot))
  obtain ⟨htt, hid⟩ := isChild_iff.mp hchild
  rw [← ht', ← ho', htt, hid] at href
  rcases r.references_down href with ⟨howner, ⟨hlt, hkind⟩ | ⟨hself, hselfref⟩⟩ | ⟨hkind, hclass⟩
  · -- the referring row is in an earlier table, and those are empty
    have hmem : r.table ∈ k.kind.children := by
      rw [← ChildTable.kind_of_mem ht, hkind]
      exact r.table.mem_children
    have hsorted := k.kind.children_sorted
    rw [hsplit, List.pairwise_append, List.pairwise_cons] at hsorted
    rw [hsplit, List.mem_append, List.mem_cons] at hmem
    rcases hmem with hmem | hmem | hmem
    · exact hdone r (hsub hr) howner.symm hmem
    · rw [hmem] at hlt; exact Nat.lt_irrefl _ hlt
    · exact Nat.lt_asymm hlt (hsorted.2.1.1 _ hmem)
  · exact not_mem_deleteChild hselfref (isChild_iff.mpr ⟨hself, howner.symm⟩) hr
  · -- a class refers to its graph's nodes, and its projection would still hang there
    obtain ⟨c, hc, -, hgraph⟩ := hfk.children r (hsub hr) _ hclass
    refine hdependents _ (Database.mem_classProjections.mp hc) ?_
    show some (⟨.graph, c.graphProjection⟩ : ParentKey) = some k
    rw [hgraph, ← hkind, ChildTable.kind_of_mem ht]

theorem emptied_deleteChild
    (hshort : ¬ (t.selfReferential = false ∧ (db.deleteChild t id).changedFrom db
      = Database.deleteLimit)) : Emptied (db.deleteChild t id) id [t] := by
  intro r hr hid hmem
  have hchild := isChild_iff.mpr ⟨List.mem_singleton.mp hmem, hid⟩
  by_cases hself : t.selfReferential = true
  · exact not_mem_deleteChild hself hchild hr
  · rw [Bool.not_eq_true] at hself
    have hlen := Table.length_deleteUpTo (Database.isChild t id) Database.deleteLimit db.children
    unfold Database.changedFrom Database.deleteChild at hshort
    unfold Database.deleteChild at hr
    simp only [hself, Bool.false_eq_true, if_false, true_and] at hshort hr
    have hall := Table.not_of_mem_deleteUpTo (by omega) hr
    rw [hchild] at hall
    exact Bool.false_ne_true hall.symm

/-- **The child tables of an unselected parent, in order.**  If the DELETEs all ran
then no row of the parent is left. -/
theorem releases_deleteChildren (tables : List ChildTable) :
    ∀ {done : List ChildTable} {db : Database}, db.Sound digest P → ¬ db.Selected k →
      (∀ p ∈ db.parents, p.above ≠ some k) → k.kind.children = done ++ tables →
      Emptied db k.id done →
      Releases digest P pin db (db.deleteChildren k.id tables).1
        ∧ Pruned k db (db.deleteChildren k.id tables).1
        ∧ ((db.deleteChildren k.id tables).2 = true →
          Emptied (db.deleteChildren k.id tables).1 k.id k.kind.children) := by
  induction tables with
  | nil =>
      intro done db h _ _ hsplit hdone
      rw [List.append_nil] at hsplit
      exact ⟨Releases.refl h, Pruned.refl k db, fun _ => hsplit ▸ hdone⟩
  | cons t tables ih =>
      intro done db h hunselected hdependents hsplit hdone
      have ht : t ∈ k.kind.children := by rw [hsplit]; simp
      have hpruned := pruned_deleteChild db ht
      have hfk := foreignKeys_deleteChild h.foreignKeys hsplit hdone hdependents
      have hrel : Releases digest P pin db (db.deleteChild t k.id) :=
        releases_pruned h hpruned hunselected hfk
      unfold Database.deleteChildren
      dsimp only
      split
      · exact ⟨hrel, hpruned, by intro hfalse; cases hfalse⟩
      · rename_i hshort
        have hdone' : Emptied (db.deleteChild t k.id) k.id (done ++ [t]) := by
          intro r hr hid hmem
          rcases List.mem_append.mp hmem with hmem | hmem
          · exact hdone r (hpruned.children.subset hr) hid hmem
          · exact emptied_deleteChild hshort r hr hid hmem
        obtain ⟨hrel', hpruned', hend⟩ := ih hrel.sound
          (fun hsel => hunselected (hpruned.selected.mp hsel))
          (fun p hp => hdependents p (hpruned.parents ▸ hp))
          (by rw [hsplit, List.append_assoc, List.singleton_append]) hdone'
        exact ⟨hrel.trans hrel', hpruned.trans hpruned', hend⟩

/-! ### Parent rows -/

theorem releases_deleteParent (h : db.Sound digest P) (hunselected : ¬ db.Selected k)
    (hdependents : ∀ p ∈ db.parents, p.above ≠ some k)
    (hempty : Emptied db k.id k.kind.children) :
    Releases digest P pin db ((db.deleteParent k).unjournal pin k) := by
  have hrows : ∀ r ∈ db.children, r.parent ≠ k := by
    intro r hr hrk
    refine hempty r hr (by rw [← hrk]; rfl) ?_
    rw [← hrk]
    exact r.table.mem_children
  have hgone : ∀ p ∈ (db.deleteParent k).parents, p ∈ db.parents ∧ p.key ≠ k := by
    intro p hp
    obtain ⟨hp, hne⟩ := List.mem_filter.mp hp
    exact ⟨hp, by simpa using hne⟩
  have hparent : Releases digest P pin db (db.deleteParent k) := by
    refine ⟨{ h with
        parentsKeyed := h.parentsKeyed.sublist List.filter_sublist, bound := ?_, rows := ?_,
        complete := ?_, journaled := ?_,
        foreignKeys := h.foreignKeys.deleteParent hunselected hdependents hrows },
      { Shed.refl pin db with parents := List.filter_sublist, selectedAt := ?_ }⟩
    · exact fun p hp => h.bound p (hgone p hp).1
    · intro r hr
      obtain ⟨p, hp, f, hf, hrf⟩ := h.rows r hr
      refine ⟨p, List.mem_filter.mpr ⟨hp, ?_⟩, f, hf, hrf⟩
      have hne := hrows r hr
      rw [Parent.hangOff_rows p f r hrf] at hne
      simpa using hne
    · exact fun p hp => h.complete p (hgone p hp).1
    · exact fun p hp => h.journaled p (hgone p hp).1
    · intro k' hsel
      have hne : k' ≠ k := by
        intro hk
        exact hunselected (hk ▸ hsel)
      have hfind : (db.parents.filter fun p => p.key ≠ k).find? (fun p => p.key = k')
          = db.parents.find? fun p => p.key = k' := by
        rw [List.find?_filter]
        congr 1
        funext p
        by_cases hpk : p.key = k'
        · simp [hpk, hne]
        · simp [hpk]
      unfold Database.selectedAt Database.deleteParent
      rw [hfind]
      rfl
  exact hparent.trans (releases_unjournal hparent.sound
    (Or.inr fun p hp => (hgone p hp).2))

/-! ### Candidates -/

theorem releases_cleanCandidate (h : db.Sound digest P) (hpin : db.Headed pin) :
    Releases digest P pin db (db.cleanCandidate pin k).1 := by
  unfold Database.cleanCandidate
  split
  · rename_i hsel
    exact releases_unjournal h (Or.inl hsel)
  · rename_i hunselected
    split
    · rename_i child _
      exact releases_journal h hpin child
    · rename_i hnone
      have hdependents : ∀ p ∈ db.parents, p.above ≠ some k := by
        intro p hp habove
        unfold Database.dependent? at hnone
        rw [Option.map_eq_none_iff, Table.first_eq_none, List.filter_eq_nil_iff] at hnone
        exact hnone p hp (by simpa using habove)
      have hempty : Emptied db k.id [] := by
        intro r _ _ hmem
        cases hmem
      obtain ⟨hrel, hpruned, hend⟩ := @releases_deleteChildren digest P pin k k.kind.children []
        db h hunselected hdependents rfl hempty
      dsimp only
      split
      · rename_i hall
        refine hrel.trans (releases_deleteParent hrel.sound ?_ ?_ (hend hall))
        · exact fun hsel => hunselected (hpruned.selected.mp hsel)
        · exact fun p hp => hdependents p (hpruned.parents ▸ hp)
      · exact hrel

/-- **`cleanup_release_candidate` keeps the evidence sound.** -/
theorem releases_cleanup (kind : Kind) (n : Nat) :
    ∀ {db : Database}, db.Sound digest P → db.Headed pin →
      Releases digest P pin db (db.cleanup pin kind n) := by
  induction n with
  | zero => intro db h _; exact Releases.refl h
  | succ n ih =>
      intro db h hpin
      unfold Database.cleanup
      split
      · exact Releases.refl h
      · rename_i id _
        have hclean := releases_cleanCandidate (k := ⟨kind, id⟩) h hpin
        dsimp only
        split
        · exact hclean.trans (ih hclean.sound (hclean.shed.headed.mpr hpin))
        · exact hclean

theorem releases_cleanAll (h : db.Sound digest P) (hpin : db.Headed pin) :
    Releases digest P pin db (db.cleanAll pin) := by
  unfold Database.cleanAll
  have hclasses := releases_cleanup .classes Database.unitLimit h hpin
  have hgraph := releases_cleanup .graph Database.unitLimit hclasses.sound
    (hclasses.shed.headed.mpr hpin)
  have hsofar := hclasses.trans hgraph
  exact hsofar.trans (releases_cleanup .version Database.unitLimit hsofar.sound
    (hsofar.shed.headed.mpr hpin))

end Baleyg.Store
