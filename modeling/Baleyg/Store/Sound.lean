/-
What is always true of the shared evidence.

Every parent row is bound to the facts it witnesses, and its child rows are rows of
those facts, though a release may have deleted some already.  A parent that any
manifest row selects has all of them.  And no parent is forgotten: one that nothing
selects is in the journal of some release.  Together with the foreign keys this is
`Sound`.

A release is a sequence of small deletions, and each keeps `Sound` for its own
reason: a candidate is crossed off only when it is selected, child tables go in an
order in which nothing left refers to what went, a parent goes when no row is left
of it.  What a deletion leaves alone is said by `Shed`.
-/
import Baleyg.Store.World

namespace Baleyg.Store

variable {digest : Preimage → String} {P : Set Preimage}

/-- All the rows of facts the parent witnesses are there. -/
def Database.Complete (digest : Preimage → String) (P : Set Preimage) (db : Database)
    (p : Parent) : Prop :=
  ∃ f, p.Bound digest P f ∧ ∀ r ∈ p.rows f, r ∈ db.children

/-- **The shared evidence is sound.** -/
structure Database.Sound (digest : Preimage → String) (P : Set Preimage) (db : Database) :
    Prop where
  parentsKeyed : Table.Keyed Parent.key db.parents
  childrenKeyed : Table.Keyed ChildRow.primaryKey db.children
  manifestApart : db.manifest.Pairwise fun m m' => ¬ m.clashes m'
  bound : ∀ p ∈ db.parents, ∃ f, p.Bound digest P f
  rows : ∀ r ∈ db.children, ∃ p ∈ db.parents, ∃ f, p.Bound digest P f ∧ r ∈ p.rows f
  complete : ∀ p ∈ db.parents, db.Selected p.key → db.Complete digest P p
  journaled : ∀ p ∈ db.parents, db.Selected p.key ∨ ∃ c ∈ db.candidates, c.parent = p.key
  foreignKeys : db.ForeignKeys

/-! ### References point down the order of deletion -/

namespace ChildTable

/-- The place of a table among its family's. -/
def rank (t : ChildTable) : Nat := t.kind.children.idxOf t

theorem mem_children (t : ChildTable) : t ∈ t.kind.children := by
  cases t <;> decide

theorem kind_of_mem {t : ChildTable} {k : Kind} (h : t ∈ k.children) : t.kind = k := by
  cases k <;> cases t <;> first | rfl | exact absurd h (by decide)

end ChildTable

theorem Kind.children_sorted (k : Kind) :
    k.children.Pairwise fun t u => t.rank < u.rank := by
  cases k <;> decide

theorem mem_nullable {c : Cell} {ref ref' : Reference} (h : ref ∈ nullable c ref') : ref = ref' := by
  unfold nullable at h
  split at h
  · cases h
  · exact List.mem_singleton.mp h

/-- A reference to a child row is to a later table of the same parent, or to the
row's own table when that refers to itself, or from a class to its graph's node. -/
theorem ChildRow.references_down {r : ChildRow} {t : ChildTable} {owner : String}
    {columns : List (Nat × Cell)} (h : Reference.row t owner columns ∈ r.references) :
    (owner = r.owner ∧ (r.table.rank < t.rank ∧ t.kind = r.table.kind
        ∨ r.table = t ∧ t.selfReferential = true))
      ∨ (t.kind = .graph ∧ Reference.classOf r.owner owner ∈ r.references) := by
  unfold ChildRow.references at h ⊢
  split at h <;> rename_i htable <;> simp only [htable] at h ⊢ <;>
    simp only [List.mem_cons, List.not_mem_nil, or_false, reduceCtorEq, false_or,
      Reference.row.injEq] at h ⊢
  case h_1 =>
    obtain ⟨rfl, rfl, -⟩ | ⟨rfl, rfl, -⟩ := h <;> exact .inl ⟨rfl, .inl (by decide)⟩
  case h_3 =>
    obtain ⟨rfl, rfl, -⟩ | h := h
    · exact .inl ⟨rfl, .inl (by decide)⟩
    · injection mem_nullable h with ht ho
      rw [ht, ho]
      exact .inl ⟨rfl, .inr ⟨rfl, rfl⟩⟩
  case h_10 =>
    injection mem_nullable h with ht ho
    rw [ht, ho]
    exact .inl ⟨rfl, .inr ⟨rfl, rfl⟩⟩
  case h_15 =>
    obtain ⟨rfl, rfl, -⟩ := h
    exact .inr ⟨rfl, rfl⟩
  case h_16 =>
    obtain ⟨rfl, rfl, -⟩ | h := h
    · exact .inl ⟨rfl, .inl (by decide)⟩
    · injection mem_nullable h with ht ho
      rw [ht, ho]
      exact .inl ⟨rfl, .inl (by decide)⟩
  all_goals
    obtain ⟨rfl, rfl, -⟩ := h
    exact .inl ⟨rfl, .inl (by decide)⟩

theorem ChildRow.references_parent {r : ChildRow} {k : ParentKey}
    (h : Reference.parent k ∈ r.references) : k = r.parent := by
  unfold ChildRow.references at h
  unfold ChildRow.parent
  split at h <;> rename_i htable <;>
    simp only [List.mem_cons, List.not_mem_nil, or_false, reduceCtorEq, false_or,
      Reference.parent.injEq] at h
  case h_3 => exact absurd (mem_nullable h) (by simp)
  case h_10 =>
    obtain rfl | h := h
    · rw [htable]; rfl
    · exact absurd (mem_nullable h) (by simp)
  case h_16 => exact absurd (mem_nullable h) (by simp)
  all_goals
    rw [h, htable]
    rfl

theorem ChildRow.references_classOf {r : ChildRow} {projection graph : String}
    (h : Reference.classOf projection graph ∈ r.references) :
    (⟨.classes, projection⟩ : ParentKey) = r.parent := by
  unfold ChildRow.references at h
  unfold ChildRow.parent
  split at h <;> rename_i htable <;>
    simp only [List.mem_cons, List.not_mem_nil, or_false, reduceCtorEq, false_or,
      Reference.classOf.injEq] at h
  case h_3 => exact absurd (mem_nullable h) (by simp)
  case h_10 => exact absurd (mem_nullable h) (by simp)
  case h_15 =>
    rw [h.1, htable]
    rfl
  case h_16 => exact absurd (mem_nullable h) (by simp)

/-! ### Which references a table or a parent row answers -/

theorem ManifestRow.Linked.mono {db db' : Database} {m : ManifestRow} (h : m.Linked db)
    (hstay : ∀ p ∈ db.parents, p.key ∈ m.selects → p ∈ db'.parents) : m.Linked db' := by
  obtain ⟨⟨v, hv, hid, hrest⟩, ⟨g, hg, hgid, hgv⟩, hclasses⟩ := h
  refine ⟨⟨v, ?_, hid, hrest⟩, ⟨g, ?_, hgid, hgv⟩, fun id hidm => ?_⟩
  · rw [Database.mem_documentVersions] at hv ⊢
    exact hstay _ hv (by simp [ManifestRow.selects, Parent.key, hid])
  · rw [Database.mem_graphProjections] at hg ⊢
    exact hstay _ hg (by simp [ManifestRow.selects, Parent.key, hgid])
  · obtain ⟨c, hc, hcid, hcg⟩ := hclasses id hidm
    refine ⟨c, ?_, hcid, hcg⟩
    rw [Database.mem_classProjections] at hc ⊢
    exact hstay _ hc (by simp [ManifestRow.selects, Parent.key, hcid, Option.mem_def.mp hidm])

namespace Database.ForeignKeys

variable {db : Database}

theorem with_candidates (h : db.ForeignKeys) {candidates : List Candidate}
    (hheaded : ∀ c ∈ candidates, db.Headed c.revision) :
    { db with candidates := candidates }.ForeignKeys where
  children := h.children
  parents := h.parents
  manifest := fun m hm => (h.manifest m hm).mono fun _ hp _ => hp
  manifestHeaded := h.manifestHeaded
  inputsHeaded := h.inputsHeaded
  supersessionsHeaded := h.supersessionsHeaded
  debtHeaded := h.debtHeaded
  candidatesHeaded := hheaded

theorem with_manifest (h : db.ForeignKeys) {manifest : List ManifestRow}
    (hsub : ∀ m ∈ manifest, m ∈ db.manifest) : { db with manifest := manifest }.ForeignKeys where
  children := h.children
  parents := h.parents
  manifest := fun m hm => (h.manifest m (hsub m hm)).mono fun _ hp _ => hp
  manifestHeaded := fun m hm => h.manifestHeaded m (hsub m hm)
  inputsHeaded := h.inputsHeaded
  supersessionsHeaded := h.supersessionsHeaded
  debtHeaded := h.debtHeaded
  candidatesHeaded := h.candidatesHeaded

theorem with_children (h : db.ForeignKeys) {children : List ChildRow}
    (hsub : ∀ r ∈ children, r ∈ db.children)
    (hkeep : ∀ r ∈ children, ∀ t owner columns, .row t owner columns ∈ r.references →
      ∀ r' ∈ db.children, r'.table = t → r'.owner = owner → r' ∈ children) :
    { db with children := children }.ForeignKeys where
  children := by
    intro r hr ref href
    have hmet := h.children r (hsub r hr) ref href
    cases ref with
    | parent | classOf => exact hmet
    | row t owner columns =>
        obtain ⟨r', hr', ht, ho, hc⟩ := hmet
        exact ⟨r', hkeep r hr t owner columns href r' hr' ht ho, ht, ho, hc⟩
  parents := h.parents
  manifest := fun m hm => (h.manifest m hm).mono fun _ hp _ => hp
  manifestHeaded := h.manifestHeaded
  inputsHeaded := h.inputsHeaded
  supersessionsHeaded := h.supersessionsHeaded
  debtHeaded := h.debtHeaded
  candidatesHeaded := h.candidatesHeaded

end Database.ForeignKeys

/-- A parent row may go when nothing selects it, hangs off it or is a row of it. -/
theorem Database.ForeignKeys.deleteParent {db : Database} (h : db.ForeignKeys) {k : ParentKey}
    (hunselected : ¬ db.Selected k) (hdependents : ∀ p ∈ db.parents, p.above ≠ some k)
    (hempty : ∀ r ∈ db.children, r.parent ≠ k) : (db.deleteParent k).ForeignKeys := by
  have hstay : ∀ p ∈ db.parents, p.key ≠ k → p ∈ (db.deleteParent k).parents := by
    intro p hp hne
    exact List.mem_filter.mpr ⟨hp, by simpa using hne⟩
  have hgo : ∀ p ∈ (db.deleteParent k).parents, p ∈ db.parents := by
    intro p hp
    exact List.mem_of_mem_filter hp
  exact
    { children := by
        intro r hr ref href
        have hmet := h.children r hr ref href
        cases ref with
        | parent k' =>
            obtain ⟨p, hp, hpk⟩ := hmet
            refine ⟨p, hstay p hp ?_, hpk⟩
            rw [hpk, r.references_parent href]
            exact hempty r hr
        | classOf projection graph =>
            obtain ⟨c, hc, hid, hg⟩ := hmet
            refine ⟨c, mem_classProjections.mpr
              (hstay _ (mem_classProjections.mp hc) ?_), hid, hg⟩
            show (⟨.classes, c.id⟩ : ParentKey) ≠ k
            rw [hid, r.references_classOf href]
            exact hempty r hr
        | row t owner columns => exact hmet
      parents := by
        intro p hp
        have hhangs := h.parents p (hgo p hp)
        have hne := hdependents p (hgo p hp)
        cases p with
        | version v => trivial
        | graph g =>
            obtain ⟨v, hv, hid, hlang⟩ := hhangs
            refine ⟨v, mem_documentVersions.mpr (hstay _ (mem_documentVersions.mp hv) ?_), hid,
              hlang⟩
            intro hk
            exact hne (by rw [← hk, Parent.above, ← hid]; rfl)
        | classes c =>
            obtain ⟨g, hg, hid⟩ := hhangs
            refine ⟨g, mem_graphProjections.mpr (hstay _ (mem_graphProjections.mp hg) ?_), hid⟩
            intro hk
            exact hne (by rw [← hk, Parent.above, ← hid]; rfl)
      manifest := by
        intro m hm
        refine (h.manifest m hm).mono fun p hp hsel => hstay p hp ?_
        intro hk
        exact hunselected ⟨m, hm, hk ▸ hsel⟩
      manifestHeaded := h.manifestHeaded
      inputsHeaded := h.inputsHeaded
      supersessionsHeaded := h.supersessionsHeaded
      debtHeaded := h.debtHeaded
      candidatesHeaded := h.candidatesHeaded }

end Baleyg.Store
