/-
The shared evidence after a publication.

A publication writes whole trees: each parent row with every child row of the facts
it witnesses.  What it does not write it selects by id from the head's evidence.
`Grounded` says that, and then whatever was left of a parent before, half of it
deleted or none, all of it is there after; and nothing that was complete before is
touched, so every older pin reads as it did.
-/
import Baleyg.Store.Advance

namespace Baleyg.Store

open Fallible

variable {digest : Preimage → String} {P : Set Preimage} {base db db' : Database}
  {ws : List Write} {now : Int} {pin : IndexPin} {b : Bundle} {reuse : PreflightReuse}

theorem Database.ForeignKeys.selected_mem (h : db.ForeignKeys) {k : ParentKey}
    (hk : db.Selected k) : ∃ p ∈ db.parents, p.key = k := by
  obtain ⟨m, hm, hsel⟩ := hk
  obtain ⟨⟨v, hv, hvid, -⟩, ⟨g, hg, hgid, -⟩, hclasses⟩ := h.manifest m hm
  unfold ManifestRow.selects at hsel
  rcases List.mem_cons.mp hsel with rfl | hsel
  · exact ⟨_, mem_documentVersions.mp hv, by rw [Parent.key, hvid]⟩
  rcases List.mem_cons.mp hsel with rfl | hsel
  · exact ⟨_, mem_graphProjections.mp hg, by rw [Parent.key, hgid]⟩
  rw [Option.mem_toList, Option.map_eq_some_iff] at hsel
  obtain ⟨id, hid, rfl⟩ := hsel
  obtain ⟨c, hc, hcid, -⟩ := hclasses id hid
  exact ⟨_, mem_classProjections.mp hc, by rw [Parent.key, hcid]⟩

/-! ### Whole trees -/

/-- **Every shared row is of a tree that is written whole**, and every parent a
manifest row selects is written, or selected in the base already, or not in it. -/
structure Grounded (digest : Preimage → String) (P : Set Preimage) (ws : List Write)
    (base : Database) : Prop where
  parents : ∀ p, .parent p ∈ ws → ∃ f, p.Bound digest P f ∧ ∀ r ∈ p.rows f, .child r ∈ ws
  children : ∀ r, .child r ∈ ws → ∃ p, .parent p ∈ ws ∧ ∃ f, p.Bound digest P f ∧ r ∈ p.rows f
  selected : ∀ p, .parent p ∈ ws → ∃ m, .manifest m ∈ ws ∧ p.key ∈ m.selects
  selects : ∀ m, .manifest m ∈ ws → ∀ k ∈ m.selects, (∃ p, .parent p ∈ ws ∧ p.key = k)
    ∨ base.Selected k ∨ ∀ p ∈ base.parents, p.key ≠ k

theorem mem_parent? {p : Parent} : p ∈ ws.filterMap Write.parent? ↔ .parent p ∈ ws := by
  rw [List.mem_filterMap]
  constructor
  · rintro ⟨w, hw, hp⟩
    cases w <;> simp only [Write.parent?, Option.some.injEq, reduceCtorEq] at hp
    exact hp ▸ hw
  · intro hp; exact ⟨_, hp, rfl⟩

theorem mem_child? {r : ChildRow} : r ∈ ws.filterMap Write.child? ↔ .child r ∈ ws := by
  rw [List.mem_filterMap]
  constructor
  · rintro ⟨w, hw, hr⟩
    cases w <;> simp only [Write.child?, Option.some.injEq, reduceCtorEq] at hr
    exact hr ▸ hw
  · intro hr; exact ⟨_, hr, rfl⟩

theorem mem_manifest? {m : ManifestRow} : m ∈ ws.filterMap Write.manifest? ↔ .manifest m ∈ ws := by
  rw [List.mem_filterMap]
  constructor
  · rintro ⟨w, hw, hm⟩
    cases w <;> simp only [Write.manifest?, Option.some.injEq, reduceCtorEq] at hm
    exact hm ▸ hw
  · intro hm; exact ⟨_, hm, rfl⟩

namespace Advances

theorem mem_parents (h : Advances ws now base db') {p : Parent} (hp : p ∈ db'.parents) :
    p ∈ base.parents ∨ .parent p ∈ ws :=
  (h.wrote.parents.cases hp).imp_right mem_parent?.mp

theorem written_parent (h : Advances ws now base db') {p : Parent} (hp : .parent p ∈ ws) :
    p ∈ db'.parents := h.wrote.parentsPresent p (mem_parent?.mpr hp)

theorem written_child (h : Advances ws now base db') {r : ChildRow} (hr : .child r ∈ ws) :
    r ∈ db'.children := h.wrote.childrenPresent r (mem_child?.mpr hr)

theorem selected_cases (h : Advances ws now base db') {k : ParentKey} :
    db'.Selected k ↔ base.Selected k ∨ ∃ m, .manifest m ∈ ws ∧ k ∈ m.selects := by
  unfold Database.Selected
  simp only [h.manifest, List.mem_append, mem_manifest?]
  constructor
  · rintro ⟨m, hm | hm, hk⟩
    · exact Or.inl ⟨m, hm, hk⟩
    · exact Or.inr ⟨m, hm, hk⟩
  · rintro (⟨m, hm, hk⟩ | ⟨m, hm, hk⟩)
    · exact ⟨m, Or.inl hm, hk⟩
    · exact ⟨m, Or.inr hm, hk⟩

/-- **A written parent is complete**, whatever was left of it before. -/
theorem complete_written (h : Advances ws now base db') (hg : Grounded digest P ws base)
    {p : Parent} (hp : .parent p ∈ ws) : db'.Complete digest P p := by
  obtain ⟨f, hf, hrows⟩ := hg.parents p hp
  exact ⟨f, hf, fun r hr => h.written_child (hrows r hr)⟩

/-- **A publication keeps the evidence sound.** -/
theorem sound (h : Advances ws now base db') (hg : Grounded digest P ws base)
    (hs : base.Sound digest P) (hfk : db'.ForeignKeys) :
    db'.Sound digest P := by
  have hkeyed : Table.Keyed Parent.key db'.parents := h.wrote.parentsKeyed hs.parentsKeyed
  exact
    { parentsKeyed := hkeyed
      childrenKeyed := h.wrote.childrenKeyed hs.childrenKeyed
      manifestApart := h.wrote.manifestApart hs.manifestApart
      bound := by
        intro p hp
        rcases h.mem_parents hp with hp | hp
        · exact hs.bound p hp
        · obtain ⟨f, hf, -⟩ := hg.parents p hp
          exact ⟨f, hf⟩
      rows := by
        intro r hr
        rcases h.wrote.children.cases hr with hr | hr
        · obtain ⟨p, hp, hrest⟩ := hs.rows r hr
          exact ⟨p, h.wrote.parents.mem hp, hrest⟩
        · obtain ⟨p, hp, hrest⟩ := hg.children r (mem_child?.mp hr)
          exact ⟨p, h.written_parent hp, hrest⟩
      complete := by
        intro p hp hsel
        rcases h.mem_parents hp with hbase | hwritten
        · have hcomplete : base.Selected p.key → db'.Complete digest P p := by
            intro hk
            obtain ⟨f, hf, hrows⟩ := hs.complete p hbase hk
            exact ⟨f, hf, fun r hr => h.wrote.children.mem (hrows r hr)⟩
          rcases h.selected_cases.mp hsel with hk | ⟨m, hm, hk⟩
          · exact hcomplete hk
          · rcases hg.selects m hm p.key hk with ⟨q, hq, hqk⟩ | hk | habsent
            · rw [← hkeyed.eq_of_key (h.written_parent hq) hp hqk]
              exact h.complete_written hg hq
            · exact hcomplete hk
            · exact absurd rfl (habsent p hbase)
        · exact h.complete_written hg hwritten
      journaled := by
        intro p hp
        rw [h.candidates, h.selected_cases]
        rcases h.mem_parents hp with hp | hp
        · exact (hs.journaled p hp).imp_left Or.inl
        · exact Or.inl (Or.inr (hg.selected p hp))
      foreignKeys := hfk }

/-- **What a manifest row of the base selects reads as it did**, as long as no two of
the hashed preimages collide. -/
theorem selectedAt (h : Advances ws now base db') (hinj : Set.InjOn digest P)
    (hg : Grounded digest P ws base) (hs : base.Sound digest P) {k : ParentKey} (hk : base.Selected k) :
    db'.selectedAt k = base.selectedAt k := by
  obtain ⟨q, hq, hqk⟩ := hs.foreignKeys.selected_mem hk
  have hparent : db'.parents.find? (fun p => p.key = k) = base.parents.find? fun p => p.key = k := by
    obtain ⟨added, hadded, -⟩ := h.wrote.parents
    have hsplit : db'.parents = base.parents ++ added := hadded
    cases hfind : base.parents.find? fun p => p.key = k with
    | none => exact absurd (List.find?_eq_none.mp hfind q hq) (by simpa using hqk)
    | some p => rw [hsplit, List.find?_append, hfind, Option.some_or]
  have hchildren : db'.childrenOf k = base.childrenOf k := by
    obtain ⟨added, hadded, hgiven⟩ := h.wrote.children
    have hsplit : db'.children = base.children ++ added := hadded
    unfold Database.childrenOf
    rw [hsplit, Table.filter_append_of_none]
    intro r hr
    rw [decide_eq_false_iff_not]
    intro hrk
    -- a row added under a complete parent would be there twice
    obtain ⟨p, hp, f, hf, hrf⟩ := hg.children r (mem_child?.mp (hgiven r hr))
    have hpk : p.key = k := (Parent.hangOff_rows p f r hrf).symm.trans hrk
    have hpq : p = q := (h.wrote.parentsKeyed hs.parentsKeyed).eq_of_key
      (h.written_parent hp) (h.wrote.parents.mem hq) (hpk.trans hqk.symm)
    subst hpq
    obtain ⟨f', hf', hrows⟩ := hs.complete p hq (hqk ▸ hk)
    have hold : r ∈ base.children := hrows r ((hf.rows_iff hinj hf' r).mp hrf)
    have hnodup : (base.children ++ added).Nodup :=
      hsplit ▸ (h.wrote.childrenKeyed hs.childrenKeyed).nodup
    exact (List.nodup_append.mp hnodup).2.2 r hold r hr rfl
  unfold Database.selectedAt
  rw [hparent, hchildren]

/-- **Every other pin reads as it did in the base.** -/
theorem evidence (h : Advances ws now base db') (hinj : Set.InjOn digest P)
    (hg : Grounded digest P ws base) (hs : base.Sound digest P) (hnew : pin ≠ db'.current) :
    db'.evidence pin = base.evidence pin := by
  unfold Database.evidence
  rw [h.follows.headerOf hnew, h.follows.inputsOf hnew, h.follows.manifestOf hnew]
  congr 1
  refine List.map_congr_left fun m hm => ?_
  unfold Database.documentAt
  congr 1
  exact List.map_congr_left fun k hk =>
    h.selectedAt hinj hg hs ⟨m, (Database.mem_manifestOf.mp hm).1, hk⟩

end Advances

/-! ### Reuse -/

/-- **What a preparation may leave unwritten**: the families of a document linked by
id, and those the head selects under the id just computed. -/
structure PreflightReuse.Authentic (digest : Preimage → String) (b : Bundle) (reuse : PreflightReuse)
    (db : Database) : Prop where
  linked : ∀ path ids, reuse.existingIds.lookup path = some ids → reuse.forPath path = .all
  held : ∀ s ∈ selections digest b reuse, ∀ t ∈ trees digest b s.document s.ids,
    s.reused.covers t.kind = true → db.Selected t.parent.key

variable {s : Selection} {t : Tree} {incarnation : Incarnation}

theorem mem_selections (hs : s ∈ selections digest b reuse) :
    ∃ ordinal, ∃ d ∈ b.documents, s = select digest b reuse ordinal d := by
  unfold selections at hs
  obtain ⟨i, hi, rfl⟩ := List.mem_mapIdx.mp hs
  exact ⟨i, _, List.getElem_mem hi, rfl⟩

theorem covers_none (k : Kind) : ReusedFamilies.none.covers k = false := by
  cases k <;> rfl

theorem trees_key {d : BundleDocument} {ids : DocumentProjection} (ht : t ∈ trees digest b d ids) :
    t.kind = .version ∧ t.parent.key = ⟨.version, ids.versionId⟩
      ∨ t.kind = .graph ∧ t.parent.key = ⟨.graph, ids.graphId⟩
      ∨ t.kind = .classes ∧ t.parent.key = ⟨.classes, ids.classId⟩ := by
  simp only [trees, List.mem_cons, List.not_mem_nil, or_false] at ht
  rcases ht with rfl | rfl | rfl
  · exact Or.inl ⟨rfl, rfl⟩
  · exact Or.inr (Or.inl ⟨rfl, rfl⟩)
  · exact Or.inr (Or.inr ⟨rfl, rfl⟩)

theorem authentic_default (b : Bundle) (db : Database) :
    PreflightReuse.default.Authentic digest b db where
  linked := by
    intro path ids h
    cases h
  held := by
    intro s hs t _ hcovers
    obtain ⟨ordinal, d, -, rfl⟩ := mem_selections hs
    have hfalse : ReusedFamilies.none.covers t.kind = true := hcovers
    rw [covers_none] at hfalse
    exact absurd hfalse Bool.false_ne_true

theorem mem_of_lookup {β : Type} {entries : List (String × β)} {path : String} {value : β}
    (h : entries.lookup path = some value) : (path, value) ∈ entries := by
  obtain ⟨l₁, l₂, rfl, -⟩ := List.lookup_eq_some_iff.mp h
  exact List.mem_append_right _ List.mem_cons_self

theorem lookup_map_const {β γ : Type} (value : γ) (entries : List (String × β)) (path : String) :
    (entries.map fun e => (e.1, value)).lookup path = (entries.lookup path).map fun _ => value := by
  induction entries with
  | nil => rfl
  | cons e entries ih =>
      rw [List.map_cons, List.lookup_cons, List.lookup_cons]
      cases path == e.1 with
      | true => rfl
      | false => exact ih

/-- **The full route's preparation is authentic**, of a bundle whose paths are distinct. -/
theorem authentic_preflightReuse {expected : IndexPin} {disposition : Disposition}
    (hpaths : (b.documents.map (·.file.path)).Nodup)
    (h : preflightReuse digest b expected disposition db = .ok reuse) :
    reuse.Authentic digest b db := by
  unfold preflightReuse at h
  split at h
  · cases h; exact authentic_default b db
  · obtain ⟨families, hfamilies, h⟩ := bind_eq_ok.mp h
    cases h
    refine ⟨?_, ?_⟩
    · intro path ids hnone; cases hnone
    · intro s hs t ht hcovers
      obtain ⟨ordinal, d, hd, rfl⟩ := mem_selections hs
      have hids : t ∈ trees digest b d (documentProjection digest b d) := ht
      have hreused : ((families.lookup d.file.path).getD .none).covers t.kind = true := hcovers
      cases hlookup : families.lookup d.file.path with
      | none =>
          rw [hlookup, Option.getD_none, covers_none] at hreused
          exact absurd hreused Bool.false_ne_true
      | some shared =>
          rw [hlookup, Option.getD_some] at hreused
          obtain ⟨d', hd', hentry⟩ := mem_of_filterMapM_eq_ok hfamilies (mem_of_lookup hlookup)
          split at hentry
          · cases hentry
          · rename_i prior hprior
            -- the entry is this document's own, as no two share a path
            simp only [documentReuse, map_eq_pure_bind, bind_eq_ok, ensure_eq_ok] at hentry
            obtain ⟨entry, ⟨-, -, -, -, hpure⟩, hsome⟩ := hentry
            obtain rfl := Except.ok.inj hpure
            obtain ⟨hpath, rfl⟩ := Prod.mk.inj (Option.some.inj (Except.ok.inj hsome))
            obtain rfl : d' = d := List.inj_on_of_nodup_map hpaths hd' hd hpath
            have hmem : prior ∈ db.manifest :=
              (Database.mem_manifestOf.mp (List.mem_of_find?_eq_some hprior)).1
            refine ⟨prior, hmem, ?_⟩
            rcases trees_key hids with ⟨hkind, hkey⟩ | ⟨hkind, hkey⟩ | ⟨hkind, hkey⟩ <;>
              rw [hkind] at hreused <;> rw [hkey] <;>
              simp only [ReusedFamilies.covers, sharedFamilies, decide_eq_true_eq] at hreused <;>
              simp [ManifestRow.selects, hreused]

/-- **The local route's preparation is authentic.** -/
theorem authentic_preflightLocalReuse {prepared : LocalPrepared}
    (h : preflightLocalReuse b prepared db = .ok reuse) : reuse.Authentic digest b db := by
  unfold preflightLocalReuse at h
  simp only [bind_eq_ok, ensure_eq_ok] at h
  obtain ⟨-, -, -, -, links, hlinks, -, -, h⟩ := h
  obtain rfl := Except.ok.inj h
  have hforPath : ∀ path, PreflightReuse.forPath
      ⟨some db.current, (links.filter fun link => link.1 ≠ prepared.changedPath).map
        (fun link => (link.1, ReusedFamilies.all)),
        links.filter fun link => link.1 ≠ prepared.changedPath⟩ path
      = (((links.filter fun link => link.1 ≠ prepared.changedPath).lookup path).map
        fun _ => ReusedFamilies.all).getD .none := by
    intro path
    unfold PreflightReuse.forPath
    dsimp only
    rw [lookup_map_const]
  refine ⟨?_, ?_⟩
  · intro path ids hlookup
    rw [hforPath, hlookup]
    rfl
  · intro s hs t ht hcovers
    obtain ⟨ordinal, d, -, rfl⟩ := mem_selections hs
    have hreused := hcovers
    unfold select at hreused ht
    dsimp only at hreused ht
    rw [hforPath] at hreused
    cases hlookup : (links.filter fun link => link.1 ≠ prepared.changedPath).lookup d.file.path with
    | none =>
        rw [hlookup, Option.map_none, Option.getD_none, covers_none] at hreused
        exact absurd hreused Bool.false_ne_true
    | some ids =>
        rw [hlookup, Option.getD_some] at ht
        have hlink := List.mem_of_mem_filter (mem_of_lookup hlookup)
        obtain ⟨m, hm, hlocal⟩ := mem_of_mapM_eq_ok hlinks hlink
        have hmem := (Database.mem_manifestOf.mp hm).1
        unfold localLink at hlocal
        split at hlocal
        · simp only [bind_eq_ok, ensure_eq_ok] at hlocal
          obtain ⟨-, ⟨hversion, hgraph, hclass⟩, -, -, -, -, hpure⟩ := hlocal
          obtain ⟨-, rfl⟩ := Prod.mk.inj (Except.ok.inj hpure)
          refine ⟨m, hmem, ?_⟩
          rcases trees_key ht with ⟨-, hkey⟩ | ⟨-, hkey⟩ | ⟨-, hkey⟩ <;>
            rw [hkey] <;> simp [ManifestRow.selects, hversion, hgraph, hclass]
        · cases hlocal

/-! ### The writes of each route are grounded -/

theorem mem_written :
    t ∈ s.written digest b ↔ t ∈ trees digest b s.document s.ids ∧ s.reused.covers t.kind = false := by
  unfold Selection.written
  rw [List.mem_filter, Bool.not_eq_true']

theorem parent_mem_writes {p : Parent} : .parent p ∈ writes digest b reuse pin incarnation
      ↔ ∃ s ∈ selections digest b reuse, ∃ t ∈ s.written digest b, t.parent = p := by
  unfold writes Selection.parentWrites Selection.childWrites
  simp [List.mem_flatMap]

theorem manifest_mem_writes {m : ManifestRow} : .manifest m ∈ writes digest b reuse pin incarnation
      ↔ ∃ s ∈ selections digest b reuse, m = s.manifestRow b pin := by
  unfold writes Selection.parentWrites Selection.childWrites
  simp [List.mem_flatMap]

theorem child_mem_writes {r : ChildRow} : .child r ∈ writes digest b reuse pin incarnation
      ↔ ∃ s ∈ selections digest b reuse, ∃ t ∈ s.written digest b, r ∈ t.rows := by
  unfold writes Selection.parentWrites Selection.childWrites
  simp only [List.cons_append, List.mem_cons, List.mem_append, List.mem_map, List.mem_flatMap,
    reduceCtorEq, and_false, exists_false, List.not_mem_nil, or_false, false_or, List.mem_filter,
    decide_eq_true_eq, Write.child.injEq, exists_eq_right]
  constructor
  · rintro (⟨s, hs, t, ⟨ht, -⟩, hr⟩ | ⟨s, hs, t, ⟨ht, -⟩, hr⟩)
    · exact ⟨s, hs, t, ht, hr⟩
    · exact ⟨s, hs, t, ht, hr⟩
  · rintro ⟨s, hs, t, ht, hr⟩
    cases hkind : t.kind with
    | version => exact Or.inl ⟨s, hs, t, ⟨ht, hkind⟩, hr⟩
    | graph => exact Or.inr ⟨s, hs, t, ⟨ht, Or.inl hkind⟩, hr⟩
    | classes => exact Or.inr ⟨s, hs, t, ⟨ht, Or.inr hkind⟩, hr⟩

theorem written_ids (ha : reuse.Authentic digest b db) (hs : s ∈ selections digest b reuse)
    (ht : t ∈ s.written digest b) :
    s.document ∈ b.documents ∧ t ∈ trees digest b s.document (documentProjection digest b s.document) := by
  obtain ⟨hin, hcovers⟩ := mem_written.mp ht
  obtain ⟨ordinal, d, hd, rfl⟩ := mem_selections hs
  refine ⟨hd, ?_⟩
  cases hlookup : reuse.existingIds.lookup d.file.path with
  | none =>
      unfold select at hin
      rw [hlookup] at hin
      exact hin
  | some ids =>
      have hall : (reuse.forPath d.file.path).covers t.kind = false := hcovers
      rw [ha.linked _ ids hlookup] at hall
      cases hkind : t.kind <;> rw [hkind] at hall <;> cases hall

theorem bound_tree (hm : b.Measured digest P) {d : BundleDocument} (hd : d ∈ b.documents)
    (ht : t ∈ trees digest b d (documentProjection digest b d)) :
    t.parent.Bound digest P t.facts := by
  obtain ⟨hkeyed, hhashed⟩ := hm d hd
  have hin := hhashed t ht
  simp only [trees, List.mem_cons, List.not_mem_nil, or_false] at ht
  rcases ht with rfl | rfl | rfl
  · exact ⟨⟨_, hin _ rfl, rfl, rfl⟩, hkeyed⟩
  · exact ⟨⟨_, hin _ rfl, rfl, rfl⟩, trivial⟩
  · exact ⟨⟨_, hin _ rfl, rfl, rfl⟩, trivial⟩

theorem exists_tree (digest : Preimage → String) {k : ParentKey}
    (hk : k ∈ (s.manifestRow b pin).selects) :
    ∃ t ∈ trees digest b s.document s.ids, t.parent.key = k := by
  simp only [ManifestRow.selects, Selection.manifestRow, Option.map_some, Option.toList_some,
    List.mem_cons, List.not_mem_nil, or_false] at hk
  rcases hk with rfl | rfl | rfl
  · exact ⟨versionTree digest b s.document s.ids, by simp [trees], rfl⟩
  · exact ⟨graphTree s.document s.ids, by simp [trees], rfl⟩
  · exact ⟨classTree s.document s.ids, by simp [trees], rfl⟩

theorem tree_key_mem (ht : t ∈ trees digest b s.document s.ids) :
    t.parent.key ∈ (s.manifestRow b pin).selects := by
  rcases trees_key ht with ⟨-, hkey⟩ | ⟨-, hkey⟩ | ⟨-, hkey⟩ <;> rw [hkey] <;>
    simp [ManifestRow.selects, Selection.manifestRow]

/-- **The full and local routes write whole trees**, over the database they were
prepared against or over an empty index. -/
theorem grounded_writes (hm : b.Measured digest P) (ha : reuse.Authentic digest b db)
    (incarnation : Incarnation) (rebaseline : Bool) (generation : Nat) :
    Grounded digest P (writes digest b reuse pin incarnation)
      (db.underlying rebaseline generation) where
  parents := by
    intro p hp
    obtain ⟨s, hs, t, ht, rfl⟩ := parent_mem_writes.mp hp
    obtain ⟨hd, htree⟩ := written_ids ha hs ht
    exact ⟨t.facts, bound_tree hm hd htree, fun r hr => child_mem_writes.mpr ⟨s, hs, t, ht, hr⟩⟩
  children := by
    intro r hr
    obtain ⟨s, hs, t, ht, hrows⟩ := child_mem_writes.mp hr
    obtain ⟨hd, htree⟩ := written_ids ha hs ht
    exact ⟨t.parent, parent_mem_writes.mpr ⟨s, hs, t, ht, rfl⟩, t.facts, bound_tree hm hd htree,
      hrows⟩
  selected := by
    intro p hp
    obtain ⟨s, hs, t, ht, rfl⟩ := parent_mem_writes.mp hp
    exact ⟨_, manifest_mem_writes.mpr ⟨s, hs, rfl⟩, tree_key_mem (mem_written.mp ht).1⟩
  selects := by
    intro m hmw k hk
    obtain ⟨s, hs, rfl⟩ := manifest_mem_writes.mp hmw
    obtain ⟨t, ht, rfl⟩ := exists_tree digest hk
    by_cases hcovers : s.reused.covers t.kind = true
    · right
      cases rebaseline with
      | true =>
          right
          intro p hp
          cases hp
      | false => exact Or.inl (ha.held s hs t ht hcovers)
    · left
      rw [Bool.not_eq_true] at hcovers
      exact ⟨_, parent_mem_writes.mpr ⟨s, hs, t, mem_written.mpr ⟨ht, hcovers⟩, rfl⟩, rfl⟩

/-- **The unchanged route writes no shared row at all.** -/
theorem grounded_copies (incarnation : Incarnation) :
    Grounded digest P (db.copies pin incarnation) db where
  parents := by
    intro p hp
    simp [Database.copies] at hp
  children := by
    intro r hr
    simp [Database.copies] at hr
  selected := by
    intro p hp
    simp [Database.copies] at hp
  selects := by
    intro m hm k hk
    simp only [Database.copies, List.mem_append, List.mem_map, reduceCtorEq, and_false,
      exists_false, false_or, Write.manifest.injEq] at hm
    obtain ⟨m', hm', rfl⟩ := hm
    exact Or.inr (Or.inl ⟨m', (Database.mem_manifestOf.mp hm').1, hk⟩)

end Baleyg.Store
