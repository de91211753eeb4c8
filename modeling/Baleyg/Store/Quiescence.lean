/-
Releases come to rest.

With the clock and everything outside standing still, maintenance steps until there
is nothing to do.  What must be excluded is a candidate journaled and crossed off
for ever.  A parent is journaled because a manifest row that selected it left, or
because it hangs off an unselected candidate; in the second case it is unselected
itself, as a manifest row that selects a projection selects what it is a projection
of.  So the measure counts, besides the rows left, the unselected parents the
journal does not have yet, twice: journaling one costs a candidate and saves two.

The units of one release lower this measure unless they take manifest rows; the
manifest rows of a release only leave; and a release that is over lowers the debt,
which only a due revision raised.
-/
import Baleyg.Store.Pins

namespace Baleyg.Store

open Fallible

variable {digest : Preimage → String} {P : Set Preimage} {db db' : Database} {pin : IndexPin}
  {k : ParentKey}

namespace Database

/-! ### What is left to do of one release -/

def candidateCount (db : Database) (pin : IndexPin) : Nat :=
  db.candidates.countP fun c => c.revision = pin

/-- How many parents nothing selects a release has not journaled. -/
def unjournaledCount (db : Database) (pin : IndexPin) : Nat :=
  db.parents.countP fun p => ¬ db.Selected p.key ∧ ⟨pin, p.key⟩ ∉ db.candidates

/-- **What is left to do of a release**, its manifest rows aside. -/
def workLeft (db : Database) (pin : IndexPin) : Nat :=
  db.children.length + db.candidateCount pin + 2 * db.unjournaledCount pin

variable {p : Parent} {kind : Kind}

theorem workLeft_journal_lt (hp : p ∈ db.parents) (hk : ¬ db.Selected p.key)
    (hc : ⟨pin, p.key⟩ ∉ db.candidates) :
    (db.journal pin p.key).workLeft pin < db.workLeft pin := by
  have hjournal : db.journal pin p.key
      = { db with candidates := db.candidates ++ [⟨pin, p.key⟩] } := if_neg hc
  have hcandidates : (db.journal pin p.key).candidateCount pin = db.candidateCount pin + 1 := by
    unfold candidateCount
    rw [hjournal, List.countP_append]
    simp
  have hunjournaled : (db.journal pin p.key).unjournaledCount pin < db.unjournaledCount pin := by
    have hparents : (db.journal pin p.key).parents = db.parents := by rw [hjournal]
    unfold unjournaledCount
    rw [hparents]
    refine Table.countP_lt (fun q _ hq => ?_) hp (decide_eq_true ⟨hk, hc⟩) ?_
    · rw [decide_eq_true_eq] at hq ⊢
      rw [hjournal] at hq
      exact ⟨hq.1, fun hmem => hq.2 (List.mem_append_left _ hmem)⟩
    · rw [decide_eq_false_iff_not]; exact fun hnot => hnot.2 (mem_journal db pin p.key)
  have hchildren : (db.journal pin p.key).children = db.children := by rw [hjournal]
  unfold workLeft
  rw [hcandidates, hchildren]
  omega

theorem workLeft_unjournal_lt (hk : db.Selected k ∨ ∀ p ∈ db.parents, p.key ≠ k)
    (hc : ⟨pin, k⟩ ∈ db.candidates) : (db.unjournal pin k).workLeft pin < db.workLeft pin := by
  have hcandidates : (db.unjournal pin k).candidateCount pin < db.candidateCount pin := by
    unfold candidateCount unjournal
    rw [List.countP_filter]
    refine Table.countP_lt (fun c _ h => ?_) hc (by simp) (by simp)
    rw [Bool.and_eq_true] at h
    exact h.1
  have hunjournaled : (db.unjournal pin k).unjournaledCount pin ≤ db.unjournaledCount pin := by
    refine List.countP_mono_left fun p hp h => ?_
    rw [decide_eq_true_eq] at h ⊢
    refine ⟨h.1, fun hmem => ?_⟩
    have hpk : p.key ≠ k := by
      intro heq
      rcases hk with hk | hk
      · exact h.1 (heq ▸ hk)
      · exact hk p hp heq
    exact h.2 (List.mem_filter.mpr ⟨hmem, by simpa using hpk⟩)
  have hchildren : (db.unjournal pin k).children = db.children := rfl
  unfold workLeft
  rw [hchildren]
  omega

theorem workLeft_pruned (h : Pruned k db db') :
    db'.workLeft pin + (db.children.length - db'.children.length) ≤ db.workLeft pin := by
  have hlen := h.children.length_le
  have hcandidates : db'.candidateCount pin = db.candidateCount pin := by
    unfold candidateCount
    rw [h.candidates]
  have hunjournaled : db'.unjournaledCount pin = db.unjournaledCount pin := by
    unfold unjournaledCount
    rw [h.parents, h.candidates]
    refine List.countP_congr fun p _ => ?_
    rw [decide_eq_true_eq, decide_eq_true_eq, h.selected]
  unfold workLeft
  omega

theorem workLeft_deleteParent_le (k : ParentKey) :
    (db.deleteParent k).workLeft pin ≤ db.workLeft pin := by
  have hunjournaled : (db.deleteParent k).unjournaledCount pin ≤ db.unjournaledCount pin :=
    List.Sublist.countP_le List.filter_sublist
  have hrest : (db.deleteParent k).children = db.children
      ∧ (db.deleteParent k).candidateCount pin = db.candidateCount pin := ⟨rfl, rfl⟩
  unfold workLeft
  rw [hrest.1, hrest.2]
  omega

theorem deleteChildren_short (id : String) (tables : List ChildTable) :
    ∀ {db : Database}, (deleteChildren id tables db).2 = false →
      (deleteChildren id tables db).1.children.length < db.children.length := by
  induction tables with
  | nil => intro db h; cases h
  | cons t tables ih =>
      intro db h
      have hle := (deleteChild_sublist db t id).length_le
      unfold deleteChildren at h ⊢
      dsimp only at h ⊢
      split at h
      · rename_i hfull
        rw [if_pos hfull]
        have hbatch := hfull.2
        unfold changedFrom deleteLimit at hbatch
        dsimp only
        omega
      · rename_i hfull
        rw [if_neg hfull]
        exact (ih h).trans_le hle

/-! ### Dependents -/

/-- **What hangs off an unselected parent is unselected.** -/
theorem Sound.dependent_unselected (h : db.Sound digest P) (hp : p ∈ db.parents)
    (habove : p.above = some k) (hk : ¬ db.Selected k) : ¬ db.Selected p.key := by
  rintro ⟨m, hm, hsel⟩
  refine hk ⟨m, hm, ?_⟩
  obtain ⟨-, ⟨g', hg', hgid, hgv⟩, hclasses⟩ := h.foreignKeys.manifest m hm
  simp only [ManifestRow.selects, List.mem_cons, Option.mem_toList, Option.map_eq_some_iff] at hsel ⊢
  cases p with
  | version v => cases habove
  | graph g =>
      obtain rfl := Option.some.inj habove
      rcases hsel with hsel | hsel | ⟨id, -, hsel⟩
      · cases hsel
      · have hid : g.id = m.graphProjection := congrArg ParentKey.id hsel
        have hsame : Parent.graph g = Parent.graph g' :=
          h.parentsKeyed.eq_of_key hp (mem_graphProjections.mp hg')
            (congrArg (ParentKey.mk .graph) (hid.trans hgid.symm))
        cases hsame
        rw [hgv]
        exact Or.inl rfl
      · cases hsel
  | classes c =>
      obtain rfl := Option.some.inj habove
      rcases hsel with hsel | hsel | ⟨id, hid, hsel⟩
      · cases hsel
      · cases hsel
      · obtain ⟨c', hc', hcid, hcg⟩ := hclasses id hid
        have hid' : id = c.id := congrArg ParentKey.id hsel
        have hsame : Parent.classes c = Parent.classes c' :=
          h.parentsKeyed.eq_of_key hp (mem_classProjections.mp hc')
            (congrArg (ParentKey.mk .classes) (hid'.symm.trans hcid.symm))
        cases hsame
        rw [hcg]
        exact Or.inr (Or.inl rfl)

theorem dependent?_mem {child : ParentKey} (h : db.dependent? k = some child) :
    ∃ p ∈ db.parents, p.above = some k ∧ p.key = child := by
  unfold dependent? at h
  obtain ⟨p, hp, rfl⟩ := Option.map_eq_some_iff.mp h
  obtain ⟨hmem, habove⟩ := List.mem_filter.mp (Table.first_mem hp)
  exact ⟨p, hmem, of_decide_eq_true habove, rfl⟩

/-- The family of what hangs off a parent. -/
def below : Kind → Option Kind
  | .version => some .graph
  | .graph => some .classes
  | .classes => none

theorem below_of_above (h : p.above = some k) : below k.kind = some p.key.kind := by
  cases p with
  | version v => cases h
  | graph | classes =>
      obtain rfl := Option.some.inj h
      rfl

/-! ### Cleaning lowers what is left -/

/-- One candidate: nothing is added to what is left, and something is taken unless the
release has journaled what hangs off it already. -/
theorem workLeft_cleanCandidate (h : db.Sound digest P) (hc : ⟨pin, k⟩ ∈ db.candidates) :
    (db.cleanCandidate pin k).1.workLeft pin ≤ db.workLeft pin
      ∧ ((∀ child, below k.kind = some child.kind → ⟨pin, child⟩ ∉ db.candidates) →
        (db.cleanCandidate pin k).1.workLeft pin < db.workLeft pin) := by
  unfold cleanCandidate
  split
  · rename_i hsel
    have hlt := workLeft_unjournal_lt (Or.inl hsel) hc
    exact ⟨hlt.le, fun _ => hlt⟩
  · rename_i hunselected
    split
    · rename_i child hchild
      obtain ⟨p, hp, habove, rfl⟩ := dependent?_mem hchild
      have hpk := h.dependent_unselected hp habove hunselected
      by_cases hin : ⟨pin, p.key⟩ ∈ db.candidates
      · have hsame : db.journal pin p.key = db := if_pos hin
        dsimp only
        rw [hsame]
        exact ⟨Nat.le_refl _, fun hnone => absurd hin (hnone p.key (below_of_above habove))⟩
      · have hlt := workLeft_journal_lt hp hpk hin
        exact ⟨hlt.le, fun _ => hlt⟩
    · rename_i hnone
      have hdependents : ∀ p ∈ db.parents, p.above ≠ some k := by
        intro p hp habove
        unfold dependent? at hnone
        rw [Option.map_eq_none_iff, Table.first_eq_none, List.filter_eq_nil_iff] at hnone
        exact hnone p hp (by simpa using habove)
      have hempty : Emptied db k.id [] := by
        intro r _ _ hmem
        cases hmem
      obtain ⟨-, hpruned, -⟩ := @releases_deleteChildren digest P pin k k.kind.children []
        db h hunselected hdependents rfl hempty
      have hle := @workLeft_pruned db _ pin k hpruned
      have hbatch := @deleteChildren_short k.id k.kind.children db
      dsimp only
      generalize deleteChildren k.id k.kind.children db = emptied at hpruned hle hbatch ⊢
      have hlt : (if emptied.2 = true then ((emptied.1.deleteParent k).unjournal pin k, true)
          else (emptied.1, false)).1.workLeft pin < db.workLeft pin := by
        split
        · have hgone : ∀ p ∈ (emptied.1.deleteParent k).parents, p.key ≠ k := fun p hp => by
            simpa using (List.mem_filter.mp hp).2
          have hcand : ⟨pin, k⟩ ∈ (emptied.1.deleteParent k).candidates := by
            show _ ∈ emptied.1.candidates
            rw [hpruned.candidates]
            exact hc
          have hcross := workLeft_unjournal_lt (Or.inr hgone) hcand
          have hparent := @workLeft_deleteParent_le emptied.1 pin k
          dsimp only
          omega
        · rename_i hshort
          have hless := hbatch (Bool.eq_false_iff.mpr hshort)
          dsimp only
          omega
      exact ⟨hlt.le, fun _ => hlt⟩

theorem candidate?_mem {id : String} (h : db.candidate? pin kind = some id) :
    ⟨pin, ⟨kind, id⟩⟩ ∈ db.candidates := by
  obtain ⟨c, hc, rfl⟩ := List.mem_map.mp (Table.first_mem h)
  obtain ⟨hmem, hof⟩ := List.mem_filter.mp hc
  obtain ⟨rfl, rfl⟩ := of_decide_eq_true hof
  exact hmem

theorem candidate?_eq_none :
    db.candidate? pin kind = none ↔ ∀ k : ParentKey, k.kind = kind → ⟨pin, k⟩ ∉ db.candidates := by
  unfold candidate?
  rw [Table.first_eq_none, List.map_eq_nil_iff, List.filter_eq_nil_iff]
  constructor
  · intro h k hk hmem; exact h _ hmem (decide_eq_true ⟨rfl, hk⟩)
  · intro h c hc hof
    obtain ⟨rfl, hkind⟩ := of_decide_eq_true hof
    exact h c.parent hkind hc

/-- **Cleaning one family** adds nothing to what is left. -/
theorem workLeft_cleanup_le (kind : Kind) (n : Nat) :
    ∀ {db : Database}, db.Sound digest P → db.Headed pin →
      (db.cleanup pin kind n).workLeft pin ≤ db.workLeft pin := by
  induction n with
  | zero => intro db _ _; exact Nat.le_refl _
  | succ n ih =>
      intro db h hpin
      unfold cleanup
      split
      · exact Nat.le_refl _
      · rename_i id hid
        have hone := (workLeft_cleanCandidate h (candidate?_mem hid)).1
        have hclean := @releases_cleanCandidate digest P db pin ⟨kind, id⟩ h hpin
        dsimp only
        split
        · exact (ih hclean.sound (hclean.shed.headed.mpr hpin)).trans hone
        · exact hone

/-- It takes something if there is a candidate, and what hangs off those is not
journaled yet. -/
theorem workLeft_cleanup_lt {id : String} (h : db.Sound digest P) (hpin : db.Headed pin)
    (hid : db.candidate? pin kind = some id)
    (hbelow : ∀ kind', below kind = some kind' → db.candidate? pin kind' = none) (n : Nat) :
    (db.cleanup pin kind (n + 1)).workLeft pin < db.workLeft pin := by
  have hone := (workLeft_cleanCandidate h (candidate?_mem hid)).2 fun child hchild =>
    candidate?_eq_none.mp (hbelow child.kind hchild) child rfl
  have hclean := @releases_cleanCandidate digest P db pin ⟨kind, id⟩ h hpin
  unfold cleanup
  rw [hid]
  dsimp only
  split
  · exact (workLeft_cleanup_le kind n hclean.sound (hclean.shed.headed.mpr hpin)).trans_lt hone
  · exact hone

theorem cleanup_of_none (hnone : db.candidate? pin kind = none) (n : Nat) :
    db.cleanup pin kind n = db := by
  cases n with
  | zero => rfl
  | succ n =>
      unfold cleanup
      rw [hnone]

/-- **A cleaning takes something while there is a candidate.** -/
theorem workLeft_cleanAll_lt (h : db.Sound digest P) (hpin : db.Headed pin)
    (hsome : ∃ k, ⟨pin, k⟩ ∈ db.candidates) : (db.cleanAll pin).workLeft pin < db.workLeft pin := by
  unfold cleanAll
  have hclasses := releases_cleanup .classes unitLimit h hpin
  have hgraph := releases_cleanup .graph unitLimit hclasses.sound (hclasses.shed.headed.mpr hpin)
  have hle₁ := workLeft_cleanup_le .classes unitLimit h hpin
  have hle₂ := workLeft_cleanup_le .graph unitLimit hclasses.sound
    (hclasses.shed.headed.mpr hpin)
  have hle₃ := workLeft_cleanup_le .version unitLimit hgraph.sound
    (hgraph.shed.headed.mpr (hclasses.shed.headed.mpr hpin))
  cases hc : db.candidate? pin .classes with
  | some id =>
      have hlt := workLeft_cleanup_lt h hpin hc (by intro kind' hk; cases hk) 63
      exact hle₃.trans_lt (hle₂.trans_lt hlt)
  | none =>
      rw [cleanup_of_none hc] at hle₂ hle₃ ⊢
      cases hg : db.candidate? pin .graph with
      | some id =>
          have hlt := workLeft_cleanup_lt h hpin hg
            (by intro kind' hk; cases hk; exact hc) 63
          exact hle₃.trans_lt hlt
      | none =>
          rw [cleanup_of_none hg]
          cases hv : db.candidate? pin .version with
          | some id =>
              exact workLeft_cleanup_lt h hpin hv (by intro kind' hk; cases hk; exact hg) 63
          | none =>
              obtain ⟨k, hk⟩ := hsome
              cases hkind : k.kind with
              | version => exact absurd hk (candidate?_eq_none.mp hv k hkind)
              | graph => exact absurd hk (candidate?_eq_none.mp hg k hkind)
              | classes => exact absurd hk (candidate?_eq_none.mp hc k hkind)

/-! ### A unit lowers the measure -/

theorem not_mem_releaseEntry (db : Database) (pin : IndexPin) {m : ManifestRow}
    (hm : m.revision = pin) : m ∉ (db.releaseEntry pin m).manifest := by
  intro hmem
  exact of_decide_eq_true (List.mem_filter.mp hmem).2 ⟨hm, rfl⟩

/-- **The unit of a pending revision** either ends the release, or takes manifest rows, or
lowers what is left. -/
theorem cleaned_lowers (h : db.Sound digest P) (hpin : db.Headed pin) {cleaned : Database}
    (hcleaned : cleaned = ((db.releaseEntries pin).foldl (releaseEntry pin) db).cleanAll pin) :
    cleaned.Drained pin ∨ cleaned.manifest.length < db.manifest.length
      ∨ (cleaned.manifest.length = db.manifest.length
        ∧ cleaned.workLeft pin < db.workLeft pin) := by
  have hrel := releases_cleaned h hpin
  rw [← hcleaned] at hrel
  have hle := hrel.shed.manifest.length_le
  cases hentries : db.releaseEntries pin with
  | cons m entries =>
      -- the first row leaves and never comes back
      right
      left
      obtain ⟨hm, hrev⟩ := mem_releaseEntries (hentries ▸ List.mem_cons_self : m ∈ db.releaseEntries pin)
      refine lt_of_le_of_ne hle fun hlen => ?_
      have hmem : m ∈ cleaned.manifest := hrel.shed.manifest.eq_of_length hlen ▸ hm
      have honly : ∀ n ∈ db.releaseEntries pin, ∀ m' ∈ db.manifest,
          m'.revision = pin → m'.ordinal = n.ordinal → m' = n := fun n hn m' hm' hrev' hord =>
        h.manifest_eq (mem_releaseEntries hn).1 hm' (hrev'.trans (mem_releaseEntries hn).2.symm) hord
      rw [hentries] at honly hcleaned
      have hfirst := releases_releaseEntry h hpin (honly m List.mem_cons_self)
      have hpin' := hfirst.shed.headed.mpr hpin
      have hrest := releases_releaseEntries entries hfirst.sound hpin' fun n hn m' hm' =>
        honly n (List.mem_cons_of_mem m hn) m' (hfirst.shed.manifest.subset hm')
      have hclean := releases_cleanAll hrest.sound (hrest.shed.headed.mpr hpin')
      rw [hcleaned] at hmem
      exact not_mem_releaseEntry db pin hrev
        ((hclean.shed.manifest.trans hrest.shed.manifest).subset hmem)
  | nil =>
      rw [hentries, List.foldl_nil] at hcleaned
      have hmanifest : ∀ m ∈ db.manifest, m.revision ≠ pin := by
        intro m hm hrev
        unfold releaseEntries at hentries
        have hempty := congrArg List.length hentries
        rw [List.length_take, List.length_insertionSort, List.length_nil] at hempty
        have hpos := List.length_pos_of_mem (mem_manifestOf.mpr ⟨hm, hrev⟩)
        unfold unitLimit at hempty
        omega
      by_cases hsome : ∃ k, ⟨pin, k⟩ ∈ db.candidates
      · have hlt := workLeft_cleanAll_lt h hpin hsome
        rw [← hcleaned] at hlt
        rcases Nat.lt_or_eq_of_le hle with hless | hsame
        · exact Or.inr (Or.inl hless)
        · exact Or.inr (Or.inr ⟨hsame, hlt⟩)
      · left
        have hnone : ∀ kind, db.candidate? pin kind = none := fun kind =>
          candidate?_eq_none.mpr fun k _ hk => hsome ⟨k, hk⟩
        have hsame : cleaned = db := by
          rw [hcleaned]
          unfold cleanAll
          rw [cleanup_of_none (hnone .classes), cleanup_of_none (hnone .graph),
            cleanup_of_none (hnone .version)]
        rw [hsame]
        refine ⟨hmanifest, fun c hc hrev => hsome ⟨c.parent, ?_⟩⟩
        rw [← hrev]
        exact hc

/-! ### Stamps -/

/-- What never changes of the supersessions. -/
def stampsOf (db : Database) : List (IndexPin × Int) :=
  db.supersessions.map fun s => (s.revision, s.supersededAt)

theorem stampsOf_setState (db : Database) (pin : IndexPin) (old new : Retention) :
    (db.setState pin old new).stampsOf = db.stampsOf := by
  unfold stampsOf setState
  rw [List.map_map]
  refine List.map_congr_left fun s _ => ?_
  simp only [Function.comp_apply]
  split <;> rfl

theorem presentAt_congr (h : db'.stampsOf = db.stampsOf) (wall : Int) :
    db'.presentAt wall = db.presentAt wall := by
  have hfold : ∀ d : Database,
      d.presentAt wall = (d.stampsOf.map Prod.snd).foldl (fun t a => max t a) wall := by
    intro d
    unfold presentAt stampsOf
    rw [List.map_map, List.foldl_map]
    rfl
  rw [hfold, hfold, h]

end Database

/-! ### One step -/

variable {clock : RetentionClock} {sample : Sample}

theorem Database.Orderly.pending_of_debt (ho : db.Orderly) (hfk : db.ForeignKeys)
    (hdebt : pin ∈ db.debt) : db.stateOf pin = some .pending ∧ pin ≠ db.current := by
  obtain ⟨-, hhead, hother, hstate⟩ := ho.pairedRevision_of_headed (hfk.debtHeaded pin hdebt)
  have hne : pin ≠ db.current := fun hcur => (hhead hcur).2.1 hdebt
  obtain ⟨s, hs, hrev⟩ := hother hne
  refine ⟨(Database.stateOf_eq_some ho.supersessionsKeyed).mpr ⟨s, hs, hrev, ?_⟩, hne⟩
  have hpaired := hstate s hs hrev
  cases hst : s.state with
  | pending => rfl
  | retained | released => rw [hst] at hpaired; exact absurd hdebt hpaired.1

theorem releaseUnit_pending (hne : pin ≠ db.current) (hstate : db.stateOf pin = some .pending)
    (now : Int) : releaseUnit .quiet db.current now pin db = .ok () (db.continueRelease pin) := by
  refine Yields.returns ?_
  unfold releaseUnit checkpoint
  simp only [yields_bind, yields_get, yields_ensure, Outside.quiet_permits, true_imp_iff,
    not_true_eq_false, false_imp_iff, and_true]
  refine ⟨fun _ => ?_, fun h => h hne⟩
  rw [hstate]
  show Yields (modify fun db => db.continueRelease pin) db _ _
  rw [yields_modify]

theorem releaseUnit_due (hne : pin ≠ db.current) (hstate : db.stateOf pin = some .retained)
    {now : Int} (hdue : ∃ s ∈ db.supersessions, s.revision = pin ∧ s.state = .retained
      ∧ s.supersededAt ≤ graceStart now) (hdebt : pin ∉ db.debt)
    (hfresh : ∀ i ∈ db.inputs, (i.revision, i.inputKey) ≠ (pin, pendingMarker)) :
    releaseUnit .quiet db.current now pin db = .ok () (db.begun pin) := by
  refine Yields.returns ?_
  unfold releaseUnit checkpoint
  simp only [yields_bind, yields_get, yields_ensure, Outside.quiet_permits, true_imp_iff,
    not_true_eq_false, false_imp_iff, and_true]
  refine ⟨fun _ => ?_, fun h => h hne⟩
  rw [hstate]
  show Yields (beginRelease pin now) db _ _
  unfold beginRelease insertInput
  simp only [yields_bind, yields_get, yields_ensure, yields_set]
  exact ⟨fun _ => ⟨fun _ => ⟨fun _ => rfl, fun h => h hfresh⟩, fun h => h hdebt⟩,
    fun h => h hdue⟩

theorem maintenanceStep_progress (hwall : 0 ≤ sample.wall ∧ sample.wall ≤ maxInteger)
    (hselected : (db.probe clock sample).selected = some pin)
    (hunit : releaseUnit .quiet db.current (db.presentAt sample.wall) pin db = .ok () db')
    (hfk : db'.ForeignKeys) :
    maintenanceStep .quiet clock sample db = (.ok .progress, db') := by
  have hcommit : immediate .quiet (releaseUnit .quiet (db.probe clock sample).head
      (db.probe clock sample).now pin) db = (.ok (), db') := by
    show immediate .quiet (releaseUnit .quiet db.current (db.presentAt sample.wall) pin) db = _
    unfold immediate
    rw [hunit]
    dsimp only
    rw [if_neg (by decide), if_pos hfk]
  unfold maintenanceStep
  rw [if_neg (by decide), if_pos hwall]
  unfold runUnit
  rw [hselected]
  dsimp only
  rw [if_neg (by decide), hcommit]

/-! ### The measure of the whole -/

namespace Database

theorem length_dueAt (db : Database) (now : Int) : (db.dueAt now).length
    = db.supersessions.countP fun s => s.state = .retained ∧ s.supersededAt ≤ graceStart now :=
  List.countP_eq_length_filter.symm

theorem dueFor_congr (h : db'.supersessions = db.supersessions) :
    db'.dueFor clock sample = db.dueFor clock sample := by
  unfold dueFor dueAt presentAt
  rw [h]

theorem length_dueFor_released : ((db.setState pin .pending .released).dueFor clock sample).length
    = (db.dueFor clock sample).length := by
  unfold dueFor
  rw [presentAt_congr (stampsOf_setState db pin .pending .released)]
  split
  · rw [length_dueAt, length_dueAt]
    unfold setState
    rw [List.countP_map]
    refine List.countP_congr fun s _ => ?_
    simp only [Function.comp_apply]
    split
    · rename_i hold
      simp [hold.2]
    · exact Iff.rfl
  · rfl

theorem length_dueFor_pending {s : Supersession} (hs : s ∈ db.dueFor clock sample) :
    ((db.setState s.revision .retained .pending).dueFor clock sample).length
      < (db.dueFor clock sample).length := by
  unfold dueFor at hs ⊢
  rw [presentAt_congr (stampsOf_setState db s.revision .retained .pending)]
  split at hs
  · rename_i hplausible
    rw [if_pos hplausible, if_pos hplausible, length_dueAt, length_dueAt]
    obtain ⟨hmem, hdue⟩ := List.mem_filter.mp hs
    unfold setState
    rw [List.countP_map]
    refine Table.countP_lt (fun t _ ht => ?_) hmem hdue ?_
    · simp only [Function.comp_apply] at ht
      split at ht
      · exact absurd ht (by simp)
      · exact ht
    · have hstate := (of_decide_eq_true hdue).1
      simp [hstate]
  · cases hs

/-- **The measure**: the releases to come and to end, the manifest rows, and what is left
of the release in hand. -/
def restMeasure (clock : RetentionClock) (sample : Sample) (db : Database) : Nat × Nat × Nat :=
  (2 * (db.dueFor clock sample).length + db.debt.length, db.manifest.length,
    (db.debt.head?.map db.workLeft).getD 0)

end Database

def Lower : Nat × Nat × Nat → Nat × Nat × Nat → Prop :=
  Prod.Lex (· < ·) (Prod.Lex (· < ·) (· < ·))

theorem lower_wf : WellFounded Lower :=
  WellFounded.prod_lex Nat.lt_wfRel.wf (WellFounded.prod_lex Nat.lt_wfRel.wf Nat.lt_wfRel.wf)

/-- What a run of units keeps of the state it started in. -/
structure Draining (digest : Preimage → String) (P : Set Preimage) (start db : Database) :
    Prop where
  sound : db.Sound digest P
  orderly : db.Orderly
  stamps : db.stampsOf = start.stampsOf
  retained : ∀ s ∈ db.supersessions, s.state = .retained → s ∈ start.supersessions

namespace Draining

variable {start : Database}

theorem refl (h : db.Sound digest P) (ho : db.Orderly) : Draining digest P db db :=
  ⟨h, ho, rfl, fun _ hs _ => hs⟩

/-- A unit that changes the state of a revision away from `old`, and not to retained. -/
theorem setState {old new : Retention} (h : Draining digest P start db)
    (hs : Serves digest P pin db db')
    (hsup : db'.supersessions = (db.setState pin old new).supersessions) (hnew : new ≠ .retained) :
    Draining digest P start db' where
  sound := hs.sound
  orderly := hs.orderly
  stamps := by
    rw [← h.stamps, ← Database.stampsOf_setState db pin old new]
    unfold Database.stampsOf
    rw [hsup]
  retained := by
    rw [hsup]
    intro s hmem hstate
    rcases mem_setState.mp hmem with ⟨hold, -⟩ | ⟨-, hst, -⟩
    · exact h.retained s hold hstate
    · exact absurd (hst.symm.trans hstate) hnew

theorem same (h : Draining digest P start db) (hs : Serves digest P pin db db')
    (hsup : db'.supersessions = db.supersessions) : Draining digest P start db' where
  sound := hs.sound
  orderly := hs.orderly
  stamps := by
    rw [← h.stamps]
    unfold Database.stampsOf
    rw [hsup]
  retained := hsup ▸ h.retained

/-- **The unit of a due revision lowers the measure.** -/
theorem step_due (h : Draining digest P start db)
    (hwall : 0 ≤ sample.wall ∧ sample.wall ≤ maxInteger) {s : Supersession}
    (hselected : (db.probe clock sample).selected = some s.revision)
    (hs : s ∈ db.dueFor clock sample) :
    ∃ db', maintenanceStep .quiet clock sample db = (.ok .progress, db')
      ∧ Draining digest P start db'
      ∧ Lower (db'.restMeasure clock sample) (db.restMeasure clock sample) := by
  have hdue : s ∈ db.dueAt (db.presentAt sample.wall) := by
    have hmem := hs
    unfold Database.dueFor at hmem
    split at hmem
    · exact hmem
    · cases hmem
  obtain ⟨hmem, hcond⟩ := List.mem_filter.mp hdue
  obtain ⟨hstate, hstamp⟩ := of_decide_eq_true hcond
  have hpaired := h.orderly.pairedState h.sound.foreignKeys hmem
  rw [hstate] at hpaired
  obtain ⟨hdebt, hmark, -⟩ := hpaired
  have hfresh : ∀ i ∈ db.inputs, (i.revision, i.inputKey) ≠ (s.revision, pendingMarker) := by
    intro i hi heq
    obtain ⟨hrev, hkey⟩ := Prod.mk.inj heq
    exact hmark (Or.inr ⟨i, hi, hrev, hkey⟩)
  have hstateOf : db.stateOf s.revision = some .retained :=
    (Database.stateOf_eq_some h.orderly.supersessionsKeyed).mpr ⟨s, hmem, rfl, hstate⟩
  have hserves := serves_begun h.sound h.orderly hstateOf hfresh
  have hunit := releaseUnit_due (h.orderly.not_current h.sound.foreignKeys hmem) hstateOf
    ⟨s, hmem, rfl, hstate, hstamp⟩ hdebt hfresh
  refine ⟨_, maintenanceStep_progress hwall hselected hunit hserves.sound.foreignKeys,
    h.setState hserves rfl (by decide), ?_⟩
  have hless := Database.length_dueFor_pending hs
  have hsame : (db.begun s.revision).dueFor clock sample
      = (db.setState s.revision .retained .pending).dueFor clock sample :=
    Database.dueFor_congr rfl
  have hlonger : (db.begun s.revision).debt.length = db.debt.length + 1 := List.length_append
  refine Prod.Lex.left _ _ ?_
  rw [hsame, hlonger]
  omega

/-- **So does that of a pending one.** -/
theorem step_pending (h : Draining digest P start db)
    (hwall : 0 ≤ sample.wall ∧ sample.wall ≤ maxInteger)
    (hselected : (db.probe clock sample).selected = some pin) (hhead : db.debt.head? = some pin) :
    ∃ db', maintenanceStep .quiet clock sample db = (.ok .progress, db')
      ∧ Draining digest P start db'
      ∧ Lower (db'.restMeasure clock sample) (db.restMeasure clock sample) := by
  have hdebt : pin ∈ db.debt := List.mem_of_head? hhead
  obtain ⟨hpending, hne⟩ := h.orderly.pending_of_debt h.sound.foreignKeys hdebt
  have hpin := h.sound.foreignKeys.debtHeaded pin hdebt
  have hserves := serves_continueRelease h.sound h.orderly hpending
  have hunit := releaseUnit_pending hne hpending (db.presentAt sample.wall)
  refine ⟨_, maintenanceStep_progress hwall hselected hunit hserves.sound.foreignKeys, ?_⟩
  have hrel := releases_cleaned h.sound hpin
  have hlowers := Database.cleaned_lowers h.sound hpin rfl
  unfold Database.continueRelease at hserves ⊢
  dsimp only at hserves ⊢
  generalize ((db.releaseEntries pin).foldl (Database.releaseEntry pin) db).cleanAll pin = cleaned
    at hserves hrel hlowers ⊢
  by_cases hdrained : cleaned.Drained pin
  · rw [if_pos hdrained] at hserves ⊢
    have hsup : (cleaned.markReleased pin).supersessions
        = (db.setState pin .pending .released).supersessions := by
      unfold Database.markReleased Database.setState
      dsimp only
      rw [hrel.shed.supersessions]
    refine ⟨h.setState hserves hsup (by decide), Prod.Lex.left _ _ ?_⟩
    have hsame : ((cleaned.markReleased pin).dueFor clock sample).length
        = (db.dueFor clock sample).length := by
      rw [Database.dueFor_congr hsup, Database.length_dueFor_released]
    have hshorter : (cleaned.markReleased pin).debt.length < db.debt.length := by
      have hdebt' : (cleaned.markReleased pin).debt = db.debt.filter fun p => p ≠ pin := by
        unfold Database.markReleased Database.setState
        dsimp only
        rw [hrel.shed.debt]
      rw [hdebt', List.length_filter_lt_length_iff_exists]
      exact ⟨pin, hdebt, by simp⟩
    rw [hsame]
    omega
  · rw [if_neg hdrained] at hserves ⊢
    refine ⟨h.same hserves hrel.shed.supersessions, ?_⟩
    unfold Database.restMeasure
    rw [Database.dueFor_congr hrel.shed.supersessions, hrel.shed.debt, hhead]
    refine Prod.Lex.right _ ?_
    rcases hlowers with hdone | hmanifest | ⟨hsame, hwork⟩
    · exact absurd hdone hdrained
    · exact Prod.Lex.left _ _ hmanifest
    · rw [hsame]; exact Prod.Lex.right _ hwork

/-- **Every step lowers the measure, until there is nothing to do.** -/
theorem step (h : Draining digest P start db)
    (hwall : 0 ≤ sample.wall ∧ sample.wall ≤ maxInteger) :
    (db.probe clock sample).selected = none ∨ ∃ db',
      maintenanceStep .quiet clock sample db = (.ok .progress, db')
        ∧ Draining digest P start db'
        ∧ Lower (db'.restMeasure clock sample) (db.restMeasure clock sample) := by
  cases hhead : db.debt.head? with
  | some pin =>
      right
      refine h.step_pending hwall ?_ hhead
      unfold Database.probe
      rw [hhead]
      rfl
  | none =>
      cases hfirst : Table.first Supersession.before (db.dueFor clock sample) with
      | some s =>
          right
          refine h.step_due hwall ?_ (Table.first_mem hfirst)
          unfold Database.probe
          rw [hhead, hfirst]
          rfl
      | none =>
          left
          unfold Database.probe
          rw [hhead, hfirst]
          rfl

end Draining

/-! ### Runs to rest -/

theorem maintenanceStep_idle (hwall : 0 ≤ sample.wall ∧ sample.wall ≤ maxInteger)
    (hnone : (db.probe clock sample).selected = none) :
    maintenanceStep .quiet clock sample db = (.ok .idle, db) := by
  unfold maintenanceStep runUnit
  rw [if_neg (by decide), if_pos hwall, hnone]

/-- Enough fuel runs `maintain_revisions` to the end of a run. -/
theorem maintainRevisions_run (hwall : 0 ≤ sample.wall ∧ sample.wall ≤ maxInteger)
    (hrun : Relation.ReflTransGen (fun db db' : Database =>
      maintenanceStep .quiet clock sample db = (.ok .progress, db')) db db')
    (hnone : (db'.probe clock sample).selected = none) :
    ∃ fuel, maintainRevisions clock sample fuel db = some (.ok .idle, db') := by
  induction hrun using Relation.ReflTransGen.head_induction_on with
  | refl =>
      refine ⟨1, ?_⟩
      unfold maintainRevisions
      rw [maintenanceStep_idle hwall hnone]
  | head hstep _ ih =>
      obtain ⟨fuel, hfuel⟩ := ih
      refine ⟨fuel + 1, ?_⟩
      unfold maintainRevisions
      rw [hstep]
      exact hfuel

namespace Draining

variable {start : Database}

theorem rest (h : Draining digest P start db) (hnone : (db.probe clock sample).selected = none) :
    db.debt = [] ∧ db.dueFor clock sample = []
      ∧ ∀ s ∈ db.supersessions, s.state ≠ .pending := by
  unfold Database.probe at hnone
  dsimp only at hnone
  have hdebt : db.debt = [] := by
    cases hhead : db.debt with
    | nil => rfl
    | cons pin debt => rw [hhead] at hnone; cases hnone
  rw [hdebt] at hnone
  have hdue : db.dueFor clock sample = [] := by
    exact Table.first_eq_none.mp (Option.map_eq_none_iff.mp hnone)
  refine ⟨hdebt, hdue, fun s hs hpending => ?_⟩
  have hpaired := h.orderly.pairedState h.sound.foreignKeys hs
  rw [hpending] at hpaired
  have hmem := hpaired.1
  rw [hdebt] at hmem
  cases hmem

/-- **A revision that was pending or due is released at rest.** -/
theorem released (h : Draining digest P start db) (hstart : start.Orderly)
    (hnone : (db.probe clock sample).selected = none) {s : Supersession}
    (hs : s ∈ start.supersessions)
    (howed : s.state = .pending ∨ s ∈ start.dueFor clock sample) :
    db.stateOf s.revision = some .released ∧ db.PairedState s.revision .released := by
  obtain ⟨-, hdue, hpending⟩ := h.rest hnone
  -- the row of the revision is still there, with its stamp
  have hstamp : (s.revision, s.supersededAt) ∈ db.stampsOf := by
    rw [h.stamps]
    exact List.mem_map.mpr ⟨s, hs, rfl⟩
  obtain ⟨t, ht, hts⟩ := List.mem_map.mp hstamp
  obtain ⟨hrev, hat⟩ := Prod.mk.inj hts
  have hstate : t.state = .released := by
    cases hst : t.state with
    | released => rfl
    | pending => exact absurd hst (hpending t ht)
    | retained =>
        have hsame : t = s :=
          hstart.supersessionsKeyed.eq_of_key (h.retained t ht hst) hs hrev
        subst hsame
        rcases howed with hpend | hd
        · rw [hst] at hpend; cases hpend
        · have hstill : t ∈ db.dueFor clock sample := by
            unfold Database.dueFor at hd ⊢
            rw [Database.presentAt_congr h.stamps]
            split at hd
            · rename_i hplausible
              rw [if_pos hplausible]
              exact List.mem_filter.mpr ⟨ht, (List.mem_filter.mp hd).2⟩
            · cases hd
          rw [hdue] at hstill
          cases hstill
  have hpaired := h.orderly.pairedState h.sound.foreignKeys ht
  rw [hstate, hrev] at hpaired
  exact ⟨(Database.stateOf_eq_some h.orderly.supersessionsKeyed).mpr ⟨t, ht, hrev, hstate⟩, hpaired⟩

theorem no_candidates (h : Draining digest P start db)
    (hnone : (db.probe clock sample).selected = none) : ∀ c, c ∉ db.candidates := by
  intro c hc
  obtain ⟨s, hs, -, hstate⟩ := h.orderly.candidatesPending c hc
  exact (h.rest hnone).2.2 s hs hstate

/-- **Every parent that is left is selected by the head or a retained revision.** -/
theorem selected (h : Draining digest P start db)
    (hnone : (db.probe clock sample).selected = none) {p : Parent} (hp : p ∈ db.parents) :
    ∃ m ∈ db.manifest, p.key ∈ m.selects
      ∧ (m.revision = db.current ∨ db.stateOf m.revision = some .retained) := by
  rcases h.sound.journaled p hp with ⟨m, hm, hk⟩ | ⟨c, hc, -⟩
  · refine ⟨m, hm, hk, ?_⟩
    obtain ⟨-, -, hother, hstate⟩ :=
      h.orderly.pairedRevision_of_headed (h.sound.foreignKeys.manifestHeaded m hm)
    by_cases hcur : m.revision = db.current
    · exact Or.inl hcur
    · right
      obtain ⟨s, hs, hrev⟩ := hother hcur
      refine (Database.stateOf_eq_some h.orderly.supersessionsKeyed).mpr ⟨s, hs, hrev, ?_⟩
      cases hst : s.state with
      | retained => rfl
      | pending => exact absurd hst ((h.rest hnone).2.2 s hs)
      | released =>
          have hpaired := hstate s hs hrev
          rw [hst] at hpaired
          have hmem : m ∈ db.manifestOf m.revision := Database.mem_manifestOf.mpr ⟨hm, rfl⟩
          rw [hpaired.2.2] at hmem
          cases hmem
  · exact absurd hc (h.no_candidates hnone c)

end Draining

/-- **Revision release drains.**  From every state a history leads to, with the clock and
everything outside standing still, maintenance is idle after finitely many steps.  Then
every revision that was pending or due is released: one input row, the marker, is left of
it, no manifest row, no debt and no candidate; and every shared row that is left is
selected by the head or a retained revision. -/
theorem revision_release_drains {w : World} (h : World.Reached digest P w)
    (clock : RetentionClock) (sample : Sample)
    (hwall : 0 ≤ sample.wall ∧ sample.wall ≤ maxInteger) :
    ∃ fuel db, maintainRevisions clock sample fuel w.disk = some (.ok .idle, db)
      ∧ (∀ s ∈ w.disk.supersessions,
        s.state = .pending ∨ s ∈ w.disk.dueFor clock sample →
        db.stateOf s.revision = some .released
          ∧ db.inputsOf s.revision = [⟨s.revision, releasedMarker, releasedPayload⟩]
          ∧ db.manifestOf s.revision = [] ∧ s.revision ∉ db.debt
          ∧ ∀ c ∈ db.candidates, c.revision ≠ s.revision)
      ∧ ∀ p ∈ db.parents, ∃ m ∈ db.manifest, p.key ∈ m.selects
        ∧ (m.revision = db.current ∨ db.stateOf m.revision = some .retained) := by
  have hkept := h.kept
  have hstep : ∀ db, Draining digest P w.disk db → (db.probe clock sample).selected = none
      ∨ ∃ db', maintenanceStep .quiet clock sample db = (.ok .progress, db')
        ∧ Draining digest P w.disk db'
        ∧ Lower (db'.restMeasure clock sample) (db.restMeasure clock sample) :=
    fun db hd => hd.step hwall
  obtain ⟨db, hrun, hnone, hd⟩ := Runs.comes_to_rest lower_wf
    (Database.restMeasure clock sample) hstep (Draining.refl hkept.sound hkept.orderly)
  obtain ⟨fuel, hfuel⟩ := maintainRevisions_run hwall hrun hnone
  refine ⟨fuel, db, hfuel, ?_, fun p hp => hd.selected hnone hp⟩
  intro s hs howed
  obtain ⟨hstate, hdebt, hinputs, hmanifest⟩ := hd.released hkept.orderly hnone hs howed
  exact ⟨hstate, hinputs, hmanifest, hdebt, fun c hc => absurd hc (hd.no_candidates hnone c)⟩

theorem revision_release_drains_sample :
    Sample.published₂.disk.dueFor ⟨10000, 0⟩ ⟨11000, 1000⟩ = [⟨⟨7, 1⟩, 10000, .retained⟩]
      ∧ ∃ fuel db, maintainRevisions ⟨10000, 0⟩ ⟨11000, 1000⟩ fuel Sample.published₂.disk
          = some (.ok .idle, db)
        ∧ db.stateOf ⟨7, 1⟩ = some .released := by
  refine ⟨by decide +kernel, ?_⟩
  obtain ⟨fuel, db, hidle, hreleased, -⟩ := revision_release_drains Sample.reached₂ ⟨10000, 0⟩
    ⟨11000, 1000⟩ (by decide)
  refine ⟨fuel, db, hidle, ?_⟩
  exact (hreleased ⟨⟨7, 1⟩, 10000, .retained⟩ (by decide +kernel) (Or.inr (by decide +kernel))).1

end Baleyg.Store
