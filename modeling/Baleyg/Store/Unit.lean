/-
One maintenance unit, and one collection.

A unit either marks a due revision pending, or moves a pending one on: manifest
rows leave for the journal, the journal is cleaned, and when both are empty the
revision is marked released.  Every unit keeps `Sound` and `Orderly`, and leaves
what is readable at any other pin exactly as it was.  So does a collection, which
takes every parent no manifest row selects at once, at every pin.
-/
import Baleyg.Store.Orderly
import Mathlib.Data.List.Pairwise

namespace Baleyg.Store

open Fallible

variable {digest : Preimage → String} {P : Set Preimage} {db db' : Database} {pin : IndexPin}

/-! ### Manifest rows -/

theorem releases_journals (ks : List ParentKey) :
    ∀ {db : Database}, db.Sound digest P → db.Headed pin →
      Releases digest P pin db (ks.foldl (fun db k => db.journal pin k) db)
        ∧ (∀ c ∈ db.candidates, c ∈ (ks.foldl (fun db k => db.journal pin k) db).candidates)
        ∧ ∀ k ∈ ks, ⟨pin, k⟩ ∈ (ks.foldl (fun db k => db.journal pin k) db).candidates := by
  induction ks with
  | nil => intro db h _; exact ⟨Releases.refl h, fun c hc => hc, by intro k hk; cases hk⟩
  | cons k ks ih =>
      intro db h hpin
      have hfirst := releases_journal h hpin k
      obtain ⟨hrest, hold, hnew⟩ := ih hfirst.sound (hfirst.shed.headed.mpr hpin)
      refine ⟨hfirst.trans hrest, fun c hc => hold c (mem_journal_of_mem hc pin k), ?_⟩
      intro k' hk'
      rcases List.mem_cons.mp hk' with rfl | hk'
      · exact hold _ (mem_journal db pin k')
      · exact hnew k' hk'

theorem journals_manifest (pin : IndexPin) (ks : List ParentKey) (db : Database) :
    (ks.foldl (fun db k => db.journal pin k) db).manifest = db.manifest := by
  induction ks generalizing db with
  | nil => rfl
  | cons k ks ih =>
      rw [List.foldl_cons, ih]
      unfold Database.journal
      split <;> rfl

variable {m : ManifestRow} {pin' : IndexPin}

/-- **A manifest row may leave once what it selects is journaled.** -/
theorem releases_releaseEntry (h : db.Sound digest P) (hpin : db.Headed pin)
    (hm : ∀ m' ∈ db.manifest, m'.revision = pin → m'.ordinal = m.ordinal → m' = m) :
    Releases digest P pin db (db.releaseEntry pin m) := by
  obtain ⟨hjournal, -, hnew⟩ := releases_journals m.selects h hpin
  have hmanifest := journals_manifest pin m.selects db
  unfold Database.releaseEntry
  dsimp only
  generalize m.selects.foldl (fun db k => db.journal pin k) db = journaled
    at hjournal hnew hmanifest
  refine hjournal.trans ?_
  have hs := hjournal.sound
  have hsub : ∀ m' ∈ journaled.manifest.filter
      (fun m' => ¬ (m'.revision = pin ∧ m'.ordinal = m.ordinal)), m' ∈ journaled.manifest :=
    fun m' hm' => List.mem_of_mem_filter hm'
  refine ⟨{ hs with
      manifestApart := hs.manifestApart.sublist List.filter_sublist, complete := ?_,
      journaled := ?_, foreignKeys := hs.foreignKeys.with_manifest hsub },
    { Shed.refl pin journaled with
      manifest := List.filter_sublist, others := ?_, selectedAt := fun _ _ => rfl }⟩
  · rintro p hp ⟨m', hm', hsel⟩
    exact hs.complete p hp ⟨m', hsub m' hm', hsel⟩
  · intro p hp
    rcases hs.journaled p hp with ⟨m', hm', hsel⟩ | hcand
    · by_cases hgone : m'.revision = pin ∧ m'.ordinal = m.ordinal
      · -- the row that selected it is the one that left, and the journal has it
        rw [hm m' (hmanifest ▸ hm') hgone.1 hgone.2] at hsel
        exact Or.inr ⟨_, hnew _ hsel, rfl⟩
      · exact Or.inl ⟨m', List.mem_filter.mpr ⟨hm', decide_eq_true hgone⟩, hsel⟩
    · exact Or.inr hcand
  · intro pin' hne
    unfold Database.manifestOf
    rw [List.filter_filter]
    refine List.filter_congr fun m' _ => ?_
    by_cases hrev : m'.revision = pin'
    · simp [hrev, hne]
    · simp [hrev]

theorem releases_releaseEntries (entries : List ManifestRow) :
    ∀ {db : Database}, db.Sound digest P → db.Headed pin →
      (∀ m ∈ entries, ∀ m' ∈ db.manifest,
        m'.revision = pin → m'.ordinal = m.ordinal → m' = m) →
      Releases digest P pin db (entries.foldl (Database.releaseEntry pin) db) := by
  induction entries with
  | nil => intro db h _ _; exact Releases.refl h
  | cons m entries ih =>
      intro db h hpin hall
      have hfirst := releases_releaseEntry h hpin (hall m List.mem_cons_self)
      refine hfirst.trans (ih hfirst.sound (hfirst.shed.headed.mpr hpin) fun m' hm' n hn => ?_)
      exact hall m' (List.mem_cons_of_mem m hm') n (hfirst.shed.manifest.subset hn)

theorem Database.Sound.manifest_eq (h : db.Sound digest P) {m' : ManifestRow} (hm : m ∈ db.manifest)
    (hm' : m' ∈ db.manifest) (hrev : m'.revision = m.revision) (hord : m'.ordinal = m.ordinal) :
    m' = m := by
  by_contra hne
  have : Std.Symm fun m m' : ManifestRow => ¬ m.clashes m' := by
    refine ⟨fun a b hab hba => hab ?_⟩
    obtain ⟨hr, ho | ⟨h1, h2, h3⟩⟩ := hba
    · exact ⟨hr.symm, Or.inl ho.symm⟩
    · exact ⟨hr.symm, Or.inr ⟨h1.symm, h2.symm, h3.symm⟩⟩
  have hapart := h.manifestApart.forall hm' hm hne
  exact hapart ⟨hrev, Or.inl hord⟩

theorem mem_releaseEntries (hm : m ∈ db.releaseEntries pin) :
    m ∈ db.manifest ∧ m.revision = pin := by
  unfold Database.releaseEntries at hm
  have hsorted := List.mem_of_mem_take hm
  rw [List.mem_insertionSort] at hsorted
  exact Database.mem_manifestOf.mp hsorted

theorem releases_cleaned (h : db.Sound digest P) (hpin : db.Headed pin) :
    Releases digest P pin db
      (((db.releaseEntries pin).foldl (Database.releaseEntry pin) db).cleanAll pin) := by
  have hentries := releases_releaseEntries (db.releaseEntries pin) h hpin fun m hm m' hm' hrev hord =>
    h.manifest_eq (mem_releaseEntries hm).1 hm' (hrev.trans (mem_releaseEntries hm).2.symm) hord
  exact hentries.trans (releases_cleanAll hentries.sound (hentries.shed.headed.mpr hpin))

/-! ### The control rows of one revision -/

structure Controlled (db db' : Database) : Prop where
  metadata : db'.metadata = db.metadata
  headers : db'.headers = db.headers
  manifest : db'.manifest = db.manifest
  parents : db'.parents = db.parents
  children : db'.children = db.children
  candidates : db'.candidates = db.candidates

namespace Controlled

theorem headed (h : Controlled db db') {pin' : IndexPin} :
    db'.Headed pin' ↔ db.Headed pin' := by
  unfold Database.Headed
  rw [h.headers]

theorem selected (h : Controlled db db') {k : ParentKey} : db'.Selected k ↔ db.Selected k := by
  unfold Database.Selected
  rw [h.manifest]

theorem met (h : Controlled db db') {ref : Reference} (hmet : ref.Met db) : ref.Met db' := by
  cases ref with
  | parent k =>
      unfold Reference.Met at hmet ⊢
      rwa [h.parents]
  | classOf projection graph =>
      unfold Reference.Met Database.classProjections at hmet ⊢
      rwa [h.parents]
  | row t owner columns =>
      unfold Reference.Met at hmet ⊢
      rwa [h.children]

/-- **The evidence does not look at the control tables**, and the rows it needs of
them are headers. -/
theorem sound (h : Controlled db db') (hs : db.Sound digest P)
    (hinputs : ∀ i ∈ db'.inputs, db.Headed i.revision)
    (hsup : ∀ s ∈ db'.supersessions, db.Headed s.revision)
    (hdebt : ∀ pin ∈ db'.debt, db.Headed pin) : db'.Sound digest P where
  parentsKeyed := h.parents ▸ hs.parentsKeyed
  childrenKeyed := h.children ▸ hs.childrenKeyed
  manifestApart := h.manifest ▸ hs.manifestApart
  bound := h.parents ▸ hs.bound
  rows := by
    rw [h.children, h.parents]
    exact hs.rows
  complete := by
    intro p hp hsel
    obtain ⟨f, hf, hrows⟩ := hs.complete p (h.parents ▸ hp) (h.selected.mp hsel)
    exact ⟨f, hf, fun r hr => h.children ▸ hrows r hr⟩
  journaled := by
    intro p hp
    rw [h.selected, h.candidates]
    exact hs.journaled p (h.parents ▸ hp)
  foreignKeys :=
    { children := by
        intro r hr ref href
        exact h.met (hs.foreignKeys.children r (h.children ▸ hr) ref href)
      parents := by
        intro p hp
        have hhangs := hs.foreignKeys.parents p (h.parents ▸ hp)
        cases p with
        | version v => trivial
        | graph g =>
            unfold Parent.Hangs Database.documentVersions at hhangs ⊢
            rwa [h.parents]
        | classes c =>
            unfold Parent.Hangs Database.graphProjections at hhangs ⊢
            rwa [h.parents]
      manifest := by
        intro m hm
        refine (hs.foreignKeys.manifest m (h.manifest ▸ hm)).mono fun p hp _ => ?_
        rw [h.parents]
        exact hp
      manifestHeaded := fun m hm =>
        h.headed.mpr (hs.foreignKeys.manifestHeaded m (h.manifest ▸ hm))
      inputsHeaded := fun i hi => h.headed.mpr (hinputs i hi)
      supersessionsHeaded := fun s hs' => h.headed.mpr (hsup s hs')
      debtHeaded := fun pin hp => h.headed.mpr (hdebt pin hp)
      candidatesHeaded := fun c hc =>
        h.headed.mpr (hs.foreignKeys.candidatesHeaded c (h.candidates ▸ hc)) }

end Controlled

theorem mem_setState {old new : Retention} {s : Supersession} :
    s ∈ (db.setState pin old new).supersessions ↔
      (s ∈ db.supersessions ∧ ¬ (s.revision = pin ∧ s.state = old))
        ∨ (s.revision = pin ∧ s.state = new ∧ { s with state := old } ∈ db.supersessions) := by
  unfold Database.setState
  rw [List.mem_map]
  constructor
  · rintro ⟨t, ht, rfl⟩
    split
    · rename_i hold
      right
      refine ⟨hold.1, rfl, ?_⟩
      have hback : ({ t with state := old } : Supersession) = t := by rw [← hold.2]
      rw [hback]
      exact ht
    · rename_i hold
      exact Or.inl ⟨ht, hold⟩
  · rintro (⟨hs, hnot⟩ | ⟨hrev, hstate, hs⟩)
    · exact ⟨s, hs, if_neg hnot⟩
    · refine ⟨_, hs, ?_⟩
      rw [if_pos ⟨hrev, rfl⟩, ← hstate]

theorem setState_keyed {old new : Retention}
    (h : Table.Keyed Supersession.revision db.supersessions) :
    Table.Keyed Supersession.revision (db.setState pin old new).supersessions := by
  unfold Database.setState Table.Keyed at *
  rw [List.map_map]
  have hsame : (Supersession.revision ∘ fun s : Supersession =>
      if s.revision = pin ∧ s.state = old then { s with state := new } else s)
      = Supersession.revision := by
    funext s
    simp only [Function.comp_apply]
    split <;> rfl
  rwa [hsame]

/-! ### What a unit guarantees -/

/-- **A unit of the release of `pin`** keeps the store sound and orderly, and changes
nothing that is readable at any other pin. -/
structure Serves (digest : Preimage → String) (P : Set Preimage) (pin : IndexPin)
    (db db' : Database) : Prop where
  sound : db'.Sound digest P
  orderly : db'.Orderly
  metadata : db'.metadata = db.metadata
  headers : db'.headers = db.headers
  same : ∀ pin', pin' ≠ pin → Database.SameFor pin' db db'
  evidence : ∀ pin', pin' ≠ pin → db'.evidence pin' = db.evidence pin'
  expired : db'.Released pin

theorem Database.SameFor.evidence (h : Database.SameFor pin db db')
    (hheaders : db'.headers = db.headers)
    (hselected : ∀ k, db'.Selected k → db'.selectedAt k = db.selectedAt k) :
    db'.evidence pin = db.evidence pin := by
  unfold Database.evidence Database.headerOf
  rw [hheaders, h.inputs, h.manifest]
  congr 1
  refine List.map_congr_left fun m hm => ?_
  unfold Database.documentAt
  congr 1
  refine List.map_congr_left fun k hk => hselected k ⟨m, ?_, hk⟩
  rw [← h.manifest] at hm
  exact (Database.mem_manifestOf.mp hm).1

/-- A step that only changes the rows of one superseded revision keeps the tables in
order, if it leaves that revision as its state promises. -/
theorem Database.Orderly.of_sameFor (h : db.Orderly) (hmeta : db'.metadata = db.metadata)
    (hheaders : db'.headers = db.headers) (hother : pin ≠ db.current)
    (hsame : ∀ pin', pin' ≠ pin → Database.SameFor pin' db db')
    (hpin : db.PairedRevision pin → db'.PairedRevision pin)
    (hsup : Table.Keyed Supersession.revision db'.supersessions)
    (hinputs : Table.Keyed (fun i : CaptureInput => (i.revision, i.inputKey)) db'.inputs)
    (hcandidates : db'.CandidatesPending)
    (hstamps : ∀ s ∈ db'.supersessions, 0 ≤ s.supersededAt ∧ s.supersededAt ≤ maxInteger) :
    db'.Orderly := by
  have hcurrent : db'.current = db.current := congrArg Metadata.pin hmeta
  exact
    { headersKeyed := hheaders ▸ h.headersKeyed
      supersessionsKeyed := hsup
      inputsKeyed := hinputs
      generation := by
        rw [hheaders, hcurrent]
        exact h.generation
      headed := by
        rw [hcurrent]
        intro n hn hle
        obtain ⟨r, hr, hrp⟩ := h.headed n hn hle
        exact ⟨r, hheaders ▸ hr, hrp⟩
      paired := by
        intro r hr
        have hpaired := h.paired r (hheaders ▸ hr)
        by_cases hrp : r.pin = pin
        · rw [hrp] at hpaired ⊢
          exact hpin hpaired
        · exact (hsame _ hrp).pairedRevision hpaired
      unmarked := by
        rw [hcurrent]
        unfold Database.Released
        rw [Database.hasInput_iff, Database.hasInput_iff, (hsame _ hother.symm).inputs,
          ← Database.hasInput_iff, ← Database.hasInput_iff]
        exact h.unmarked
      candidatesPending := hcandidates
      stamps := hstamps }

/-! ### The first unit: marked pending -/

theorem pendingMarker_ne : pendingMarker ≠ releasedMarker := by decide

def Database.begun (db : Database) (pin : IndexPin) : Database :=
  { db.setState pin .retained .pending with
    debt := db.debt ++ [pin]
    inputs := db.inputs ++ [⟨pin, pendingMarker, pendingPayload⟩] }

theorem sameFor_begun (hne : pin' ≠ pin) : Database.SameFor pin' db (db.begun pin) where
  headed := id
  inventory := rfl
  supersessions := by
    intro s hs
    have hmem := @mem_setState db pin .retained .pending s
    rw [hs] at hmem
    simpa [Database.begun, hne] using hmem
  debt := by
    show pin' ∈ db.debt ++ [pin] ↔ _
    simp [hne]
  inputs := by
    refine Table.filter_append_of_none fun i hi => ?_
    rw [List.mem_singleton.mp hi]
    simpa using Ne.symm hne
  manifest := rfl
  current := Iff.rfl

theorem serves_begun (h : db.Sound digest P) (ho : db.Orderly) (hdue : db.stateOf pin = some .retained)
    (hfresh : ∀ i ∈ db.inputs, (i.revision, i.inputKey) ≠ (pin, pendingMarker)) :
    Serves digest P pin db (db.begun pin) := by
  obtain ⟨s, hs, hrev, hstate⟩ := (Database.stateOf_eq_some ho.supersessionsKeyed).mp hdue
  have hpin : db.Headed pin := hrev ▸ h.foreignKeys.supersessionsHeaded s hs
  have hcontrol : Controlled db (db.begun pin) := ⟨rfl, rfl, rfl, rfl, rfl, rfl⟩
  have hstates : ∀ t ∈ (db.begun pin).supersessions,
      t ∈ db.supersessions ∧ ¬ (t.revision = pin ∧ t.state = .retained)
        ∨ t.revision = pin ∧ t.state = .pending
          ∧ { t with state := .retained } ∈ db.supersessions := fun t ht => mem_setState.mp ht
  have hother : pin ≠ db.current := hrev ▸ ho.not_current h.foreignKeys hs
  refine ⟨?_, ?_, rfl, rfl, fun pin' hne => sameFor_begun hne, ?_, Or.inr ⟨_,
    List.mem_append_right _ List.mem_cons_self, rfl, rfl⟩⟩
  · refine hcontrol.sound h ?_ ?_ ?_
    · intro i hi
      rcases List.mem_append.mp hi with hi | hi
      · exact h.foreignKeys.inputsHeaded i hi
      · rw [List.mem_singleton.mp hi]; exact hpin
    · intro t ht
      rcases hstates t ht with ⟨ht, -⟩ | ⟨-, -, ht⟩
      · exact h.foreignKeys.supersessionsHeaded t ht
      · exact h.foreignKeys.supersessionsHeaded { t with state := .retained } ht
    · intro p hp
      rcases List.mem_append.mp hp with hp | hp
      · exact h.foreignKeys.debtHeaded p hp
      · rw [List.mem_singleton.mp hp]; exact hpin
  · refine ho.of_sameFor rfl rfl hother (fun pin' hne => sameFor_begun hne) ?_
      (setState_keyed ho.supersessionsKeyed) (ho.inputsKeyed.append_row hfresh) ?_ ?_
    · rintro ⟨hheaded, -, -, hpaired⟩
      have hretained := hpaired s hs hrev
      rw [hstate] at hretained
      obtain ⟨hdebt, hmark, hcount⟩ := hretained
      refine ⟨hheaded, fun hcur => absurd hcur hother, fun _ => ?_, ?_⟩
      · exact ⟨{ s with state := .pending }, mem_setState.mpr (Or.inr ⟨hrev, rfl, hstate ▸ hs⟩),
          hrev⟩
      · intro t ht htrev
        have htstate : t.state = .pending := by
          rcases hstates t ht with ⟨ht, hnot⟩ | ⟨-, hpending, -⟩
          · have hts := ho.supersessionsKeyed.eq_of_key ht hs (htrev.trans hrev.symm)
            exact absurd ⟨htrev, hts ▸ hstate⟩ hnot
          · exact hpending
        rw [htstate]
        refine ⟨List.mem_append_right _ List.mem_cons_self,
          List.mem_append_right _ List.mem_cons_self, ?_, hcount.le⟩
        rintro ⟨i, hi, hirev, hikey⟩
        rcases List.mem_append.mp hi with hi | hi
        · exact hmark (Or.inl ⟨i, hi, hirev, hikey⟩)
        · rw [List.mem_singleton.mp hi] at hikey; exact absurd hikey pendingMarker_ne
    · intro c hc
      obtain ⟨t, ht, htrev, htstate⟩ := ho.candidatesPending c hc
      refine ⟨t, mem_setState.mpr (Or.inl ⟨ht, ?_⟩), htrev, htstate⟩
      rw [htstate]
      exact fun hret => absurd hret.2 (by decide)
    · intro t ht
      rcases hstates t ht with ⟨ht, -⟩ | ⟨-, -, ht⟩
      · exact ho.stamps t ht
      · exact ho.stamps { t with state := .retained } ht
  · intro pin' hne; exact (sameFor_begun hne).evidence rfl fun _ _ => rfl

/-! ### The later units: a pending revision moved on -/

theorem Shed.sameFor (h : Shed pin db db') (hne : pin' ≠ pin) : Database.SameFor pin' db db' where
  headed := h.headed.mpr
  inventory := by
    unfold Database.inventoryOf Database.headerOf
    rw [h.headers]
  supersessions := fun s _ => by rw [h.supersessions]
  debt := by rw [h.debt]
  inputs := by
    unfold Database.inputsOf
    rw [h.inputs]
  manifest := h.others pin' hne
  current := by
    unfold Database.current
    rw [h.metadata]

theorem Shed.pairedState (h : Shed pin db db') (hp : db.PairedState pin .pending) :
    db'.PairedState pin .pending := by
  obtain ⟨hdebt, hmark, hreleased, hcount⟩ := hp
  refine ⟨h.debt ▸ hdebt, h.inputs ▸ hmark, ?_, ?_⟩
  · unfold Database.HasInput at hreleased ⊢
    rwa [h.inputs]
  · have hless : (db'.manifestOf pin).length ≤ (db.manifestOf pin).length :=
      (h.manifest.filter _).length_le
    have hinventory : db'.inventoryOf pin = db.inventoryOf pin := by
      unfold Database.inventoryOf Database.headerOf
      rw [h.headers]
    rw [hinventory]
    exact hless.trans hcount

theorem Shed.serves (hrel : Releases digest P pin db db') (h : db.Sound digest P)
    (ho : db.Orderly) (hpending : db.stateOf pin = some .pending) :
    Serves digest P pin db db' := by
  obtain ⟨s, hs, hrev, hstate⟩ := (Database.stateOf_eq_some ho.supersessionsKeyed).mp hpending
  have hshed := hrel.shed
  have hpaired : db.PairedState pin .pending := by
    have hp := ho.pairedState h.foreignKeys hs
    rwa [hrev, hstate] at hp
  have hother : pin ≠ db.current := hrev ▸ ho.not_current h.foreignKeys hs
  have hsingle : ∀ t ∈ db.supersessions, t.revision = pin → t.state = .pending := by
    intro t ht htrev
    rw [ho.supersessionsKeyed.eq_of_key ht hs (htrev.trans hrev.symm)]
    exact hstate
  refine ⟨hrel.sound, ?_, hshed.metadata, hshed.headers, fun _ hne => hshed.sameFor hne, ?_, ?_⟩
  · refine ho.of_sameFor hshed.metadata hshed.headers hother (fun _ hne => hshed.sameFor hne) ?_
      (hshed.supersessions ▸ ho.supersessionsKeyed) (hshed.inputs ▸ ho.inputsKeyed) ?_
      (hshed.supersessions ▸ ho.stamps)
    · rintro ⟨hheaded, -, -, -⟩
      refine ⟨hshed.headed.mpr hheaded, ?_, fun _ => ⟨s, hshed.supersessions ▸ hs, hrev⟩, ?_⟩
      · unfold Database.current
        rw [hshed.metadata]
        exact fun hcur => absurd hcur hother
      · rw [hshed.supersessions]
        intro t ht htrev
        rw [hsingle t ht htrev]
        exact hshed.pairedState hpaired
    · intro c hc
      rw [hshed.supersessions]
      rcases hshed.candidates c hc with hc | hc
      · exact ho.candidatesPending c hc
      · exact ⟨s, hs, hrev.trans hc.symm, hstate⟩
  · exact fun _ hne => (hshed.sameFor hne).evidence hshed.headers hshed.selectedAt
  · exact Or.inr ⟨_, hshed.inputs ▸ hpaired.2.1, rfl, rfl⟩

theorem sameFor_markReleased (hne : pin' ≠ pin) :
    Database.SameFor pin' db (db.markReleased pin) where
  headed := id
  inventory := rfl
  supersessions := by
    intro s hs
    have hmem := @mem_setState db pin .pending .released s
    rw [hs] at hmem
    simpa [Database.markReleased, hne] using hmem
  debt := by
    show pin' ∈ db.debt.filter (fun p => p ≠ pin) ↔ _
    rw [List.mem_filter]
    simp [hne]
  inputs := by
    show ((db.inputs.filter fun i : CaptureInput => i.revision ≠ pin) ++ [_]).filter _ = db.inputs.filter _
    rw [Table.filter_append_of_none, List.filter_filter]
    · refine List.filter_congr fun i _ => ?_
      by_cases hi : i.revision = pin'
      · simp [hi, hne]
      · simp [hi]
    · intro i hi
      rw [List.mem_singleton.mp hi]
      simpa using Ne.symm hne
  manifest := rfl
  current := Iff.rfl

/-- **A drained revision is marked released.** -/
theorem serves_markReleased (h : db.Sound digest P) (ho : db.Orderly)
    (hpending : db.stateOf pin = some .pending) (hdrained : db.Drained pin) :
    Serves digest P pin db (db.markReleased pin) := by
  obtain ⟨s, hs, hrev, hstate⟩ := (Database.stateOf_eq_some ho.supersessionsKeyed).mp hpending
  have hpin : db.Headed pin := hrev ▸ h.foreignKeys.supersessionsHeaded s hs
  have hother : pin ≠ db.current := hrev ▸ ho.not_current h.foreignKeys hs
  have hcontrol : Controlled db (db.markReleased pin) := ⟨rfl, rfl, rfl, rfl, rfl, rfl⟩
  have hstates : ∀ t ∈ (db.markReleased pin).supersessions,
      t ∈ db.supersessions ∧ ¬ (t.revision = pin ∧ t.state = .pending)
        ∨ t.revision = pin ∧ t.state = .released
          ∧ { t with state := .pending } ∈ db.supersessions := fun t ht => mem_setState.mp ht
  refine ⟨?_, ?_, rfl, rfl, fun _ hne => sameFor_markReleased hne, ?_, Or.inl ⟨_,
    List.mem_append_right _ List.mem_cons_self, rfl, rfl⟩⟩
  · refine hcontrol.sound h ?_ ?_ ?_
    · intro i hi
      rcases List.mem_append.mp hi with hi | hi
      · exact h.foreignKeys.inputsHeaded i (List.mem_of_mem_filter hi)
      · rw [List.mem_singleton.mp hi]; exact hpin
    · intro t ht
      rcases hstates t ht with ⟨ht, -⟩ | ⟨-, -, ht⟩
      · exact h.foreignKeys.supersessionsHeaded t ht
      · exact h.foreignKeys.supersessionsHeaded { t with state := .pending } ht
    · exact fun p hp => h.foreignKeys.debtHeaded p (List.mem_of_mem_filter hp)
  · refine ho.of_sameFor rfl rfl hother (fun _ hne => sameFor_markReleased hne) ?_
      (setState_keyed ho.supersessionsKeyed) ?_ ?_ ?_
    · rintro ⟨hheaded, -, -, -⟩
      refine ⟨hheaded, fun hcur => absurd hcur hother, fun _ => ?_, ?_⟩
      · exact ⟨{ s with state := .released },
          mem_setState.mpr (Or.inr ⟨hrev, rfl, hstate ▸ hs⟩), hrev⟩
      · intro t ht htrev
        have htstate : t.state = .released := by
          rcases hstates t ht with ⟨ht, hnot⟩ | ⟨-, hreleased, -⟩
          · have hts := ho.supersessionsKeyed.eq_of_key ht hs (htrev.trans hrev.symm)
            exact absurd ⟨htrev, hts ▸ hstate⟩ hnot
          · exact hreleased
        rw [htstate]
        refine ⟨?_, ?_, ?_⟩
        · intro hdebt; exact absurd rfl (of_decide_eq_true (List.mem_filter.mp hdebt).2)
        · show ((db.inputs.filter fun i : CaptureInput => i.revision ≠ pin) ++ [_]).filter _ = _
          rw [List.filter_append, List.filter_filter, List.filter_eq_nil_iff.mpr]
          · simp
          · intro i _; simp
        · refine List.filter_eq_nil_iff.mpr fun m hm => ?_
          rw [decide_eq_true_eq]
          exact hdrained.1 m hm
    · refine (ho.inputsKeyed.sublist List.filter_sublist).append_row fun i hi heq => ?_
      exact of_decide_eq_true (List.mem_filter.mp hi).2 (congrArg Prod.fst heq)
    · intro c hc
      obtain ⟨t, ht, htrev, htstate⟩ := ho.candidatesPending c hc
      refine ⟨t, mem_setState.mpr (Or.inl ⟨ht, ?_⟩), htrev, htstate⟩
      exact fun hgone => hdrained.2 c hc (htrev.symm.trans hgone.1)
    · intro t ht
      rcases hstates t ht with ⟨ht, -⟩ | ⟨-, -, ht⟩
      · exact ho.stamps t ht
      · exact ho.stamps { t with state := .pending } ht
  · exact fun _ hne => (sameFor_markReleased hne).evidence rfl fun _ _ => rfl

theorem Database.SameFor.trans {db'' : Database} (h : Database.SameFor pin db db')
    (h' : Database.SameFor pin db' db'') : Database.SameFor pin db db'' where
  headed := fun hp => h'.headed (h.headed hp)
  inventory := h'.inventory.trans h.inventory
  supersessions := fun s hs => (h'.supersessions s hs).trans (h.supersessions s hs)
  debt := h'.debt.trans h.debt
  inputs := h'.inputs.trans h.inputs
  manifest := h'.manifest.trans h.manifest
  current := h'.current.trans h.current

theorem Serves.trans {db'' : Database} (h : Serves digest P pin db db')
    (h' : Serves digest P pin db' db'') : Serves digest P pin db db'' where
  sound := h'.sound
  orderly := h'.orderly
  metadata := h'.metadata.trans h.metadata
  headers := h'.headers.trans h.headers
  same := fun pin' hne => (h.same pin' hne).trans (h'.same pin' hne)
  evidence := fun pin' hne => (h'.evidence pin' hne).trans (h.evidence pin' hne)
  expired := h'.expired

/-- **The unit of a pending revision.** -/
theorem serves_continueRelease (h : db.Sound digest P) (ho : db.Orderly)
    (hpending : db.stateOf pin = some .pending) :
    Serves digest P pin db (db.continueRelease pin) := by
  obtain ⟨s, hs, hrev, -⟩ := (Database.stateOf_eq_some ho.supersessionsKeyed).mp hpending
  have hpin : db.Headed pin := hrev ▸ h.foreignKeys.supersessionsHeaded s hs
  have hrel := releases_cleaned h hpin
  have hcleaned := Shed.serves hrel h ho hpending
  unfold Database.continueRelease
  dsimp only
  split
  · rename_i hdrained
    refine hcleaned.trans (serves_markReleased hcleaned.sound hcleaned.orderly ?_ hdrained)
    unfold Database.stateOf Database.supersessionOf
    rw [hrel.shed.supersessions]
    exact hpending
  · exact hcleaned

/-! ### A unit's transaction -/

/-- A unit begins the release of a retained revision and continues that of a pending one. -/
theorem yields_releaseUnit_of {Q : Database → Prop} (o : Outside) (head : IndexPin) (now : Int)
    (hbegun : db.stateOf pin = some .retained →
      (∃ s ∈ db.supersessions, s.revision = pin ∧ s.state = .retained ∧
        s.supersededAt ≤ graceStart now) →
      (∀ i ∈ db.inputs, (i.revision, i.inputKey) ≠ (pin, pendingMarker)) → Q (db.begun pin))
    (hcontinued : pin ≠ db.current → db.stateOf pin = some .pending →
      Q (db.continueRelease pin)) :
    Yields (releaseUnit o head now pin) db (fun _ db' => Q db') fun _ _ => True := by
  unfold releaseUnit checkpoint
  simp only [yields_bind, yields_get, yields_ensure, implies_true, and_true]
  intro _ hother
  cases hstate : db.stateOf pin with
  | none => exact trivial
  | some state =>
      cases state with
      | retained =>
          show Yields (beginRelease pin now) db _ _
          unfold beginRelease insertInput
          simp only [yields_bind, yields_get, yields_ensure, yields_set, implies_true, and_true]
          intro hdue _ hfresh _ _
          exact hbegun hstate hdue hfresh
      | pending =>
          show Yields (modify fun db => db.continueRelease pin) db _ _
          rw [yields_modify]
          intro _ _
          exact hcontinued hother hstate
      | released => exact trivial

/-- **A unit that runs to its COMMIT** serves the revision it was probed for. -/
theorem yields_releaseUnit (h : db.Sound digest P) (ho : db.Orderly) (o : Outside)
    (head : IndexPin) (now : Int) :
    Yields (releaseUnit o head now pin) db (fun _ db' => Serves digest P pin db db')
      fun _ _ => True :=
  yields_releaseUnit_of o head now (fun hstate _ hfresh => serves_begun h ho hstate hfresh)
    fun _ hstate => serves_continueRelease h ho hstate

/-! ### Collections -/

/-- **What a collection may take**: parents nothing selects, with their child rows. -/
structure Collected (db db' : Database) : Prop where
  rest : db' = { db with parents := db'.parents, children := db'.children }
  parents : db'.parents.Sublist db.parents
  children : db'.children.Sublist db.children
  keepParents : ∀ p ∈ db.parents, db.Selected p.key → p ∈ db'.parents
  keepChildren : ∀ r ∈ db.children, db.Selected r.parent → r ∈ db'.children
  rows : ∀ r ∈ db'.children, ∀ p ∈ db.parents, p.key = r.parent → p ∈ db'.parents

namespace Collected

theorem selected (h : Collected db db') {k : ParentKey} : db'.Selected k ↔ db.Selected k := by
  rw [h.rest]
  exact Iff.rfl

theorem trans {db'' : Database} (h : Collected db db') (h' : Collected db' db'') :
    Collected db db'' where
  rest := by rw [h'.rest, h.rest]
  parents := h'.parents.trans h.parents
  children := h'.children.trans h.children
  keepParents := fun p hp hsel =>
    h'.keepParents p (h.keepParents p hp hsel) (h.selected.mpr hsel)
  keepChildren := fun r hr hsel =>
    h'.keepChildren r (h.keepChildren r hr hsel) (h.selected.mpr hsel)
  rows := fun r hr p hp hk => h'.rows r hr p (h.rows r (h'.children.subset hr) p hp hk) hk

theorem collect (kind : Kind) (db : Database) : Collected db (db.collect kind) where
  rest := rfl
  parents := List.filter_sublist
  children := List.filter_sublist
  keepParents := by
    intro p hp hsel
    exact List.mem_filter.mpr ⟨hp, decide_eq_true fun hun => hun.2.1 hsel⟩
  keepChildren := by
    intro r hr hsel
    exact List.mem_filter.mpr ⟨hr, decide_eq_true fun hun => hun.2.1 hsel⟩
  rows := by
    intro r hr p hp hk
    refine List.mem_filter.mpr ⟨hp, ?_⟩
    rw [hk]
    exact (List.mem_filter.mp hr).2

theorem sound (h : Collected db db') (hs : db.Sound digest P) (hfk : db'.ForeignKeys) :
    db'.Sound digest P where
  parentsKeyed := hs.parentsKeyed.sublist h.parents
  childrenKeyed := hs.childrenKeyed.sublist h.children
  manifestApart := by
    rw [h.rest]
    exact hs.manifestApart
  bound := fun p hp => hs.bound p (h.parents.subset hp)
  rows := by
    intro r hr
    obtain ⟨p, hp, f, hf, hrf⟩ := hs.rows r (h.children.subset hr)
    exact ⟨p, h.rows r hr p hp (Parent.hangOff_rows p f r hrf).symm, f, hf, hrf⟩
  complete := by
    intro p hp hsel
    have hsel' := h.selected.mp hsel
    obtain ⟨f, hf, hrows⟩ := hs.complete p (h.parents.subset hp) hsel'
    refine ⟨f, hf, fun r hr => h.keepChildren r (hrows r hr) ?_⟩
    rw [Parent.hangOff_rows p f r hr]
    exact hsel'
  journaled := by
    intro p hp
    rw [h.selected, h.rest]
    exact hs.journaled p (h.parents.subset hp)
  foreignKeys := hfk

theorem orderly (h : Collected db db') (ho : db.Orderly) : db'.Orderly := by
  rw [h.rest]
  exact ⟨ho.headersKeyed, ho.supersessionsKeyed, ho.inputsKeyed, ho.generation, ho.headed,
    ho.paired, ho.unmarked, ho.candidatesPending, ho.stamps⟩

theorem selectedAt (h : Collected db db') (hs : db.Sound digest P) {k : ParentKey}
    (hsel : db.Selected k) : db'.selectedAt k = db.selectedAt k := by
  have hparents : db'.parents.filter (fun p => p.key = k) = db.parents.filter fun p => p.key = k := by
    refine Table.filter_eq_of_sublist h.parents hs.parentsKeyed.nodup fun p hp hk => ?_
    exact h.keepParents p hp (by rwa [of_decide_eq_true hk])
  have hchildren : db'.childrenOf k = db.childrenOf k := by
    refine Table.filter_eq_of_sublist h.children hs.childrenKeyed.nodup fun r hr hk => ?_
    exact h.keepChildren r hr (by rwa [of_decide_eq_true hk])
  unfold Database.selectedAt
  rw [hchildren, ← List.head?_filter, ← List.head?_filter, hparents]

/-- **A collection changes nothing that is readable at any pin.** -/
theorem evidence (h : Collected db db') (hs : db.Sound digest P) (pin : IndexPin) :
    db'.evidence pin = db.evidence pin := by
  have hsame : Database.SameFor pin db db' := by
    rw [h.rest]
    exact ⟨id, rfl, fun _ _ => Iff.rfl, Iff.rfl, rfl, rfl, Iff.rfl⟩
  have hheaders : db'.headers = db.headers := by rw [h.rest]
  exact hsame.evidence hheaders fun k hsel => h.selectedAt hs (h.selected.mp hsel)

end Collected

theorem yields_collectBody (o : Outside) (db : Database) :
    Yields (collectBody o) db (fun _ db' => Collected db db' ∧ db'.ForeignKeys)
      fun _ _ => True := by
  unfold collectBody
  simp only [yields_bind, yields_get]
  split
  · exact trivial
  · unfold checkpoint
    simp only [yields_bind, yields_ensure, yields_set, implies_true, and_true]
    intro _ hfk _
    exact ⟨((Collected.collect .classes db).trans (Collected.collect .graph _)).trans
      (Collected.collect .version _), hfk⟩

end Baleyg.Store
