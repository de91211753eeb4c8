/-
Why checking what changes is enough.

The control check runs in full when a store is opened.  A publication runs it over
the head, its predecessor and what is being released, and leaves the rest of the
history alone.  So no step may break a revision outside that scope, from any state
the full check accepts, however it came about.

A publication adds rows of the revision it commits and stamps the one it supersedes,
both in scope.  A maintenance unit touches one superseded revision, which stays in
scope as long as it is pending; the unit that releases it takes it out of scope, and
by then nothing of it is left but what a released revision should have.

`Malformed` is the query as it is written, clause by clause, and
`sound_iff_not_malformed` ties it to what the rest of this development reads it as.
-/
import Baleyg.Store.History

namespace Baleyg.Store

open Fallible

variable {digest : Preimage → String} {base db db' db'' : Database} {pin pin' : IndexPin}
  {now : Int}

/-! ### The query -/

namespace Database

/-- **One revision of `paired_manifest_query`.**  The state is the one joined to it, and a
comparison with no state is not true. -/
def Malformed (db : Database) (pin : IndexPin) : Prop :=
  ¬ db.Headed pin
    ∨ (pin = db.current ∧ (db.stateOf pin ≠ none ∨ pin ∈ db.debt
        ∨ (db.manifestOf pin).length ≠ db.inventoryOf pin))
    ∨ (pin ≠ db.current ∧ db.stateOf pin = none)
    ∨ (pin ∈ db.debt ∧ ∃ state ∈ db.stateOf pin, state ≠ .pending)
    ∨ (db.stateOf pin = some .pending ∧ pin ∉ db.debt)
    ∨ (db.stateOf pin = some .retained ∧ (pin ∈ db.debt ∨ db.Released pin
        ∨ (db.manifestOf pin).length ≠ db.inventoryOf pin))
    ∨ (db.stateOf pin = some .pending ∧ (⟨pin, pendingMarker, pendingPayload⟩ ∉ db.inputs
        ∨ db.HasInput pin releasedMarker ∨ db.inventoryOf pin < (db.manifestOf pin).length))
    ∨ (db.stateOf pin = some .released ∧ (pin ∈ db.debt ∨ (db.inputsOf pin).length ≠ 1
        ∨ ⟨pin, releasedMarker, releasedPayload⟩ ∉ db.inputs ∨ db.manifestOf pin ≠ []))
    ∨ ∃ i ∈ db.inputs, i.revision = pin ∧
        ((i.inputKey = pendingMarker
            ∧ (i.payload ≠ pendingPayload ∨ ∃ state ∈ db.stateOf pin, state ≠ .pending))
          ∨ (i.inputKey = releasedMarker
            ∧ (i.payload ≠ releasedPayload ∨ ∃ state ∈ db.stateOf pin, state ≠ .released)))

theorem forall_stateOf (h : Table.Keyed Supersession.revision db.supersessions)
    (p : Retention → Prop) :
    (∀ s ∈ db.supersessions, s.revision = pin → p s.state) ↔ ∀ state ∈ db.stateOf pin, p state := by
  constructor
  · intro hall state hstate
    obtain ⟨s, hs, hrev, rfl⟩ := (stateOf_eq_some h).mp hstate
    exact hall s hs hrev
  · intro hall s hs hrev; exact hall _ ((stateOf_eq_some h).mpr ⟨s, hs, hrev, rfl⟩)

theorem exists_supersession (h : Table.Keyed Supersession.revision db.supersessions) :
    (∃ s ∈ db.supersessions, s.revision = pin) ↔ db.stateOf pin ≠ none := by
  rw [Option.ne_none_iff_exists']
  constructor
  · rintro ⟨s, hs, hrev⟩
    exact ⟨s.state, (stateOf_eq_some h).mpr ⟨s, hs, hrev, rfl⟩⟩
  · rintro ⟨state, hstate⟩
    obtain ⟨s, hs, hrev, -⟩ := (stateOf_eq_some h).mp hstate
    exact ⟨s, hs, hrev⟩

theorem eq_singleton_iff {α : Type} {xs : List α} {x : α} : xs = [x] ↔ xs.length = 1 ∧ x ∈ xs := by
  constructor
  · rintro rfl
    exact ⟨rfl, List.mem_cons_self⟩
  · rintro ⟨hlen, hmem⟩
    obtain ⟨y, rfl⟩ := List.length_eq_one_iff.mp hlen
    rw [List.mem_singleton.mp hmem]

theorem pairedRevision_iff (h : Table.Keyed Supersession.revision db.supersessions) :
    db.PairedRevision pin ↔ db.Headed pin
      ∧ (pin = db.current → db.stateOf pin = none ∧ pin ∉ db.debt
        ∧ (db.manifestOf pin).length = db.inventoryOf pin)
      ∧ (pin ≠ db.current → db.stateOf pin ≠ none)
      ∧ ∀ state ∈ db.stateOf pin, db.PairedState pin state := by
  have hnone : (∀ s ∈ db.supersessions, s.revision ≠ pin) ↔ db.stateOf pin = none := by
    rw [← not_iff_not, ← ne_eq, ← exists_supersession h]
    push Not
    rfl
  unfold PairedRevision
  rw [hnone, exists_supersession h, forall_stateOf h]

theorem markersMatch_iff (h : Table.Keyed Supersession.revision db.supersessions) :
    db.MarkersMatch pin ↔ ∀ i ∈ db.inputs, i.revision = pin →
      (i.inputKey = pendingMarker →
        i.payload = pendingPayload ∧ ∀ state ∈ db.stateOf pin, state = .pending)
      ∧ (i.inputKey = releasedMarker →
        i.payload = releasedPayload ∧ ∀ state ∈ db.stateOf pin, state = .released) := by
  unfold MarkersMatch
  rw [forall_stateOf h (· = .pending), forall_stateOf h (· = .released)]

/-- **The check accepts a revision exactly when the query finds nothing wrong with it.** -/
theorem sound_iff_not_malformed (h : Table.Keyed Supersession.revision db.supersessions) :
    db.PairedRevision pin ∧ db.MarkersMatch pin ↔ ¬ db.Malformed pin := by
  have hone : db.inputsOf pin = [⟨pin, releasedMarker, releasedPayload⟩] ↔
      (db.inputsOf pin).length = 1 ∧ ⟨pin, releasedMarker, releasedPayload⟩ ∈ db.inputs := by
    rw [eq_singleton_iff, mem_inputsOf, and_iff_left rfl]
  rw [pairedRevision_iff h, markersMatch_iff h]
  unfold Malformed
  cases db.stateOf pin with
  | none => grind
  | some state =>
      simp only [Option.mem_some_iff, forall_eq', exists_eq_left', Option.some.injEq, reduceCtorEq]
      cases state with
      | retained | pending =>
          simp only [PairedState]
          grind
      | released =>
          simp only [PairedState, hone]
          grind

/-! ### What the scope leaves out -/

theorem SameFor.markersMatch (h : SameFor pin db db') (hm : db.MarkersMatch pin) :
    db'.MarkersMatch pin := by
  intro i hi hrev
  have hmem : i ∈ db'.inputsOf pin := mem_inputsOf.mpr ⟨hi, hrev⟩
  rw [h.inputs] at hmem
  obtain ⟨hpending, hreleased⟩ := hm i (mem_inputsOf.mp hmem).1 hrev
  refine ⟨fun hkey => ?_, fun hkey => ?_⟩
  · obtain ⟨hpayload, hstates⟩ := hpending hkey
    exact ⟨hpayload, fun s hs hsrev => hstates s ((h.supersessions s hsrev).mp hs) hsrev⟩
  · obtain ⟨hpayload, hstates⟩ := hreleased hkey
    exact ⟨hpayload, fun s hs hsrev => hstates s ((h.supersessions s hsrev).mp hs) hsrev⟩

theorem mem_fullScope : pin ∈ db.fullScope ↔ db.Headed pin := List.mem_map

theorem current_mem_changingScope : db.current ∈ db.changingScope := List.mem_cons_self

theorem pending_mem_changingScope {s : Supersession} (hs : s ∈ db.supersessions)
    (hstate : s.state = .pending) : s.revision ∈ db.changingScope := by
  unfold changingScope
  refine List.mem_append_left _ (List.mem_append_right _ ?_)
  exact List.mem_map.mpr ⟨s, List.mem_filter.mpr ⟨hs, by simpa using hstate⟩, rfl⟩

/-- **The full check is the changing one and what its scope leaves out.** -/
theorem full_of_changing (h : db.PairedMetadata db.changingScope)
    (hrest : ∀ pin, db.Headed pin → pin ∉ db.changingScope →
      db.PairedRevision pin ∧ db.MarkersMatch pin) : db.PairedMetadata db.fullScope := by
  obtain ⟨hcontiguous, hpaired, hcandidates, hmarkers, hgraph⟩ := h
  have hall : ∀ pin ∈ db.fullScope, db.PairedRevision pin ∧ db.MarkersMatch pin := by
    intro pin hpin
    by_cases hscope : pin ∈ db.changingScope
    · exact ⟨hpaired pin hscope, hmarkers pin hscope⟩
    · exact hrest pin (mem_fullScope.mp hpin) hscope
  exact ⟨hcontiguous, fun pin hpin => (hall pin hpin).1, hcandidates,
    fun pin hpin => (hall pin hpin).2, hgraph⟩

/-- Tables that differ in one revision only, which the changing scope has or which is as it
should be. -/
theorem full_of_sameFor (hfull : db.PairedMetadata db.fullScope)
    (h : db'.PairedMetadata db'.changingScope)
    (hheaded : ∀ pin', db'.Headed pin' → db.Headed pin')
    (hsame : ∀ pin', pin' ≠ pin → SameFor pin' db db')
    (hpin : db.Headed pin → pin ∉ db'.changingScope →
      db'.PairedRevision pin ∧ db'.MarkersMatch pin) : db'.PairedMetadata db'.fullScope := by
  refine full_of_changing h fun pin' hpin' hscope => ?_
  have hold := hheaded pin' hpin'
  by_cases hne : pin' = pin
  · rw [hne] at hold hscope ⊢
    exact hpin hold hscope
  · have hmem := mem_fullScope.mpr hold
    exact ⟨(hsame pin' hne).pairedRevision (hfull.2.1 pin' hmem),
      (hsame pin' hne).markersMatch (hfull.2.2.2.1 pin' hmem)⟩

end Database

/-! ### Publications -/

/-- **The head's rows and its predecessor's are in scope**, and those of every older
revision are as they were. -/
theorem Follows.full (h : Follows now base db')
    (hbase : base.headers = [] ∨ base.PairedMetadata base.fullScope)
    (hchanging : db'.PairedMetadata db'.changingScope) : db'.PairedMetadata db'.fullScope := by
  refine Database.full_of_changing hchanging ?_
  rintro pin ⟨r, hr, rfl⟩ hscope
  have hnew : r.pin ≠ db'.current := by
    intro hcur
    exact hscope (hcur ▸ Database.current_mem_changingScope)
  have hrbase := h.header_base hr hnew
  rcases hbase with hnone | hfull
  · rw [hnone] at hrbase; cases hrbase
  · have hold : r.pin ≠ base.current := by
      intro hcur
      have hpos : 0 < base.current.indexRevision := hcur ▸ (hfull.1.2.2.2 r hrbase).2.1
      refine hscope ?_
      unfold Database.changingScope
      rw [h.next, if_pos (by simpa using hpos), hcur]
      simp
    have hmem : r.pin ∈ base.fullScope := Database.mem_fullScope.mpr ⟨r, hrbase, rfl⟩
    have hsame := h.sameFor hnew hold
    exact ⟨hsame.pairedRevision (hfull.2.1 _ hmem), hsame.markersMatch (hfull.2.2.2.1 _ hmem)⟩

structure Extends (pin : IndexPin) (base db : Database) : Prop where
  metadata : db.metadata = base.metadata
  supersessions : db.supersessions = base.supersessions
  debt : db.debt = base.debt
  headers : ∃ rows, db.headers = base.headers ++ rows ∧ ∀ r ∈ rows, r.pin = pin
  inputs : ∃ rows, db.inputs = base.inputs ++ rows ∧ ∀ i ∈ rows, i.revision = pin
  manifest : ∃ rows, db.manifest = base.manifest ++ rows ∧ ∀ m ∈ rows, m.revision = pin

namespace Extends

theorem append_row {α : Type} {base xs : List α} {p : α → Prop} {x : α}
    (h : ∃ rows, xs = base ++ rows ∧ ∀ r ∈ rows, p r) (hx : p x) :
    ∃ rows, xs ++ [x] = base ++ rows ∧ ∀ r ∈ rows, p r := by
  obtain ⟨rows, rfl, hall⟩ := h
  refine ⟨rows ++ [x], List.append_assoc _ _ _, fun r hr => ?_⟩
  rcases List.mem_append.mp hr with hr | hr
  · exact hall r hr
  · rw [List.mem_singleton.mp hr]; exact hx

theorem refl (pin : IndexPin) (db : Database) : Extends pin db db where
  metadata := rfl
  supersessions := rfl
  debt := rfl
  headers := ⟨[], (List.append_nil _).symm, by intro r hr; cases hr⟩
  inputs := ⟨[], (List.append_nil _).symm, by intro r hr; cases hr⟩
  manifest := ⟨[], (List.append_nil _).symm, by intro r hr; cases hr⟩

theorem insertHeader (h : Extends pin base db) {row : RevisionHeader} (hrow : row.pin = pin) :
    Yields (insertHeader row) db (fun _ db' => Extends pin base db') fun _ _ => True := by
  simp only [Store.insertHeader, yields_bind, yields_get, yields_ensure, yields_set,
    implies_true, and_true]
  intro _
  exact { h with headers := append_row h.headers hrow }

theorem insertInput (h : Extends pin base db) {row : CaptureInput} (hrow : row.revision = pin) :
    Yields (insertInput row) db (fun _ db' => Extends pin base db') fun _ _ => True := by
  simp only [Store.insertInput, yields_bind, yields_get, yields_ensure, yields_set,
    implies_true, and_true]
  intro _
  exact { h with inputs := append_row h.inputs hrow }

theorem insertManifest (h : Extends pin base db) {row : ManifestRow}
    (hrow : row.revision = pin) :
    Yields (insertManifest row) db (fun _ db' => Extends pin base db') fun _ _ => True := by
  simp only [Store.insertManifest, yields_bind, yields_get, yields_ensure, yields_set,
    implies_true, and_true]
  intro _
  exact { h with manifest := append_row h.manifest hrow }

theorem copyInputs (h : Extends pin base db) (old : IndexPin) :
    Yields (copyInputs old pin) db (fun _ db' => Extends pin base db') fun _ _ => True := by
  unfold Store.copyInputs
  rw [yields_bind, yields_get]
  exact @yields_forM Database Failure CaptureInput db (fun _ _ => True)
    (fun i => Store.insertInput { i with revision := pin }) (db.inputsOf old)
    (fun _ t => Extends pin base t) (fun _ _ _ _ ht => ht.insertInput rfl) h

theorem copyManifest (h : Extends pin base db) (old : IndexPin) (files : Nat) :
    Yields (copyManifest old pin files) db (fun _ db' => Extends pin base db')
      fun _ _ => True := by
  unfold Store.copyManifest
  rw [yields_bind, yields_get, yields_bind]
  have hloop := @yields_forM Database Failure ManifestRow db (fun _ _ => True)
    (fun m => Store.insertManifest { m with revision := pin }) (db.manifestOf old)
    (fun _ t => Extends pin base t) (fun _ _ _ _ ht => ht.insertManifest rfl) h
  refine hloop.mono (fun _ t ht => ?_) fun _ _ _ => trivial
  rw [yields_ensure]
  exact ⟨fun _ => ht, fun _ => trivial⟩

end Extends

/-- **The unchanged route adds the next revision too**, whatever it finds. -/
theorem follows_publishUnchangedBody (o : Outside) (c : Capture) (expected : IndexPin)
    (admitted : Admission) (locked : Locked) (stamp : Stamp)
    (hpos : 0 < db.current.indexRevision) :
    Yields (publishUnchangedBody o c expected admitted locked stamp) db
      (fun _ db' => Follows stamp.wall db db' ∧ db'.PairedMetadata db'.changingScope)
      fun _ _ => True := by
  unfold publishUnchangedBody checkExpected checkpoint nextPin copyHeader
  simp only [yields_bind, yields_get, yields_ensure, implies_true, and_true, Bool.false_eq_true,
    if_false, yields_pure]
  intro _ _ hcurrent _ _ _ _
  subst hcurrent
  cases db.headerOf db.current with
  | none => exact trivial
  | some h =>
      refine ((Extends.refl _ db).insertHeader rfl).mono (fun _ db₁ h₁ => ?_) fun _ _ _ => trivial
      refine (h₁.copyInputs db.current).mono (fun _ db₂ h₂ => ?_) fun _ _ _ => trivial
      refine (h₂.copyManifest db.current _).mono (fun _ mid hmid => ?_) fun _ _ _ => trivial
      unfold retentionTime stampPredecessor updateUnchanged validatePaired
      simp only [yields_bind, yields_get, yields_ensure, yields_set, yields_modify, yields_pure,
        implies_true, and_true]
      intro _ _ hpaired _
      refine ⟨⟨hmid.headers, hmid.inputs, hmid.manifest, hmid.debt, ?_, rfl⟩, hpaired⟩
      show mid.supersessions ++ _ = db.supersessions ++ db.stampAt stamp.wall
      unfold Database.stampAt
      rw [if_pos hpos, hmid.supersessions]

/-! ### Maintenance -/

/-- The control tables are as they were, and manifest rows may have left one revision. -/
structure Spares (pin : IndexPin) (db db' : Database) : Prop where
  metadata : db'.metadata = db.metadata
  headers : db'.headers = db.headers
  inputs : db'.inputs = db.inputs
  supersessions : db'.supersessions = db.supersessions
  debt : db'.debt = db.debt
  others : ∀ pin', pin' ≠ pin → db'.manifestOf pin' = db.manifestOf pin'

namespace Spares

theorem refl (pin : IndexPin) (db : Database) : Spares pin db db :=
  ⟨rfl, rfl, rfl, rfl, rfl, fun _ _ => rfl⟩

theorem trans (h : Spares pin db db') (h' : Spares pin db' db'') : Spares pin db db'' where
  metadata := h'.metadata.trans h.metadata
  headers := h'.headers.trans h.headers
  inputs := h'.inputs.trans h.inputs
  supersessions := h'.supersessions.trans h.supersessions
  debt := h'.debt.trans h.debt
  others := fun pin' hne => (h'.others pin' hne).trans (h.others pin' hne)

theorem journal (pin pin' : IndexPin) (db : Database) (k : ParentKey) :
    Spares pin db (db.journal pin' k) := by
  unfold Database.journal
  split
  · exact refl pin db
  · exact ⟨rfl, rfl, rfl, rfl, rfl, fun _ _ => rfl⟩

theorem journals (pin : IndexPin) (ks : List ParentKey) (db : Database) :
    Spares pin db (ks.foldl (fun db k => db.journal pin k) db) := by
  induction ks generalizing db with
  | nil => exact refl pin db
  | cons k ks ih => exact (journal pin pin db k).trans (ih _)

theorem deleteChildren (pin : IndexPin) (id : String) (tables : List ChildTable)
    (db : Database) : Spares pin db (Database.deleteChildren id tables db).1 := by
  induction tables generalizing db with
  | nil => exact refl pin db
  | cons t tables ih =>
      have hfirst : Spares pin db (db.deleteChild t id) :=
        ⟨rfl, rfl, rfl, rfl, rfl, fun _ _ => rfl⟩
      unfold Database.deleteChildren
      dsimp only
      split
      · exact hfirst
      · exact hfirst.trans (ih _)

theorem cleanCandidate (pin : IndexPin) (k : ParentKey) (db : Database) :
    Spares pin db (db.cleanCandidate pin k).1 := by
  unfold Database.cleanCandidate
  split
  · exact ⟨rfl, rfl, rfl, rfl, rfl, fun _ _ => rfl⟩
  · split
    · exact journal pin pin db _
    · have hemptied := deleteChildren pin k.id k.kind.children db
      dsimp only
      split
      · exact hemptied.trans ⟨rfl, rfl, rfl, rfl, rfl, fun _ _ => rfl⟩
      · exact hemptied

theorem cleanup (pin : IndexPin) (kind : Kind) (n : Nat) (db : Database) :
    Spares pin db (db.cleanup pin kind n) := by
  induction n generalizing db with
  | zero => exact refl pin db
  | succ n ih =>
      unfold Database.cleanup
      split
      · exact refl pin db
      · rename_i id _
        have hcleaned := cleanCandidate pin ⟨kind, id⟩ db
        dsimp only
        split
        · exact hcleaned.trans (ih _)
        · exact hcleaned

theorem cleanAll (pin : IndexPin) (db : Database) : Spares pin db (db.cleanAll pin) :=
  ((cleanup pin .classes _ db).trans (cleanup pin .graph _ _)).trans (cleanup pin .version _ _)

theorem releaseEntry (pin : IndexPin) (db : Database) (m : ManifestRow) :
    Spares pin db (db.releaseEntry pin m) := by
  refine (journals pin m.selects db).trans ⟨rfl, rfl, rfl, rfl, rfl, fun pin' hne => ?_⟩
  show List.filter _ (List.filter _ _) = _
  unfold Database.manifestOf
  rw [List.filter_filter]
  refine List.filter_congr fun m' _ => ?_
  by_cases hrev : m'.revision = pin'
  · simp [hrev, hne]
  · simp [hrev]

theorem releaseEntries (pin : IndexPin) (entries : List ManifestRow) (db : Database) :
    Spares pin db (entries.foldl (Database.releaseEntry pin) db) := by
  induction entries generalizing db with
  | nil => exact refl pin db
  | cons m entries ih => exact (releaseEntry pin db m).trans (ih _)

theorem current (h : Spares pin db db') : db'.current = db.current := by
  unfold Database.current
  rw [h.metadata]

theorem headed (h : Spares pin db db') : db'.Headed pin' ↔ db.Headed pin' := by
  unfold Database.Headed
  rw [h.headers]

theorem sameFor (h : Spares pin db db') (hne : pin' ≠ pin) : Database.SameFor pin' db db' where
  headed := h.headed.mpr
  inventory := by
    unfold Database.inventoryOf Database.headerOf
    rw [h.headers]
  supersessions := fun s _ => by rw [h.supersessions]
  debt := by rw [h.debt]
  inputs := by
    unfold Database.inputsOf
    rw [h.inputs]
  manifest := h.others pin' hne
  current := by rw [h.current]

end Spares

/-- **A drained revision that is marked released is as a released one should be.** -/
theorem markReleased_paired (hheaded : db.Headed pin) (hother : pin ≠ db.current)
    (hstates : ∀ s ∈ db.supersessions, s.revision = pin → s.state = .pending)
    (hrow : ∃ s ∈ db.supersessions, s.revision = pin) (hdrained : db.Drained pin) :
    (db.markReleased pin).PairedRevision pin ∧ (db.markReleased pin).MarkersMatch pin := by
  have hreleased : ∀ s ∈ (db.markReleased pin).supersessions, s.revision = pin →
      s.state = .released := by
    intro s hs hrev
    rcases mem_setState.mp hs with ⟨hs, hnot⟩ | ⟨-, hstate, -⟩
    · exact absurd ⟨hrev, hstates s hs hrev⟩ hnot
    · exact hstate
  have hinputs : (db.markReleased pin).inputsOf pin
      = [⟨pin, releasedMarker, releasedPayload⟩] := by
    show ((db.inputs.filter fun i : CaptureInput => i.revision ≠ pin) ++ [_]).filter _ = _
    rw [List.filter_append, List.filter_filter]
    simp
  refine ⟨⟨hheaded, fun hcur => absurd hcur hother, fun _ => ?_, fun s hs hrev => ?_⟩, ?_⟩
  · obtain ⟨s, hs, hrev⟩ := hrow
    refine ⟨{ s with state := .released }, ?_, hrev⟩
    exact mem_setState.mpr (Or.inr ⟨hrev, rfl, hstates s hs hrev ▸ hs⟩)
  · rw [hreleased s hs hrev]
    refine ⟨?_, hinputs, ?_⟩
    · show pin ∉ db.debt.filter fun p => p ≠ pin
      simp
    · refine List.filter_eq_nil_iff.mpr fun m hm => ?_
      simpa using hdrained.1 m hm
  · intro i hi hrev
    have hmem : i ∈ (db.markReleased pin).inputsOf pin := Database.mem_inputsOf.mpr ⟨hi, hrev⟩
    rw [hinputs, List.mem_singleton] at hmem
    rw [hmem]
    exact ⟨fun hkey => absurd hkey.symm pendingMarker_ne, fun _ => ⟨rfl, hreleased⟩⟩

/-- **A unit of a pending revision**, whatever else the tables hold. -/
theorem continueRelease_full (hfull : db.PairedMetadata db.fullScope)
    (hpending : db.stateOf pin = some .pending) (hother : pin ≠ db.current)
    (hchanging : (db.continueRelease pin).PairedMetadata (db.continueRelease pin).changingScope) :
    (db.continueRelease pin).PairedMetadata (db.continueRelease pin).fullScope := by
  have hspares : Spares pin db
      (((db.releaseEntries pin).foldl (Database.releaseEntry pin) db).cleanAll pin) :=
    (Spares.releaseEntries pin _ db).trans (Spares.cleanAll pin _)
  have hrow : ∃ s ∈ db.supersessions, s.revision = pin ∧ s.state = .pending := by
    unfold Database.stateOf Database.supersessionOf at hpending
    obtain ⟨s, hfind, hstate⟩ := Option.map_eq_some_iff.mp hpending
    exact ⟨s, List.mem_of_find?_eq_some hfind, by simpa using List.find?_some hfind, hstate⟩
  obtain ⟨s, hs, hrev, hstate⟩ := hrow
  revert hchanging
  unfold Database.continueRelease
  dsimp only
  generalize ((db.releaseEntries pin).foldl (Database.releaseEntry pin) db).cleanAll pin
    = cleaned at hspares
  have hscleaned : s ∈ cleaned.supersessions := hspares.supersessions ▸ hs
  split
  · rename_i hdrained
    intro hchanging
    refine Database.full_of_sameFor hfull hchanging (fun _ hp => hspares.headed.mp hp)
      (fun pin' hne => (hspares.sameFor hne).trans (sameFor_markReleased hne)) ?_
    intro hheaded _
    refine markReleased_paired (hspares.headed.mpr hheaded) (hspares.current ▸ hother) ?_
      ⟨s, hscleaned, hrev⟩ hdrained
    rw [hspares.supersessions]
    -- a retained or released row beside the pending one would deny the debt it owes
    obtain ⟨-, -, -, hpaired⟩ := hfull.2.1 pin (Database.mem_fullScope.mpr hheaded)
    have howed := hpaired s hs hrev
    rw [hstate] at howed
    intro t ht htrev
    have htpaired := hpaired t ht htrev
    cases htstate : t.state with
    | pending => rfl
    | retained | released => rw [htstate] at htpaired; exact absurd howed.1 htpaired.1
  · intro hchanging
    refine Database.full_of_sameFor hfull hchanging (fun _ hp => hspares.headed.mp hp)
      (fun pin' hne => hspares.sameFor hne) ?_
    intro _ hscope
    exact absurd (hrev ▸ Database.pending_mem_changingScope hscleaned hstate) hscope

/-- **The unit that begins a release** leaves its revision in scope. -/
theorem begun_full (hfull : db.PairedMetadata db.fullScope)
    (hdue : ∃ s ∈ db.supersessions, s.revision = pin ∧ s.state = .retained)
    (hchanging : (db.begun pin).PairedMetadata (db.begun pin).changingScope) :
    (db.begun pin).PairedMetadata (db.begun pin).fullScope := by
  refine Database.full_of_sameFor hfull hchanging (fun _ hp => hp)
    (fun pin' hne => sameFor_begun hne) ?_
  intro _ hscope
  obtain ⟨s, hs, hrev, hstate⟩ := hdue
  have hmem : { s with state := .pending } ∈ (db.begun pin).supersessions :=
    mem_setState.mpr (Or.inr ⟨hrev, rfl, hstate ▸ hs⟩)
  have hin : s.revision ∈ (db.begun pin).changingScope :=
    @Database.pending_mem_changingScope (db.begun pin) { s with state := .pending } hmem rfl
  rw [hrev] at hin
  exact absurd hin hscope

theorem yields_releaseUnit_full (hfull : db.PairedMetadata db.fullScope) (o : Outside)
    (head : IndexPin) (now : Int) :
    Yields (releaseUnit o head now pin) db
      (fun _ db' => db'.PairedMetadata db'.changingScope → db'.PairedMetadata db'.fullScope)
      fun _ _ => True :=
  yields_releaseUnit_of o head now
    (fun _ ⟨s, hs, hrev, hretained, _⟩ _ => begun_full hfull ⟨s, hs, hrev, hretained⟩)
    fun hother hstate => continueRelease_full hfull hstate hother

theorem Collected.full (h : Collected db db') (hfull : db.PairedMetadata db.fullScope) :
    db'.PairedMetadata db'.fullScope := by
  rw [h.rest]
  exact hfull

/-! ### One step of the store -/

namespace World

variable {w : World}

theorem full_underlying (hfull : db.PairedMetadata db.fullScope) {rebaseline : Bool}
    {generation : Nat} (h : Follows now (db.underlying rebaseline generation) db')
    (hchanging : db'.PairedMetadata db'.changingScope) : db'.PairedMetadata db'.fullScope := by
  refine h.full ?_ hchanging
  rcases underlying_cases db rebaseline generation with hbase | hbase
  · rw [hbase]; exact Or.inr hfull
  · rw [hbase]; exact Or.inl rfl

theorem full_publish (hfull : w.disk.PairedMetadata w.disk.fullScope) (t : Ticket) (o : Outside)
    (compatible : Bool) (incarnation : Incarnation) (generation : Nat) :
    let w' := w.publish digest t o compatible incarnation generation
    w'.disk.PairedMetadata w'.disk.fullScope := by
  -- the first revision of the generation has a header, so the head is past it
  have hpos : 0 < w.disk.current.indexRevision := by
    obtain ⟨r, hr, -⟩ := hfull.1.2.1
    rw [← hfull.1.1]
    exact List.length_pos_of_mem hr
  dsimp only
  unfold World.publish
  split
  · exact hfull
  · rename_i pin db hout
    show db.PairedMetadata db.fullScope
    unfold World.publication at hout
    cases hplan : t.plan with
    | full b | changed b prepared =>
        rw [hplan] at hout
        obtain ⟨-, ⟨-, -, -, -, -, hadvances⟩, -⟩ := immediate_ok hout
          (yields_publishBody digest o b t.expected t.admission _ _ w.disk)
        exact full_underlying hfull hadvances.follows hadvances.paired
    | unchanged c =>
        rw [hplan] at hout
        obtain ⟨-, ⟨hfollows, hchanging⟩, -⟩ := immediate_ok hout
          (follows_publishUnchangedBody o c t.expected t.admission _ _ hpos)
        exact hfollows.full (Or.inr hfull) hchanging

theorem full_recreate (hfull : w.disk.PairedMetadata w.disk.fullScope) (b : Bundle)
    (o : Outside) (incarnation : Incarnation) (generation : Nat) :
    let w' := w.recreate digest b o incarnation generation
    w'.disk.PairedMetadata w'.disk.fullScope := by
  dsimp only
  unfold World.recreate
  split
  · split
    · exact hfull
    · rename_i pin db hout
      obtain ⟨-, ⟨-, -, -, -, -, hadvances⟩, -⟩ := immediate_ok hout
        (yields_publishBody digest o b _ _ _ _ (.bootstrap generation))
      exact hadvances.follows.full (Or.inl rfl) hadvances.paired
  · exact hfull

theorem full_unit (hfull : w.disk.PairedMetadata w.disk.fullScope) (p : Probe) (o : Outside)
    (hchanging : (w.unit p o).disk.PairedMetadata (w.unit p o).disk.changingScope) :
    (w.unit p o).disk.PairedMetadata (w.unit p o).disk.fullScope := by
  revert hchanging
  unfold World.unit runUnit
  cases p.selected with
  | none => exact fun _ => hfull
  | some pin =>
      dsimp only
      by_cases hpermits : o.permits .unit = false
      · rw [if_pos hpermits]; exact fun _ => hfull
      · rw [if_neg hpermits]
        cases hout : immediate o (releaseUnit o p.head p.now pin) w.disk with
        | mk result db =>
            cases result with
            | ok u =>
                obtain ⟨-, hkept, -⟩ := immediate_ok hout
                  (yields_releaseUnit_full hfull o p.head p.now)
                exact hkept
            | error e =>
                cases e with
                | stopped point => cases point <;> exact fun _ => hfull
                | _ => exact fun _ => hfull

theorem full_collect (hfull : w.disk.PairedMetadata w.disk.fullScope) (o : Outside) :
    (w.collect o).disk.PairedMetadata (w.collect o).disk.fullScope := by
  unfold World.collect
  split
  · exact hfull
  · rename_i db hout
    obtain ⟨-, ⟨hcollected, -⟩, -⟩ := immediate_ok hout (yields_collectBody o w.disk)
    exact hcollected.full hfull

/-- **Checking what changes is enough.**  In whatever state the full check accepts, a step
of the store whose result the changing check accepts leads to one the full check accepts. -/
theorem changing_check_suffices (digest : Preimage → String) (w : World) (e : Event)
    (hfull : w.disk.PairedMetadata w.disk.fullScope)
    (hchanging : (w.perform digest e).disk.PairedMetadata
      (w.perform digest e).disk.changingScope) :
    (w.perform digest e).disk.PairedMetadata (w.perform digest e).disk.fullScope := by
  cases e with
  | tick | boot | classify => exact hfull
  | prepare plan expected =>
      have hdisk : (w.perform digest (.prepare plan expected)).disk = w.disk := by
        show (w.prepare digest plan expected).disk = _
        unfold World.prepare
        split <;> rfl
      rw [hdisk]
      exact hfull
  | publish t o compatible incarnation generation =>
      exact full_publish hfull t o compatible incarnation generation
  | probe =>
      have hdisk : (w.perform digest .probe).disk = w.disk := by
        show (if _ then _ else _ : World).disk = _
        split <;> rfl
      rw [hdisk]
      exact hfull
  | unit p o => exact full_unit hfull p o hchanging
  | collect o => exact full_collect hfull o
  | recreate b o incarnation generation => exact full_recreate hfull b o incarnation generation

theorem changing_check_suffices_sample :
    (Sample.admitted₂.perform Sample.digest (.publish Sample.ticket₂ .quiet true 1 9)
      ).disk.PairedMetadata
      (Sample.admitted₂.perform Sample.digest (.publish Sample.ticket₂ .quiet true 1 9)
        ).disk.fullScope :=
  changing_check_suffices Sample.digest Sample.admitted₂ (.publish Sample.ticket₂ .quiet true 1 9)
    (by decide +kernel) (by decide +kernel)

end World

/-! ### The full check, in any history -/

namespace Database

theorem Orderly.headersContiguous (h : db.Orderly) (hne : db.headers ≠ []) :
    db.HeadersContiguous := by
  obtain ⟨r, hr⟩ := List.exists_mem_of_ne_nil _ hne
  have hpos : 1 ≤ db.current.indexRevision := (h.generation r hr).2.1.trans (h.generation r hr).2.2
  have hperm : (db.headers.map RevisionHeader.pin).Perm
      ((List.range' 1 db.current.indexRevision).map (IndexPin.mk db.current.indexGeneration)) := by
    refine (List.perm_ext_iff_of_nodup h.headersKeyed ?_).mpr fun pin => ?_
    · exact (List.nodup_range' (s := 1)).map fun _ _ heq => (IndexPin.mk.inj heq).2
    · simp only [List.mem_map, List.mem_range'_1]
      constructor
      · rintro ⟨r, hr, rfl⟩
        obtain ⟨hgeneration, hfrom, hto⟩ := h.generation r hr
        exact ⟨r.pin.indexRevision, ⟨hfrom, by omega⟩, by rw [← hgeneration]⟩
      · rintro ⟨n, ⟨hfrom, hto⟩, rfl⟩
        exact h.headed n hfrom (by omega)
  refine ⟨?_, h.headed 1 le_rfl hpos, h.headed _ hpos le_rfl, h.generation⟩
  simpa using hperm.length_eq

theorem Orderly.markersMatch (h : db.Orderly) (hheaded : db.Headed pin) : db.MarkersMatch pin := by
  obtain ⟨-, -, hother, hstate⟩ :=
    (pairedRevision_iff h.supersessionsKeyed).mp (h.pairedRevision_of_headed hheaded)
  rw [markersMatch_iff h.supersessionsKeyed]
  intro i hi hrev
  have hinput : db.HasInput pin i.inputKey := ⟨i, hi, hrev, rfl⟩
  cases hfound : db.stateOf pin with
  | none =>
      -- only the head has no state, and it is not marked
      have hcur : pin = db.current := of_not_not fun hne => hother hne hfound
      have hclear := hcur ▸ h.unmarked
      exact ⟨fun hkey => absurd (.inr (hkey ▸ hinput)) hclear,
        fun hkey => absurd (.inl (hkey ▸ hinput)) hclear⟩
  | some state =>
      have hpaired := hstate state hfound
      simp only [Option.mem_some_iff, forall_eq']
      cases state with
      | retained =>
          exact ⟨fun hkey => absurd (.inr (hkey ▸ hinput)) hpaired.2.1,
            fun hkey => absurd (.inl (hkey ▸ hinput)) hpaired.2.1⟩
      | pending =>
          refine ⟨fun hkey => ⟨?_, rfl⟩, fun hkey => absurd (hkey ▸ hinput) hpaired.2.2.1⟩
          rw [h.inputsKeyed.eq_of_key hi hpaired.2.1 (Prod.ext hrev hkey)]
      | released =>
          have hmem := mem_inputsOf.mpr ⟨hi, hrev⟩
          rw [hpaired.2.1, List.mem_singleton] at hmem
          rw [hmem]
          have hne : releasedMarker ≠ pendingMarker := by decide
          exact ⟨fun hkey => absurd hkey hne, fun _ => ⟨rfl, rfl⟩⟩
/-- The header of the head and the metadata agree. -/
def Titled (db : Database) : Prop :=
  ∀ h ∈ db.headers, h.pin = db.current →
    h.graphStats = db.metadata.stats ∧ h.graphDiagnostics = db.metadata.diagnostics

end Database

namespace World

variable {P : Set Preimage} {w w' : World}

theorem titled_moves (h : w.disk.Titled) (hmove : Moves digest P w w') : w'.disk.Titled := by
  cases hmove with
  | rests w' hdisk => rw [hdisk]; exact h
  | lands ws base db expected generation hfresh hbase hexpected hl =>
      exact hl.advances.paired.2.2.2.2
  | serves p o pin db hp hselected hrun hs =>
      show db.Titled
      unfold Database.Titled Database.current
      rw [hs.headers, hs.metadata]
      exact h
  | collects db hc hfk =>
      show db.Titled
      rw [hc.rest]
      exact h

/-- **The startup check takes nothing the store wrote for damage**: in every world a history
leads to the full check passes once there is a revision, and its query finds none malformed. -/
theorem full_check_passes (h : Reached digest P w) (hpublished : w.disk.headers ≠ []) :
    w.disk.PairedMetadata w.disk.fullScope ∧
      ∀ pin, w.disk.Headed pin → ¬ w.disk.Malformed pin := by
  have hstep : ∀ u v, World.Step digest P u v → u.Kept digest P ∧ u.disk.Titled →
      v.Kept digest P ∧ v.disk.Titled :=
    fun u v huv hu => ⟨kept_step huv hu.1, titled_moves hu.2 (moves_of_step hu.1 huv)⟩
  have hstart : ∀ generation sample,
      (start generation sample).Kept digest P ∧ (start generation sample).disk.Titled :=
    fun generation sample => ⟨kept_start generation sample, by intro r hr; cases hr⟩
  obtain ⟨⟨-, horderly, -⟩, htitled⟩ := Runs.Reachable.keeps
    (by rintro _ ⟨generation, sample, rfl⟩; exact hstart generation sample) hstep h
  refine ⟨⟨horderly.headersContiguous hpublished, fun pin hpin => ?_, horderly.candidatesPending,
    fun pin hpin => ?_, htitled⟩, fun pin hpin => ?_⟩
  · exact horderly.pairedRevision_of_headed (Database.mem_fullScope.mp hpin)
  · exact horderly.markersMatch (Database.mem_fullScope.mp hpin)
  · exact (Database.sound_iff_not_malformed horderly.supersessionsKeyed).mp
      ⟨horderly.pairedRevision_of_headed hpin, horderly.markersMatch hpin⟩

/-- The older of two revisions is retained. -/
theorem full_check_passes_sample :
    Sample.published₂.disk.stateOf ⟨7, 1⟩ = some .retained ∧
      Sample.published₂.disk.Headed ⟨7, 1⟩ ∧
      Sample.published₂.disk.PairedMetadata Sample.published₂.disk.fullScope ∧
      ¬ Sample.published₂.disk.Malformed ⟨7, 1⟩ := by
  obtain ⟨hpaired, hsound⟩ := full_check_passes Sample.reached₂ (by decide +kernel)
  have hheaded : Sample.published₂.disk.Headed ⟨7, 1⟩ := by decide +kernel
  exact ⟨by decide +kernel, hheaded, hpaired, hsound _ hheaded⟩

end World

end Baleyg.Store
