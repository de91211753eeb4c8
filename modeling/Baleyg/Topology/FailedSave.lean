/-
A failed save keeps the records.

`acknowledged` is how "after the commit" is said: the outside in which no site past the
commit raises.  A save that raises past its commit is one that returns there, and leaves
what it leaves there (`run_acknowledged`).  So a failed save either has left the database
alone, or has saved its record and only could not say so, or has stopped between making
the database and committing to it; the last is the one case in which the next save does
not go through, and no save and no read ever takes such a store for a record.
-/
import Baleyg.Topology.Saving

namespace Baleyg.Topology

open Fallible (Yields ensure yields_bind yields_get yields_set yields_modify yields_pure
  yields_throw yields_ensure)
open DurableRecords

/-! ### What can be read -/

/-- A record that a read of healthy storage lists. -/
def Readable (identity : WorkspaceIdentity) (f : Files) (record : Record) : Prop :=
  ∀ o : Outside, o.Healthy → ∃ listed,
    records identity o record.table f = .ok listed f ∧ record ∈ listed

section Reading

variable {identity : WorkspaceIdentity} {o : Outside} {f t : Files} {content : Database}
  {table : RecordTable} {record : Record} {listed : List Record}

theorem effect_healthy (ho : o.Healthy) (site : Site) : effect o site = pure () := by
  unfold effect
  rw [ho.fails site]

theorem Files.Serves.present (h : f.Serves identity content) : Present f := by
  obtain ⟨dir, hdir, hfinished⟩ := h.record
  exact ⟨h.data, h.workspaces, dir, hdir, hfinished.secure⟩

theorem Files.Serves.file (h : f.Serves identity content) :
    f.file = some ⟨true, false, content⟩ := by
  obtain ⟨dir, hdir, hfinished⟩ := h.record
  unfold Files.file
  rw [hdir]
  exact hfinished.file

theorem Files.Serves.opens (h : f.Serves identity content) : Opens identity content := by
  obtain ⟨dir, -, hfinished⟩ := h.record
  exact hfinished.opens

theorem Files.Serves.unique {content' : Database} (h : f.Serves identity content)
    (h' : f.Serves identity content') : content = content' := by
  have hfile := h.file.symm.trans h'.file
  cases hfile
  rfl

/-- **A read that lists anything reads a store every open takes.** -/
theorem records_spec :
    Yields (records identity o table) f
      (fun listed t => t = f ∧ (listed = [] ∨
        ∃ content, f.Serves identity content ∧ listRows table (content.rows table) = .ok listed))
      fun _ t => t = f := by
  unfold records
  rw [yields_bind]
  refine existing_spec.mono (fun present t ht => ?_) fun _ _ h => h
  obtain ⟨rfl, hpresent, -⟩ := ht
  cases present with
  | false => exact ⟨rfl, .inl rfl⟩
  | true =>
      obtain ⟨hdata, hworkspaces, dir, hdir, hsecure⟩ := hpresent.mp rfl
      rw [if_neg (by simp), yields_bind]
      refine acquireExisting_spec.mono (fun _ u hu => ?_) fun _ _ h => h
      obtain ⟨rfl, hlock⟩ := hu
      rw [yields_bind]
      refine db_spec.mono (fun content v hv => ?_) fun _ _ h => h
      obtain ⟨rfl, hfile, hopens⟩ := hv
      refine yields_effect_bind ?_ fun _ => rfl
      refine yields_effect_bind ?_ fun _ => rfl
      refine yields_effect_bind ?_ fun _ => rfl
      rw [yields_lift]
      refine ⟨fun listed hlisted => ⟨rfl, .inr ⟨content, ?_, hlisted⟩⟩, fun _ _ => rfl⟩
      refine ⟨hdata, hworkspaces, hlock, dir, hdir, hsecure, ?_, hopens⟩
      unfold Files.file at hfile
      rw [hdir] at hfile
      exact hfile

/-! ### Healthy storage -/

theorem yields_healthy {site : Site} {Q : Unit → Files → Prop} {E : String → Files → Prop}
    (ho : o.Healthy) : Yields (effect o site) f Q E ↔ Q () f := by
  rw [effect_healthy ho, yields_pure]

theorem existing_returns (ho : o.Healthy) (h : Present f) :
    Yields (existing o) f (fun present t => present = true ∧ t = f) fun _ _ => False := by
  obtain ⟨hdata, hworkspaces, dir, hdir, hsecure⟩ := h
  unfold existing
  simp only [yields_bind, yields_healthy ho, yields_get, hdata, hworkspaces, hdir, hsecure,
    reduceCtorEq, if_false, yields_ensure, yields_pure, true_imp_iff, not_true_eq_false,
    false_imp_iff, and_true]

theorem acquireExisting_returns (ho : o.Healthy) (h : f.lock = .secure) :
    Yields (acquireExisting o) f (fun _ t => t = f) fun _ _ => False := by
  unfold acquireExisting
  simp only [yields_bind, yields_healthy ho, yields_get, h, ne_eq, reduceCtorEq,
    not_false_eq_true, yields_ensure, true_imp_iff, not_true_eq_false, false_imp_iff, and_true]

theorem db_returns (ho : o.Healthy) (hfile : f.file = some ⟨true, false, content⟩)
    (h : Opens identity content) :
    Yields (db identity o) f (fun base t => base = content ∧ t = f) fun _ _ => False := by
  unfold db
  simp only [yields_bind, yields_healthy ho, yields_get, hfile, h.journal, h.version, h.metadata,
    h.columns, yields_ensure, yields_pure, ne_eq, reduceCtorEq, not_false_eq_true, true_imp_iff,
    not_true_eq_false, false_imp_iff, and_true, one_ne_zero]

theorem records_returns (ho : o.Healthy) (h : f.Serves identity content)
    (hlisted : listRows table (content.rows table) = .ok listed) :
    records identity o table f = .ok listed f := by
  suffices hrun : Yields (records identity o table) f (fun found t => found = listed ∧ t = f)
      fun _ _ => False by
    obtain ⟨_, _, hreturns, rfl, rfl⟩ := hrun.exists_ok
    exact hreturns
  unfold records
  rw [yields_bind]
  refine (existing_returns ho h.present).mono (fun present t ht => ?_) fun _ _ h => h
  obtain ⟨rfl, rfl⟩ := ht
  rw [if_neg (by simp), yields_bind]
  refine (acquireExisting_returns ho h.lock).mono (fun _ u hu => ?_) fun _ _ h => h
  subst hu
  rw [yields_bind]
  refine (db_returns ho h.file h.opens).mono (fun base u hu => ?_) fun _ _ h => h
  obtain ⟨rfl, rfl⟩ := hu
  simp only [yields_bind, yields_healthy ho, yields_lift, hlisted]
  refine ⟨fun found hfound => ?_, fun _ herror => ?_⟩
  · cases hfound; exact ⟨rfl, trivial⟩
  · cases herror

/-- **What is readable**: a record among those of a store every open takes, in a table all
of which reads back. -/
theorem readable_iff :
    Readable identity f record
      ↔ ∃ content listed, f.Serves identity content ∧
          listRows record.table (content.rows record.table) = .ok listed ∧ record ∈ listed := by
  constructor
  · intro h
    let o : Outside := ⟨fun _ => none, false, id, fun _ => .error "", ⟨"", 0⟩⟩
    obtain ⟨listed, hrun, hmem⟩ := h o ⟨fun _ => rfl, fun _ => rfl⟩
    obtain ⟨-, rfl | ⟨content, hserves, hlisted⟩⟩ :=
      (records_spec : Yields (records identity o record.table) f _ _).of_ok hrun
    · exact absurd hmem List.not_mem_nil
    · exact ⟨content, listed, hserves, hlisted, hmem⟩
  · rintro ⟨content, listed, hserves, hlisted, hmem⟩ o ho
    exact ⟨listed, records_returns ho hserves hlisted, hmem⟩

end Reading

/-! ### After the commit -/

section Committed

variable {identity : WorkspaceIdentity} {base : Database} {merged record item : Record}
  {table : RecordTable} {found t : Files} {content : Database} {preserveTitle : Bool}
  {capture : Record → Except String (Option RawAnchor)}

theorem rows_committed_same :
    (committed identity base merged).rows merged.table
      = writeItem (base.rows merged.table) merged := by
  unfold committed Database.writeItem Database.writeRoot
  cases merged.table <;> rfl

theorem rows_committed_other (h : table ≠ merged.table) :
    (committed identity base merged).rows table = base.rows table := by
  unfold committed Database.writeItem Database.writeRoot
  cases table <;> cases htable : merged.table <;>
    first
      | rfl
      | exact absurd htable.symm h

theorem opens_committed (h : Opens identity base) :
    Opens identity (committed identity base merged) := by
  unfold committed Database.writeItem Database.writeRoot
  cases merged.table <;> exact ⟨h.journal, h.version, h.metadata, h.columns⟩

theorem opens_created : Opens identity (.created identity) := ⟨rfl, rfl, rfl, rfl⟩

/-- **A committed save leaves a store every open takes**, with its record written. -/
theorem DurableRecords.Commits.serves (hready : found.Ready identity)
    (h : Commits identity item preserveTitle capture found merged t) :
    ∃ base, (found.Fresh ∧ base = .created identity ∨ found.Serves identity base) ∧
      mergeItem (base.rows item.table) item preserveTitle capture = .ok merged ∧
        t.Serves identity (committed identity base merged) := by
  obtain ⟨u, base, hopened, hmerged, rfl⟩ := h
  rcases hopened.base with ⟨hrecord, hfile, hopens⟩ | ⟨hnone, rfl, hrecord⟩
  · rcases hready with hfresh | ⟨content, hserves⟩
    · unfold Files.file at hfile
      rw [hrecord, hfresh.record] at hfile
      cases hfile
    · obtain ⟨dir, hdir, hfinished⟩ := hserves.record
      have hu : u.record = some dir := hrecord.trans hdir
      unfold Files.file at hfile
      rw [hu] at hfile
      have hcontent : content = base := by
        have hboth := hfinished.file.symm.trans hfile
        cases hboth
        rfl
      subst hcontent
      refine ⟨content, .inr hserves, hmerged, hopened.data, hopened.workspaces, hopened.lock, ?_⟩
      refine ⟨{ dir with file := some ⟨true, false, committed identity content merged⟩ }, ?_,
        hfinished.secure, rfl, opens_committed hopens⟩
      show u.record.map _ = _
      rw [hu, Option.map_some]
      show some _ = some _
      rw [hfinished.file]
      rfl
  · refine ⟨.created identity, .inl ⟨?_, rfl⟩, hmerged, hopened.data, hopened.workspaces,
      hopened.lock, ⟨true, some ⟨true, false, committed identity (.created identity) merged⟩⟩, ?_,
      rfl, rfl, opens_committed opens_created⟩
    · rcases hready with hfresh | ⟨content, hserves⟩
      · exact hfresh
      · obtain ⟨dir, hdir, -⟩ := hserves.record
        rw [hnone] at hdir
        cases hdir
    · show u.record.map _ = _
      rw [hrecord]
      rfl

/-- **What a committed save leaves readable**: every record but the one it replaced, and
the one it wrote, where its table was readable. -/
theorem DurableRecords.Commits.readable (h : Commits identity item preserveTitle capture found merged t)
    (hread : Readable identity found record) :
    (record.table ≠ merged.table ∨ record.id ≠ merged.id → Readable identity t record) ∧
      (record.table = merged.table → Readable identity t merged) := by
  obtain ⟨content, listed, hserves, hlisted, hmem⟩ := readable_iff.mp hread
  obtain ⟨base, hbase, hmerged, hserves'⟩ := h.serves (.inr ⟨content, hserves⟩)
  have hcontent : base = content := by
    rcases hbase with ⟨hfresh, -⟩ | hbase
    · obtain ⟨dir, hdir, -⟩ := hserves.record
      rw [hfresh.record] at hdir
      cases hdir
    · exact hbase.unique hserves
  subst hcontent
  obtain ⟨hvalid, -, -⟩ := mergeItem_spec hmerged
  by_cases htable : record.table = merged.table
  · rw [htable] at hlisted
    obtain ⟨listed', hlisted'⟩ := listRows_writeItem ⟨listed, hlisted⟩ hvalid
    refine ⟨fun hne => readable_iff.mpr ⟨_, listed', hserves', ?_, ?_⟩,
      fun _ => readable_iff.mpr ⟨_, listed', hserves', ?_, ?_⟩⟩
    · rw [htable, rows_committed_same]; exact hlisted'
    · obtain ⟨row, hrow, hrecord⟩ := (mem_listRows hlisted).mp hmem
      refine (mem_listRows hlisted').mpr ⟨row, mem_writeItem.mpr (.inr ⟨hrow, ?_⟩), hrecord⟩
      rcases hne with hne | hne
      · exact absurd htable hne
      · rw [← id_of_record hrecord]; exact hne
    · rw [rows_committed_same]; exact hlisted'
    · exact (mem_listRows hlisted').mpr ⟨merged.row, mem_writeItem.mpr (.inl rfl),
        record_row hvalid⟩
  · refine ⟨fun _ => readable_iff.mpr ⟨_, listed, hserves', ?_, hmem⟩,
      fun hsame => absurd hsame htable⟩
    rw [rows_committed_other htable]
    exact hlisted

end Committed

/-! ### Past the commit -/

/-- Nothing fails once the save is committed. -/
def Outside.acknowledged (o : Outside) : Outside :=
  { o with
    fails := fun site =>
      if site = .sync ∨ site = .resolve ∨ site = .finish then none else o.fails site }

/-- `x` does what `y` does, but may raise where `y` returns. -/
def Past {α : Type} (x y : Save α) : Prop :=
  ∀ f, x f = y f ∨ ∃ a error t, y f = .ok a t ∧ x f = .error error t

section Past

variable {α β : Type} {o : Outside} {site : Site} {f : Files}

theorem Past.refl (x : Save α) : Past x x := fun _ => .inl rfl

theorem Past.bind (x : Save β) {k k' : β → Save α} (h : ∀ b, Past (k b) (k' b)) :
    Past (x >>= k) (x >>= k') := by
  intro f
  have hrun : ∀ k : β → Save α, (x >>= k) f = EStateM.bind x k f := fun _ => rfl
  rw [hrun k, hrun k']
  unfold EStateM.bind
  cases x f with
  | error error t => exact .inl rfl
  | ok b t => exact h b t

theorem Past.then {x y : Save α} (h : Past x y) {k k' : α → Save α}
    (hk : ∀ a f, k a f = .ok a f ∨ ∃ error, k a f = .error error f)
    (hk' : ∀ a, k' a = pure a) : Past (x >>= k) (y >>= k') := by
  intro f
  have hy : ∀ a t, y f = .ok a t → (y >>= k') f = .ok a t := by
    intro a t hok
    show EStateM.bind y k' f = _
    unfold EStateM.bind
    rw [hok]
    show k' a t = _
    rw [hk' a]
    rfl
  rcases h f with heq | ⟨a, error, t, hok, herror⟩
  · cases hx : y f with
    | error error t =>
        left
        show EStateM.bind x k f = EStateM.bind y k' f
        unfold EStateM.bind
        rw [heq, hx]
    | ok a t =>
        have hbind : (x >>= k) f = k a t := by
          show EStateM.bind x k f = _
          unfold EStateM.bind
          rw [heq, hx]
        rcases hk a t with hret | ⟨error, hraise⟩
        · exact .inl (hbind.trans (hret.trans (hy a t hx).symm))
        · exact .inr ⟨a, error, t, hy a t hx, hbind.trans hraise⟩
  · refine .inr ⟨a, error, t, hy a t hok, ?_⟩
    show EStateM.bind x k f = _
    unfold EStateM.bind
    rw [herror]

theorem effect_then {a : α} {x : Save α}
    (h : ∀ f, x f = .ok a f ∨ ∃ error, x f = .error error f) (f : Files) :
    (effect o site >>= fun _ => x) f = .ok a f
      ∨ ∃ error, (effect o site >>= fun _ => x) f = .error error f := by
  show EStateM.bind (effect o site) (fun _ => x) f = _
    ∨ ∃ error, EStateM.bind (effect o site) (fun _ => x) f = _
  unfold EStateM.bind effect
  cases o.fails site with
  | none => exact h f
  | some error => exact .inr ⟨error, rfl⟩

variable {identity : WorkspaceIdentity} {item : Record} {preserveTitle : Bool}
  {capture : Record → Except String (Option RawAnchor)}

theorem saveFirst_acknowledged :
    Past (saveFirst identity o item preserveTitle capture)
      (saveFirst identity o.acknowledged item preserveTitle capture) := by
  refine .bind _ fun _ => .bind _ fun _ => .bind _ fun _ => .bind _ fun _ => .bind _ fun _ =>
    .bind _ fun _ => .bind _ fun _ => ?_
  exact Past.then (.refl _) (fun merged => effect_then fun _ => .inl rfl) fun merged => rfl

theorem saveItem_acknowledged :
    Past (saveItem identity o item preserveTitle capture)
      (saveItem identity o.acknowledged item preserveTitle capture) := by
  refine .bind _ fun present => ?_
  by_cases hpresent : present = false
  · rw [if_pos hpresent, if_pos hpresent]
    refine .bind _ fun _ => .bind _ fun _ => .bind _ fun _ => .bind _ fun _ => .bind _ fun g => ?_
    by_cases hsome : g.record.isSome = true
    · rw [if_pos hsome, if_pos hsome]; exact .refl _
    · rw [if_neg hsome, if_neg hsome]; exact saveFirst_acknowledged
  · rw [if_neg hpresent, if_neg hpresent]; exact .refl _

theorem atHead_acknowledged {pin : IndexPin} {save save' : Save Record} (h : Past save save') :
    Past (SaveCall.atHead o pin save) (SaveCall.atHead o.acknowledged pin save') := by
  refine .bind _ fun _ => .bind _ fun _ => .bind _ fun _ => ?_
  exact h.then (fun record => effect_then (effect_then fun _ => .inl rfl)) fun record => rfl

/-- **A save that raises past its commit is one that returns there.** -/
theorem run_acknowledged (call : SaveCall) :
    Past (call.run identity o) (call.run identity o.acknowledged) := by
  cases call with
  | putRecord | putAnnotation => exact .bind _ fun _ => saveItem_acknowledged
  | putView view => exact .bind _ fun _ => .bind _ fun _ => saveItem_acknowledged
  | saveViewAt | saveAnnotationAt =>
      exact .bind _ fun _ => atHead_acknowledged (.bind _ fun _ => saveItem_acknowledged)

end Past

/-! ### The save inside a call -/

namespace SaveCall

def item : SaveCall → Record
  | putRecord record _ => record
  | putView view => .view { view with anchor := none }
  | putAnnotation annotation => Record.annotation { annotation with title := none, anchor := none }
  | saveViewAt _ view => .view { view with anchor := none }
  | saveAnnotationAt _ request => request.record.withAnchor none

/-- Whether an edit that names no title keeps the stored one. -/
def preserves : SaveCall → Bool
  | putRecord _ preserveTitle => preserveTitle
  | putAnnotation _ => true
  | saveAnnotationAt _ request => decide (request.title = none)
  | _ => false

/-- How a call anchors a new record: only a save of the store captures. -/
def capture (o : Outside) : SaveCall → Record → Except String (Option RawAnchor)
  | saveViewAt _ _ | saveAnnotationAt _ _ => fun record => some <$> o.capture record
  | _ => fun _ => .ok none

end SaveCall

section Calls

variable {identity : WorkspaceIdentity} {o : Outside} {f : Files} {call : SaveCall}
  {Q : Record → Files → Prop} {E : String → Files → Prop}

theorem atHead_of_save {pin : IndexPin} {save : Save Record} (hraise : ∀ error, E error f)
    (hlate : ∀ merged t, Q merged t →
      Yields (effect o .resolve >>= fun _ => effect o .finish >>= fun _ => pure merged) t Q E)
    (hsave : Yields save f Q E) : Yields (SaveCall.atHead o pin save) f Q E := by
  unfold SaveCall.atHead
  rw [yields_bind]
  refine yields_effect ?_ hraise
  rw [yields_bind]
  refine yields_effect ?_ hraise
  rw [yields_bind, yields_ensure]
  refine ⟨fun _ => ?_, fun _ => hraise _⟩
  rw [yields_bind]
  exact hsave.mono hlate fun _ _ h => h

/-- **What a call does is what its save does**: the checks around it touch no file. -/
theorem run_of_saveItem (hraise : ∀ error, E error f)
    (hlate : ∀ merged t, Q merged t →
      Yields (effect o .resolve >>= fun _ => effect o .finish >>= fun _ => pure merged) t Q E)
    (hsave : Yields (saveItem identity o call.item call.preserves (call.capture o)) f Q E) :
    Yields (call.run identity o) f Q E := by
  have hchecked : ∀ (check : Except String Unit) (save : Save Record), Yields save f Q E →
      Yields (lift check >>= fun _ => save) f Q E := by
    intro check save hsave
    rw [yields_bind, yields_lift]
    exact ⟨fun _ _ => hsave, fun error _ => hraise error⟩
  cases call with
  | putRecord | putAnnotation => exact hchecked _ _ hsave
  | putView view => exact hchecked _ _ (hchecked _ _ hsave)
  | saveViewAt | saveAnnotationAt =>
      exact hchecked _ _ (atHead_of_save hraise hlate (hchecked _ _ hsave))

end Calls

/-! ### What a call leaves -/

section Run

variable {identity : WorkspaceIdentity} {o : Outside} {f t : Files} {record : Record}

/-- The files after a save that returned. -/
def Returned (identity : WorkspaceIdentity) (o : Outside) (f : Files) (merged : Record)
    (t : Files) : Prop :=
  ∃ found item preserveTitle capture, StartsFrom o f found ∧ (Present f → found = f) ∧
    Commits identity item preserveTitle capture found merged t

/-- The files after a save that raised before its commit. -/
def Stopped (o : Outside) (f t : Files) : Prop :=
  ∃ found, StartsFrom o f found ∧ (Present f → found = f) ∧ StopsAt o found t

theorem Stopped.start (o : Outside) (f : Files) : Stopped o f f :=
  ⟨f, .inl rfl, fun _ => rfl, .inl (.refl f)⟩

/-- No site past the commit raises. -/
structure Outside.Settled (o : Outside) : Prop where
  sync : o.fails .sync = none
  resolve : o.fails .resolve = none
  finish : o.fails .finish = none

theorem Outside.acknowledged_settled (o : Outside) : o.acknowledged.Settled :=
  ⟨rfl, rfl, rfl⟩

/-- **What a call leaves**, when nothing past its commit raises. -/
theorem run_spec (h : o.Settled) (call : SaveCall) :
    Yields (call.run identity o) f (Returned identity o f) fun _ t => Stopped o f t := by
  have hresolve : effect o .resolve = pure () := by
    unfold effect
    rw [h.resolve]
  have hfinish : effect o .finish = pure () := by
    unfold effect
    rw [h.finish]
  refine run_of_saveItem (fun _ => .start o f) (fun merged t ht => ?_) ?_
  · rw [yields_bind, hresolve, yields_pure, yields_bind, hfinish, yields_pure, yields_pure]
    exact ht
  · refine (saveItem_spec h.sync).mono (fun merged t ht => ?_) fun _ _ hstopped => hstopped
    obtain ⟨found, hstart, hpresent, hcommits⟩ := ht
    exact ⟨found, _, _, _, hstart, hpresent, hcommits⟩

end Run

/-! ### A store no open takes -/

section Refused

variable {identity : WorkspaceIdentity} {o : Outside} {f : Files}

theorem db_refused (h : f.Incomplete) :
    Yields (db identity o) f (fun _ _ => False) fun _ t => t = f := by
  refine db_spec.mono (fun content t ht => ?_) fun _ _ h => h
  obtain ⟨-, hfile, hopens⟩ := ht
  obtain ⟨dir, hdir, hbroken⟩ := h.record
  unfold Files.file at hfile
  rw [hdir] at hfile
  rcases hbroken _ hfile with hside | hversion
  · cases hside
  · rw [hopens.version] at hversion; omega

/-- `existing` finds the directory of an incomplete record, or raises. -/
theorem existing_incomplete (h : f.Incomplete) :
    Yields (existing o) f (fun present t => present = true ∧ t = f) fun _ t => t = f := by
  refine existing_spec.mono (fun present t ht => ?_) fun _ _ h => h
  obtain ⟨rfl, -, habsent⟩ := ht
  refine ⟨?_, rfl⟩
  by_contra hfalse
  obtain ⟨dir, hdir, -⟩ := h.record
  rcases habsent (Bool.eq_false_iff.mpr hfalse) with hdata | hworkspaces | hnone
  · rw [h.data] at hdata; cases hdata
  · rw [h.workspaces] at hworkspaces; cases hworkspaces
  · rw [hdir] at hnone; cases hnone

theorem saveItem_refused (h : f.Incomplete) {item : Record} {preserveTitle : Bool}
    {capture : Record → Except String (Option RawAnchor)} :
    Yields (saveItem identity o item preserveTitle capture) f (fun _ _ => False)
      fun _ t => t = f := by
  unfold saveItem
  rw [yields_bind]
  refine (existing_incomplete h).mono (fun present t ht => ?_) fun _ _ h => h
  obtain ⟨rfl, rfl⟩ := ht
  rw [if_neg (by simp)]
  unfold saveExisting
  rw [yields_bind]
  refine acquireExisting_spec.mono (fun _ u hu => ?_) fun _ _ h => h
  obtain ⟨rfl, -⟩ := hu
  rw [yields_bind]
  exact (db_refused h).mono (fun _ _ h => h.elim) fun _ _ h => h

/-- **An incomplete record is never saved to**, nor touched. -/
theorem run_refused (h : f.Incomplete) (call : SaveCall) :
    Yields (call.run identity o) f (fun _ _ => False) fun _ t => t = f :=
  run_of_saveItem (fun _ => rfl) (fun _ _ h => h.elim) (saveItem_refused h)

end Refused

/-! ### The next save -/

/-- The stored rows a save of this table meets. -/
def Files.rows (f : Files) (table : RecordTable) : List Row :=
  match f.file with
  | some file => file.content.rows table
  | none => []

/-- A request the checks before the save let pass, for the revision the index serves. -/
def SaveCall.Admitted (o : Outside) : SaveCall → Prop
  | putRecord record _ => record.validate = .ok ()
  | putView view => view.validateBase = .ok ()
  | putAnnotation annotation => annotation.validateBase = .ok ()
  | saveViewAt pin view => view.validateBase = .ok () ∧ o.head = pin
  | saveAnnotationAt pin request => request.validate = .ok () ∧ o.head = pin

structure SaveCall.Valid (call : SaveCall) (o : Outside) (f : Files) : Prop where
  admitted : call.Admitted o
  acceptable : Acceptable (f.rows call.item.table) call.item (call.capture o)

section Next

variable {identity : WorkspaceIdentity} {o : Outside} {f : Files} {item : Record}
  {preserveTitle : Bool} {capture : Record → Except String (Option RawAnchor)}
  {base : Database}

theorem store_returns (ho : o.Healthy) (h : Acceptable (base.rows item.table) item capture) :
    Yields (store identity o base item preserveTitle capture) f (fun _ _ => True)
      fun _ _ => False := by
  obtain ⟨merged, hmerged⟩ : ∃ merged, mergeItem (base.rows item.table) item preserveTitle capture
      = .ok merged := mergeItem_returns h
  unfold store
  rw [yields_bind, yields_lift, hmerged]
  refine ⟨fun _ _ => ?_, fun _ herror => by cases herror⟩
  simp only [yields_bind, yields_healthy ho, yields_modify, yields_pure]

theorem saveExisting_returns (ho : o.Healthy) (hlock : f.lock = .secure)
    (hfile : f.file = some ⟨true, false, base⟩) (hopens : Opens identity base)
    (h : Acceptable (base.rows item.table) item capture) :
    Yields (saveExisting identity o item preserveTitle capture) f (fun _ _ => True)
      fun _ _ => False := by
  unfold saveExisting
  rw [yields_bind]
  refine (acquireExisting_returns ho hlock).mono (fun _ t ht => ?_) fun _ _ h => h
  subst ht
  rw [yields_bind]
  refine (db_returns ho hfile hopens).mono (fun content t ht => ?_) fun _ _ h => h
  obtain ⟨rfl, rfl⟩ := ht
  rw [yields_bind, yields_healthy ho, yields_transaction]
  exact store_returns ho h

theorem rows_created (table : RecordTable) : (Database.created identity).rows table = [] := by
  cases table <;> rfl

theorem saveFirst_returns (ho : o.Healthy) (h : Acceptable [] item capture) :
    Yields (saveFirst identity o item preserveTitle capture) f (fun _ _ => True)
      fun _ _ => False := by
  unfold saveFirst
  simp only [yields_bind, yields_healthy ho, yields_modify, yields_transaction]
  refine (store_returns ho ?_).mono (fun merged t _ => ?_) fun _ _ h => h
  · rw [rows_created]; exact h
  · exact yields_pure.mpr trivial

/-- `existing` finds nothing in a fresh store. -/
theorem existing_fresh (ho : o.Healthy) (h : f.Fresh) :
    Yields (existing o) f (fun present t => present = false ∧ t = f) fun _ _ => False := by
  unfold existing
  simp only [yields_bind, yields_healthy ho, yields_get]
  by_cases hdata : f.data = .missing
  · rw [if_pos hdata, yields_pure]; exact ⟨rfl, rfl⟩
  rw [if_neg hdata, yields_bind, yields_ensure]
  refine ⟨fun _ => ?_, fun hinsecure => ?_⟩
  · by_cases hworkspaces : f.workspaces = .missing
    · rw [if_pos hworkspaces, yields_pure]; exact ⟨rfl, rfl⟩
    rw [if_neg hworkspaces, yields_bind, yields_ensure]
    refine ⟨fun _ => ?_, fun hinsecure => ?_⟩
    · rw [h.record]; exact ⟨rfl, rfl⟩
    · cases hentry : f.workspaces with
      | missing => exact hworkspaces hentry
      | secure => exact hinsecure hentry
      | insecure => exact h.workspaces hentry
  · cases hentry : f.data with
    | missing => exact hdata hentry
    | secure => exact hinsecure hentry
    | insecure => exact h.data hentry

theorem prepareRecords_returns (ho : o.Healthy) (n : Nat) (h : f.Fresh) :
    Yields (prepareRecords o n) f (fun _ t => t.Fresh) fun _ _ => False := by
  unfold prepareRecords
  simp only [yields_bind, yields_healthy ho, yields_get, yields_set, yields_ensure]
  refine ⟨fun _ => ⟨fun _ => ?_, fun hinsecure => hinsecure h.workspaces⟩,
    fun hinsecure => hinsecure h.data⟩
  exact ⟨Entry.noConfusion, Entry.noConfusion, h.lock, h.record⟩

theorem acquire_returns (ho : o.Healthy) (h : f.Fresh) :
    Yields (acquire o) f (fun _ t => t.Fresh) fun _ _ => False := by
  unfold acquire
  simp only [yields_bind, yields_healthy ho, yields_get, yields_set, yields_ensure]
  refine ⟨fun _ => ?_, fun hinsecure => hinsecure h.lock⟩
  exact ⟨h.data, h.workspaces, Entry.noConfusion, h.record⟩

theorem rows_of_serves (h : f.Serves identity base) (table : RecordTable) :
    f.rows table = base.rows table := by
  unfold Files.rows
  rw [h.file]

theorem rows_of_fresh (h : f.Fresh) (table : RecordTable) : f.rows table = [] := by
  unfold Files.rows Files.file
  rw [h.record]
  rfl

theorem saveItem_returns (ho : o.Healthy) (hready : f.Ready identity)
    (h : Acceptable (f.rows item.table) item capture) :
    Yields (saveItem identity o item preserveTitle capture) f (fun _ _ => True)
      fun _ _ => False := by
  unfold saveItem
  rw [yields_bind]
  rcases hready with hfresh | ⟨content, hserves⟩
  · rw [rows_of_fresh hfresh] at h
    refine (existing_fresh ho hfresh).mono (fun present t ht => ?_) fun _ _ h => h
    obtain ⟨rfl, rfl⟩ := ht
    rw [if_pos rfl, yields_bind, yields_modify, ho.meanwhile, yields_bind]
    refine (prepareRecords_returns ho 0 hfresh).mono (fun _ u hu => ?_) fun _ _ h => h
    unfold recordUse
    rw [yields_bind, yields_bind]
    refine (prepareRecords_returns ho 1 hu).mono (fun _ u hu => ?_) fun _ _ h => h
    refine (acquire_returns ho hu).mono (fun _ u hu => ?_) fun _ _ h => h
    rw [yields_bind, yields_healthy ho, yields_bind, yields_get, if_neg (by simp [hu.record])]
    exact saveFirst_returns ho h
  · rw [rows_of_serves hserves] at h
    refine (existing_returns ho hserves.present).mono (fun present t ht => ?_) fun _ _ h => h
    obtain ⟨rfl, rfl⟩ := ht
    rw [if_neg (by simp)]
    exact saveExisting_returns ho hserves.lock hserves.file hserves.opens h

/-- **A save with valid input and healthy storage goes through**, from any store that is
finished or not begun. -/
theorem run_returns (ho : o.Healthy) (hready : f.Ready identity) {call : SaveCall}
    (h : call.Valid o f) : ∃ merged t, call.run identity o f = .ok merged t := by
  have hsave : Yields (saveItem identity o call.item call.preserves (call.capture o)) f
      (fun _ _ => True) fun _ _ => False := saveItem_returns ho hready h.acceptable
  have hchecked : ∀ (check : Except String Unit) (save : Save Record), check = .ok () →
      Yields save f (fun _ _ => True) (fun _ _ => False) →
        Yields (lift check >>= fun _ => save) f (fun _ _ => True) fun _ _ => False := by
    intro check save hcheck hsave
    rw [hcheck]
    exact hsave
  have hathead : ∀ (pin : IndexPin) (save : Save Record), o.head = pin →
      Yields save f (fun _ _ => True) (fun _ _ => False) →
        Yields (SaveCall.atHead o pin save) f (fun _ _ => True) fun _ _ => False := by
    intro pin save hpin hsave
    unfold SaveCall.atHead
    simp only [yields_bind, yields_healthy ho, yields_ensure, yields_pure]
    exact ⟨fun _ => hsave, fun hne => hne hpin⟩
  have hvalid := h.acceptable.valid
  have hadmitted := h.admitted
  have hrun : Yields (call.run identity o) f (fun _ _ => True) fun _ _ => False := by
    cases call with
    | putRecord | putAnnotation => exact hchecked _ _ hadmitted hsave
    | putView view => exact hchecked _ _ hadmitted (hchecked _ _ hvalid hsave)
    | saveViewAt | saveAnnotationAt =>
        exact hchecked _ _ hadmitted.1 (hathead _ _ hadmitted.2 (hchecked _ _ hvalid hsave))
  obtain ⟨merged, t, hok, -⟩ := hrun.exists_ok
  exact ⟨merged, t, hok⟩

end Next

/-! ### A failed save -/

section Failed

variable {identity : WorkspaceIdentity} {o : Outside} {f t : Files}

theorem Files.Fresh.complete (h : f.Fresh) : ¬ f.Incomplete := by
  intro hinc
  obtain ⟨dir, hdir, -⟩ := hinc.record
  rw [h.record] at hdir
  cases hdir

theorem Files.Ready.complete (h : f.Ready identity) : ¬ f.Incomplete := by
  rcases h with hfresh | ⟨content, hserves⟩
  · exact hfresh.complete
  · exact hserves.complete

theorem DurableRecords.StartsFrom.ready {found : Files} (h : StartsFrom o f found) (hf : f.Ready identity)
    (hmeanwhile : (o.meanwhile f).Ready identity) : found.Ready identity := by
  rcases h with rfl | ⟨-, rfl⟩
  · exact hf
  · exact hmeanwhile

/-- **A failed save keeps the records.**  Whatever it stopped at, each record that could be
read can be read unless the save, having committed, replaced it; and the next save goes
through.  Only a first save past the making of its directory, and a transaction SQLite could
not take back, leave a store that no save and no read takes. -/
theorem failed_save_keeps_records (identity : WorkspaceIdentity) (o : Outside) (call : SaveCall)
    (f t : Files) (error : String) (h : call.run identity o f = .error error t) :
    (¬ t.Incomplete → ∀ record, Readable identity f record → Readable identity t record ∨
      ∃ merged, call.run identity o.acknowledged f = .ok merged t ∧
        merged.table = record.table ∧ merged.id = record.id ∧ Readable identity t merged) ∧
    (f.Ready identity → (o.meanwhile f).Ready identity → ¬ t.Incomplete →
      ∀ (o' : Outside) (next : SaveCall), o'.Healthy → next.Valid o' t →
        ∃ merged t', next.run identity o' t = .ok merged t') ∧
    (f.Ready identity → (o.meanwhile f).Ready identity → t.Incomplete →
      f.Fresh ∨ o.strands = true) ∧
    (t.Incomplete → ∀ (o' : Outside) (next : SaveCall),
      ∃ error', next.run identity o' t = .error error' t) := by
  have hspec : Yields (call.run identity o.acknowledged) f _ _ :=
    run_spec o.acknowledged_settled call
  have houtcome : (∃ merged, call.run identity o.acknowledged f = .ok merged t ∧
      Returned identity o.acknowledged f merged t) ∨ Stopped o.acknowledged f t := by
    have hpasts : Past (call.run identity o) (call.run identity o.acknowledged) :=
      run_acknowledged call
    rcases hpasts f with heq | hpast
    · exact .inr (hspec.of_error (heq.symm.trans h))
    · obtain ⟨merged, raised, u, hok, hraised⟩ := hpast
      rw [h] at hraised
      cases hraised
      exact .inl ⟨merged, hok, hspec.of_ok hok⟩
  refine ⟨fun hcomplete record hread => ?_, fun hf hmeanwhile hcomplete o' next ho' hvalid => ?_,
    fun hf hmeanwhile hinc => ?_, fun hinc o' next => ?_⟩
  · obtain ⟨content, -, hserves, -, -⟩ := readable_iff.mp hread
    rcases houtcome with ⟨merged, hok, found, item, preserveTitle, capture, -, hsame, hcommits⟩ |
      ⟨found, -, hsame, hstops⟩
    · have hfound := hsame hserves.present
      subst hfound
      obtain ⟨hothers, hown⟩ := hcommits.readable hread
      by_cases htable : record.table = merged.table
      · by_cases hid : record.id = merged.id
        · exact .inr ⟨merged, hok, htable.symm, hid.symm, hown htable⟩
        · exact .inl (hothers (.inr hid))
      · exact .inl (hothers (.inl htable))
    · have hfound := hsame hserves.present
      subst hfound
      rcases hstops with hprepared | ⟨hinc, -⟩
      · obtain ⟨content, listed, hserves, hlisted, hmem⟩ := readable_iff.mp hread
        exact .inl (readable_iff.mpr ⟨content, listed, hprepared.serves hserves, hlisted, hmem⟩)
      · exact absurd hinc hcomplete
  · refine run_returns ho' ?_ hvalid
    rcases houtcome with ⟨merged, -, found, item, preserveTitle, capture, hstart, -, hcommits⟩ |
      ⟨found, hstart, -, hstops⟩
    · obtain ⟨base, -, -, hserves⟩ := hcommits.serves (hstart.ready hf hmeanwhile)
      exact .inr ⟨_, hserves⟩
    · rcases hstops with hprepared | ⟨hinc, -⟩
      · exact hprepared.ready (hstart.ready hf hmeanwhile)
      · exact absurd hinc hcomplete
  · rcases houtcome with ⟨merged, -, found, item, preserveTitle, capture, hstart, -, hcommits⟩ |
      ⟨found, hstart, -, hstops⟩
    · obtain ⟨base, -, -, hserves⟩ := hcommits.serves (hstart.ready hf hmeanwhile)
      exact absurd hinc hserves.complete
    · rcases hstops with hprepared | ⟨-, hnone | hstrands⟩
      · exact absurd hinc (hprepared.ready (hstart.ready hf hmeanwhile)).complete
      · left
        rcases hf with hfresh | ⟨content, hserves⟩
        · exact hfresh
        · rcases hstart with rfl | ⟨habsent, -⟩
          · obtain ⟨dir, hdir, -⟩ := hserves.record
            rw [hnone] at hdir
            cases hdir
          · exact absurd hserves.present habsent
      · exact .inr hstrands
  · obtain ⟨error', u, herror, rfl⟩ := (run_refused hinc next).exists_error
    exact ⟨error', herror⟩

end Failed

namespace Sample

def identity : WorkspaceIdentity := ⟨"/work/app", "path-1", 1, 2⟩

def head : IndexPin := ⟨"generation", 3⟩

def anchor : RawAnchor := .json
  ⟨"sid:v1:0123456789abcdef0123456789abcdef", ⟨"source-set", "rust", "src/lib.rs"⟩, "revision",
    "0123456789abcdef0123456789abcdef0123456789abcdef0123456789abcdef",
    "0123456789abcdef0123456789abcdef0123456789abcdef0123456789abcdef", 2, 1⟩

def healthy : Outside := ⟨fun _ => none, false, id, fun _ => .ok anchor, head⟩

def noTarget : Outside :=
  { healthy with capture := fun _ => .error "native declaration target missing" }

/-- A publication begins before the response to a save is finished. -/
def unready : Outside :=
  { healthy with
    fails := fun site =>
      if site = .finish then some "index_not_ready: reconciliation required" else none }

def fresh : Files := ⟨.missing, .missing, .missing, none⟩

def begun : Files :=
  ⟨.secure, .secure, .secure, some ⟨true, some ⟨true, false, .empty⟩⟩⟩

def note (body : String) : AnnotationRequest := ⟨"note-1", "symbol", body, none⟩

def saved (body : String) : Record :=
  Record.annotation ⟨"note-1", "symbol", body, none, some anchor⟩

def holding (body : String) : Files :=
  ⟨.secure, .secure, .secure, some ⟨true, some ⟨true, false,
    committed identity (.created identity) (saved body)⟩⟩⟩

theorem fresh_ready : fresh.Ready identity :=
  .inl ⟨Entry.noConfusion, Entry.noConfusion, Entry.noConfusion, rfl⟩

theorem begun_incomplete : begun.Incomplete :=
  ⟨rfl, rfl, _, rfl, fun file hfile => by cases hfile; exact .inr rfl⟩

theorem healthy_healthy : healthy.Healthy := ⟨fun _ => rfl, fun _ => rfl⟩

theorem again_valid : (SaveCall.saveAnnotationAt head (note "again")).Valid healthy begun where
  admitted := ⟨rfl, rfl⟩
  acceptable :=
    { valid := rfl
      predecessor := fun _ hrow => absurd hrow List.not_mem_nil
      captures := fun _ _ => ⟨some anchor, rfl, _, rfl⟩ }

theorem readable_holding (body : String) (h : (saved body).validate = .ok ()) :
    Readable identity (holding body) (saved body) := by
  have hserves : (holding body).Serves identity
      (committed identity (.created identity) (saved body)) :=
    ⟨rfl, rfl, rfl, _, rfl, rfl, rfl, rfl, rfl, rfl, rfl⟩
  have hrow : (saved body).row.record .annotations = .ok (saved body) := record_row h
  have hrows : ∀ row ∈ [(saved body).row], ∃ record, row.record .annotations = .ok record :=
    fun row hrow' => by
      rw [List.mem_singleton.mp hrow']
      exact ⟨saved body, hrow⟩
  obtain ⟨listed, hlisted⟩ := listRows_iff.mpr hrows
  exact readable_iff.mpr ⟨_, listed, hserves, hlisted,
    (mem_listRows hlisted).mpr ⟨_, List.mem_singleton_self _, hrow⟩⟩

theorem not_readable_holding {body body' : String} (h : body ≠ body') :
    ¬ Readable identity (holding body') (saved body) := by
  intro hread
  obtain ⟨content, listed, hserves, hlisted, hmem⟩ := readable_iff.mp hread
  have hcontent : content = committed identity (.created identity) (saved body') := by
    have hfile := hserves.file
    cases hfile
    rfl
  subst hcontent
  obtain ⟨row, hrow, hrecord⟩ := (mem_listRows hlisted).mp hmem
  have hsaved : row = (saved body').row := List.mem_singleton.mp hrow
  have hpayload := (parse_eq_ok (record_eq_ok.mp hrecord).1).1
  rw [hsaved] at hpayload
  cases hpayload
  exact h rfl

end Sample

/-- A save that fails while it captures the anchor of the very first record leaves a store
that the next one refuses; and a save whose response fails has replaced its record. -/
theorem failed_save_keeps_records_counterexample :
    (¬ ∀ (identity : WorkspaceIdentity) (o : Outside) (call : SaveCall) (f t : Files)
        (error : String), call.run identity o f = .error error t → f.Ready identity →
        ∀ (o' : Outside) (next : SaveCall), o'.Healthy → next.Valid o' t →
          ∃ merged t', next.run identity o' t = .ok merged t') ∧
    ¬ ∀ (identity : WorkspaceIdentity) (o : Outside) (call : SaveCall) (f t : Files)
        (error : String), call.run identity o f = .error error t →
        ∀ record, Readable identity f record → Readable identity t record := by
  constructor
  · intro hall
    obtain ⟨merged, t', hok⟩ := hall Sample.identity Sample.noTarget
      (.saveAnnotationAt Sample.head (Sample.note "check this")) Sample.fresh Sample.begun
      "native declaration target missing" rfl Sample.fresh_ready Sample.healthy
      (.saveAnnotationAt Sample.head (Sample.note "again")) Sample.healthy_healthy
      Sample.again_valid
    have hrefused : Yields ((SaveCall.saveAnnotationAt Sample.head (Sample.note "again")).run
        Sample.identity Sample.healthy) Sample.begun _ _ := run_refused Sample.begun_incomplete _
    obtain ⟨error, u, herror, -⟩ := hrefused.exists_error
    rw [herror] at hok
    cases hok
  · intro hall
    have hread := hall Sample.identity Sample.unready
      (.saveAnnotationAt Sample.head (Sample.note "second")) (Sample.holding "first")
      (Sample.holding "second") "index_not_ready: reconciliation required" rfl
      (Sample.saved "first") (Sample.readable_holding "first" rfl)
    exact Sample.not_readable_holding (by decide) hread

theorem failed_save_keeps_records_sample :
    ∃ error', (SaveCall.saveAnnotationAt Sample.head (Sample.note "again")).run Sample.identity
      Sample.healthy Sample.begun = .error error' Sample.begun :=
  (failed_save_keeps_records Sample.identity Sample.noTarget
    (.saveAnnotationAt Sample.head (Sample.note "check this")) Sample.fresh Sample.begun
    "native declaration target missing" rfl).2.2.2 Sample.begun_incomplete Sample.healthy
      (.saveAnnotationAt Sample.head (Sample.note "again"))

end Baleyg.Topology
