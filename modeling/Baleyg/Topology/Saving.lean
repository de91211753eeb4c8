/-
What a save that fails leaves behind.

A save looks, prepares, and then runs one transaction on a database it has opened or has
just made.  Whatever raises before the transaction leaves the files as they were, up to
directories and a lock file made on the way (`Prepared`); whatever raises inside it leaves
the database as it was; whatever raises after it leaves what the save would have left had
it returned.  Two of these are no store the open path takes: a database that is made and
not yet committed to, and one beside which SQLite left its journal (`Incomplete`).
-/
import Baleyg.Topology.Durable

namespace Baleyg.Topology

open Fallible (Yields Carries ensure yields_bind yields_get yields_set yields_modify yields_pure
  yields_throw yields_ensure)

/-! ### Effects -/

section Effects

variable {α : Type} {o : Outside} {site : Site} {f : Files}

variable {E : String → Files → Prop}

/-- **Past a site**: the files are as before, on either way. -/
theorem yields_effect {Q : Unit → Files → Prop} (hQ : Q () f) (hE : ∀ error, E error f) :
    Yields (effect o site) f Q E := by
  unfold effect
  cases o.fails site with
  | none => exact hQ
  | some error => exact hE error

theorem yields_effect_bind {β : Type} {g : Unit → EStateM String Files β} {Q : β → Files → Prop}
    (hg : Yields (g ()) f Q E) (hE : ∀ error, E error f) : Yields (effect o site >>= g) f Q E := by
  rw [yields_bind]
  exact yields_effect hg hE

theorem yields_lift {x : Except String α} {Q : α → Files → Prop} :
    Yields (lift x) f Q E ↔ (∀ a, x = .ok a → Q a f) ∧ ∀ error, x = .error error → E error f := by
  cases x <;> simp [lift]

theorem yields_transaction {body : Save α} {Q : α → Files → Prop} :
    Yields (transaction o body) f Q E
      ↔ Yields body f Q fun error t => E error (if o.strands then t.stranded else t) := by
  unfold Yields transaction
  cases body f <;> rfl

end Effects

/-! ### Stores the open path takes -/

/-- What `db` checks of a database. -/
structure Opens (identity : WorkspaceIdentity) (d : Database) : Prop where
  journal : d.journalMode = "delete"
  version : d.userVersion = 1
  metadata : d.metadata = some (1, identity.recordId, 1)
  columns : d.columns = true

/-- A finished record directory whose database the code opens. -/
structure Finished (identity : WorkspaceIdentity) (dir : RecordDir) (content : Database) :
    Prop where
  secure : dir.secure = true
  file : dir.file = some ⟨true, false, content⟩
  opens : Opens identity content

structure Files.Serves (f : Files) (identity : WorkspaceIdentity) (content : Database) :
    Prop where
  data : f.data = .secure
  workspaces : f.workspaces = .secure
  lock : f.lock = .secure
  record : ∃ dir, f.record = some dir ∧ Finished identity dir content

/-- No record was ever saved, and nothing stands in the way of the first. -/
structure Files.Fresh (f : Files) : Prop where
  data : f.data ≠ .insecure
  workspaces : f.workspaces ≠ .insecure
  lock : f.lock ≠ .insecure
  record : f.record = none

/-- The store is as a successful save leaves it, or there is none yet. -/
def Files.Ready (f : Files) (identity : WorkspaceIdentity) : Prop :=
  f.Fresh ∨ ∃ content, f.Serves identity content

/-- A record directory without a database to open: there is none, nothing was ever
committed to it, or a journal stands beside it. -/
structure Files.Incomplete (f : Files) : Prop where
  data : f.data = .secure
  workspaces : f.workspaces = .secure
  record : ∃ dir, f.record = some dir ∧
    ∀ file, dir.file = some file → file.sidecar = true ∨ file.content.userVersion = 0

theorem Files.Serves.complete {f : Files} {identity : WorkspaceIdentity} {content : Database}
    (h : f.Serves identity content) : ¬ f.Incomplete := by
  intro hinc
  obtain ⟨dir, hdir, hfinished⟩ := h.record
  obtain ⟨dir', hdir', hbroken⟩ := hinc.record
  rw [hdir] at hdir'
  cases hdir'
  rcases hbroken _ hfinished.file with hside | hversion
  · cases hside
  · rw [hfinished.opens.version] at hversion; omega

/-! ### Made on the way -/

def Entry.Kept (a b : Entry) : Prop := b = a ∨ a = .missing ∧ b = .secure

structure Prepared (f t : Files) : Prop where
  data : Entry.Kept f.data t.data
  workspaces : Entry.Kept f.workspaces t.workspaces
  lock : Entry.Kept f.lock t.lock
  record : t.record = f.record

theorem Entry.Kept.trans {a b c : Entry} (h : a.Kept b) (h' : b.Kept c) : a.Kept c := by
  rcases h with rfl | ⟨rfl, rfl⟩
  · exact h'
  · rcases h' with rfl | ⟨-, rfl⟩
    · exact .inr ⟨rfl, rfl⟩
    · exact .inr ⟨rfl, rfl⟩

theorem Entry.Kept.secure {a b : Entry} (h : a.Kept b) (ha : a = .secure) : b = .secure := by
  rcases h with rfl | ⟨-, rfl⟩
  · exact ha
  · rfl

theorem Entry.Kept.not_insecure {a b : Entry} (h : a.Kept b) (ha : a ≠ .insecure) :
    b ≠ .insecure := by
  rcases h with rfl | ⟨-, rfl⟩
  · exact ha
  · exact Entry.noConfusion

theorem Entry.kept_of_not_insecure {a : Entry} (h : a ≠ .insecure) : a.Kept .secure := by
  cases a with
  | missing => exact .inr ⟨rfl, rfl⟩
  | secure => exact .inl rfl
  | insecure => exact absurd rfl h

namespace Prepared

variable {f t u : Files} {identity : WorkspaceIdentity} {content : Database}

theorem refl (f : Files) : Prepared f f := ⟨.inl rfl, .inl rfl, .inl rfl, rfl⟩

theorem trans (h : Prepared f t) (h' : Prepared t u) : Prepared f u :=
  ⟨h.data.trans h'.data, h.workspaces.trans h'.workspaces, h.lock.trans h'.lock,
    h'.record.trans h.record⟩

theorem serves (h : Prepared f t) (hf : f.Serves identity content) :
    t.Serves identity content :=
  ⟨h.data.secure hf.data, h.workspaces.secure hf.workspaces, h.lock.secure hf.lock,
    h.record ▸ hf.record⟩

theorem fresh (h : Prepared f t) (hf : f.Fresh) : t.Fresh :=
  ⟨h.data.not_insecure hf.data, h.workspaces.not_insecure hf.workspaces,
    h.lock.not_insecure hf.lock, h.record.trans hf.record⟩

theorem ready (h : Prepared f t) (hf : f.Ready identity) : t.Ready identity := by
  rcases hf with hf | ⟨content, hf⟩
  · exact .inl (h.fresh hf)
  · exact .inr ⟨content, h.serves hf⟩

end Prepared

/-! ### What each call does -/

namespace DurableRecords

section Specs

variable {identity : WorkspaceIdentity} {o : Outside} {f : Files}

/-- Some record directory stands where the code looks for it. -/
def Present (f : Files) : Prop :=
  f.data = .secure ∧ f.workspaces = .secure ∧ ∃ dir, f.record = some dir ∧ dir.secure = true

theorem existing_spec :
    Yields (existing o) f
      (fun present t => t = f ∧ (present = true ↔ Present f) ∧
        (present = false → f.data = .missing ∨ f.workspaces = .missing ∨ f.record = none))
      fun _ t => t = f := by
  unfold existing
  refine yields_effect_bind ?_ fun _ => rfl
  refine yields_effect_bind ?_ fun _ => rfl
  refine yields_effect_bind ?_ fun _ => rfl
  rw [yields_bind, yields_get]
  by_cases hdata : f.data = .missing
  · rw [if_pos hdata, yields_pure]
    refine ⟨rfl, ⟨fun h => absurd h Bool.false_ne_true, fun h => ?_⟩, fun _ => .inl hdata⟩
    rw [h.1] at hdata
    cases hdata
  rw [if_neg hdata, yields_bind, yields_ensure]
  refine ⟨fun hsecure => ?_, fun _ => rfl⟩
  by_cases hworkspaces : f.workspaces = .missing
  · rw [if_pos hworkspaces, yields_pure]
    refine ⟨rfl, ⟨fun h => absurd h Bool.false_ne_true, fun h => ?_⟩, fun _ => .inr (.inl hworkspaces)⟩
    rw [h.2.1] at hworkspaces
    cases hworkspaces
  rw [if_neg hworkspaces, yields_bind, yields_ensure]
  refine ⟨fun hsecure' => ?_, fun _ => rfl⟩
  cases hrecord : f.record with
  | none =>
      refine ⟨rfl, ⟨fun h => absurd h Bool.false_ne_true, fun h => ?_⟩, fun _ => .inr (.inr rfl)⟩
      obtain ⟨dir, hdir, -⟩ := h.2.2
      rw [hrecord] at hdir
      cases hdir
  | some dir =>
      rw [yields_bind, yields_ensure]
      refine ⟨fun hdir => ?_, fun _ => rfl⟩
      exact ⟨rfl, ⟨fun _ => ⟨hsecure, hsecure', dir, hrecord, hdir⟩, fun _ => rfl⟩, fun h =>
        absurd h.symm Bool.false_ne_true⟩

theorem prepareRecords_spec (n : Nat) :
    Yields (prepareRecords o n) f
      (fun _ t => Prepared f t ∧ t.data = .secure ∧ t.workspaces = .secure)
      fun _ t => Prepared f t := by
  unfold prepareRecords
  refine yields_effect_bind ?_ fun _ => .refl f
  refine yields_effect_bind ?_ fun _ => .refl f
  rw [yields_bind, yields_get, yields_bind, yields_ensure]
  refine ⟨fun hdata => ?_, fun _ => .refl f⟩
  have hmade : Prepared f { f with data := .secure } :=
    ⟨Entry.kept_of_not_insecure hdata, .inl rfl, .inl rfl, rfl⟩
  rw [yields_bind, yields_set, yields_bind]
  refine yields_effect ?_ fun _ => hmade
  refine yields_effect_bind ?_ fun _ => hmade
  rw [yields_bind, yields_get, yields_bind, yields_ensure]
  refine ⟨fun hworkspaces => ?_, fun _ => hmade⟩
  have hall : Prepared f { f with data := .secure, workspaces := .secure } :=
    ⟨Entry.kept_of_not_insecure hdata, Entry.kept_of_not_insecure hworkspaces, .inl rfl, rfl⟩
  rw [yields_bind, yields_set]
  exact yields_effect ⟨hall, rfl, rfl⟩ fun _ => hall

theorem acquire_spec :
    Yields (acquire o) f
      (fun _ t => t = { f with lock := .secure } ∧ Prepared f t) fun _ t => Prepared f t := by
  unfold acquire
  refine yields_effect_bind ?_ fun _ => .refl f
  rw [yields_bind, yields_get, yields_bind, yields_ensure]
  refine ⟨fun hlock => ?_, fun _ => .refl f⟩
  have hmade : Prepared f { f with lock := .secure } :=
    ⟨.inl rfl, .inl rfl, Entry.kept_of_not_insecure hlock, rfl⟩
  rw [yields_bind, yields_set]
  exact yields_effect ⟨rfl, hmade⟩ fun _ => hmade

theorem acquireExisting_spec :
    Yields (acquireExisting o) f (fun _ t => t = f ∧ f.lock = .secure) fun _ t => t = f := by
  unfold acquireExisting
  rw [yields_bind, yields_get, yields_bind, yields_ensure]
  refine ⟨fun _ => ?_, fun _ => rfl⟩
  refine yields_effect_bind ?_ fun _ => rfl
  rw [yields_bind, yields_ensure]
  exact ⟨fun hlock => yields_effect ⟨rfl, hlock⟩ fun _ => rfl, fun _ => rfl⟩

theorem recordUse_spec :
    Yields (recordUse o) f
      (fun _ t => Prepared f t ∧ t.data = .secure ∧ t.workspaces = .secure ∧ t.lock = .secure)
      fun _ t => Prepared f t := by
  unfold recordUse
  rw [yields_bind]
  refine (prepareRecords_spec 1).mono (fun _ t ht => ?_) fun _ _ h => h
  obtain ⟨hprepared, hdata, hworkspaces⟩ := ht
  refine acquire_spec.mono (fun _ u hu => ?_) fun _ u hu => hprepared.trans hu
  obtain ⟨rfl, hlocked⟩ := hu
  exact ⟨hprepared.trans hlocked, hdata, hworkspaces, rfl⟩

/-- **What `db` opens**: a finished database file, and it changes nothing. -/
theorem db_spec :
    Yields (db identity o) f
      (fun content t => t = f ∧ f.file = some ⟨true, false, content⟩ ∧ Opens identity content)
      fun _ t => t = f := by
  unfold db
  rw [yields_bind, yields_get]
  cases hfile : f.file with
  | none => exact rfl
  | some file =>
      show Yields (effect o .openFile >>= fun _ => _) f _ _
      refine yields_effect_bind ?_ fun _ => rfl
      rw [yields_bind, yields_ensure]
      refine ⟨fun hsecure => ?_, fun _ => rfl⟩
      rw [yields_bind, yields_ensure]
      refine ⟨fun hsidecar => ?_, fun _ => rfl⟩
      refine yields_effect_bind ?_ fun _ => rfl
      rw [yields_bind, yields_ensure]
      refine ⟨fun hjournal => ?_, fun _ => rfl⟩
      rw [yields_bind, yields_ensure]
      refine ⟨fun _ => ?_, fun _ => rfl⟩
      rw [yields_bind, yields_ensure]
      refine ⟨fun hversion => ?_, fun _ => rfl⟩
      rw [yields_bind, yields_ensure]
      refine ⟨fun _ => ?_, fun _ => rfl⟩
      rw [yields_bind, yields_ensure]
      refine ⟨fun hmetadata => ?_, fun _ => rfl⟩
      rw [yields_bind, yields_ensure]
      refine ⟨fun hcolumns => ?_, fun _ => rfl⟩
      refine yields_effect_bind ?_ fun _ => rfl
      rw [yields_pure]
      refine ⟨rfl, ?_, hjournal, hversion, hmetadata, hcolumns⟩
      rw [← hsecure, ← hsidecar]

/-- The database a save commits over `base`. -/
def committed (identity : WorkspaceIdentity) (base : Database) (record : Record) : Database :=
  (base.writeItem record).writeRoot ⟨identity.root, identity.device, identity.inode⟩

theorem store_spec {base : Database} {item : Record} {preserveTitle : Bool}
    {capture : Record → Except String (Option RawAnchor)} :
    Yields (store identity o base item preserveTitle capture) f
      (fun merged t =>
        mergeItem (base.rows item.table) item preserveTitle capture = .ok merged ∧
          t = f.commit (committed identity base merged))
      fun _ t => t = f := by
  unfold store
  rw [yields_bind, yields_lift]
  refine ⟨fun merged hmerged => ?_, fun _ _ => rfl⟩
  refine yields_effect_bind ?_ fun _ => rfl
  refine yields_effect_bind ?_ fun _ => rfl
  refine yields_effect_bind ?_ fun _ => rfl
  refine yields_effect_bind ?_ fun _ => rfl
  refine yields_effect_bind ?_ fun _ => rfl
  rw [yields_bind, yields_modify, yields_pure]
  exact ⟨hmerged, rfl⟩

/-- What the files are when a save's transaction begins: a database was opened, or one was
made beside nothing. -/
structure Opened (identity : WorkspaceIdentity) (found t : Files) (base : Database) : Prop where
  data : t.data = .secure
  workspaces : t.workspaces = .secure
  lock : t.lock = .secure
  base : (t.record = found.record ∧ t.file = some ⟨true, false, base⟩ ∧ Opens identity base) ∨
    (found.record = none ∧ base = .created identity ∧
      t.record = some ⟨true, some ⟨true, false, .empty⟩⟩)

/-- What a save that committed has done to the files it found. -/
def Commits (identity : WorkspaceIdentity) (item : Record) (preserveTitle : Bool)
    (capture : Record → Except String (Option RawAnchor)) (found : Files) (merged : Record)
    (t : Files) : Prop :=
  ∃ u base, Opened identity found u base ∧
    mergeItem (base.rows item.table) item preserveTitle capture = .ok merged ∧
      t = u.commit (committed identity base merged)

def StopsAt (o : Outside) (found t : Files) : Prop :=
  Prepared found t ∨ t.Incomplete ∧ (found.record = none ∨ o.strands = true)

variable {item : Record} {preserveTitle : Bool}
  {capture : Record → Except String (Option RawAnchor)}

theorem incomplete_stranded (hdata : f.data = .secure) (hworkspaces : f.workspaces = .secure)
    {file : DatabaseFile} (hfile : f.file = some file) : f.stranded.Incomplete := by
  refine ⟨hdata, hworkspaces, ?_⟩
  unfold Files.file at hfile
  cases hrecord : f.record with
  | none => rw [hrecord] at hfile; cases hfile
  | some dir =>
      rw [hrecord] at hfile
      refine ⟨{ dir with file := dir.file.map fun file => { file with sidecar := true } }, ?_, ?_⟩
      · show f.record.map _ = _
        rw [hrecord]
        rfl
      · intro broken hbroken
        obtain ⟨_, -, rfl⟩ := Option.map_eq_some_iff.mp hbroken
        exact .inl rfl

theorem saveExisting_spec {found : Files} (hdata : f.data = .secure)
    (hworkspaces : f.workspaces = .secure) (hfound : Prepared found f) :
    Yields (saveExisting identity o item preserveTitle capture) f
      (Commits identity item preserveTitle capture found) fun _ t => StopsAt o found t := by
  unfold saveExisting
  rw [yields_bind]
  refine acquireExisting_spec.mono (fun _ t ht => ?_) fun _ t ht => ht ▸ .inl hfound
  obtain ⟨rfl, hlock⟩ := ht
  rw [yields_bind]
  refine db_spec.mono (fun base u hu => ?_) fun _ u hu => hu ▸ .inl hfound
  obtain ⟨rfl, hfile, hopens⟩ := hu
  refine yields_effect_bind ?_ fun _ => .inl hfound
  rw [yields_transaction]
  refine store_spec.mono (fun merged t ht => ?_) fun _ t ht => ?_
  · obtain ⟨hmerged, rfl⟩ := ht
    exact ⟨_, base, ⟨hdata, hworkspaces, hlock, .inl ⟨hfound.record, hfile, hopens⟩⟩,
      hmerged, rfl⟩
  · subst ht
    by_cases hstrands : o.strands = true
    · rw [if_pos hstrands]
      exact .inr ⟨incomplete_stranded hdata hworkspaces hfile, .inr hstrands⟩
    · rw [if_neg hstrands]; exact .inl hfound

theorem saveFirst_spec {found : Files} (hsync : o.fails .sync = none) (hdata : f.data = .secure)
    (hworkspaces : f.workspaces = .secure) (hlock : f.lock = .secure) (hfound : Prepared found f)
    (hnone : found.record = none) :
    Yields (saveFirst identity o item preserveTitle capture) f
      (Commits identity item preserveTitle capture found) fun _ t => StopsAt o found t := by
  have hempty : StopsAt o found { f with record := some ⟨true, none⟩ } :=
    .inr ⟨⟨hdata, hworkspaces, _, rfl, fun _ hfile => by cases hfile⟩, .inl hnone⟩
  have hmade : ∀ sidecar, StopsAt o found
      { f with record := some ⟨true, some ⟨true, sidecar, .empty⟩⟩ } := fun sidecar =>
    .inr ⟨⟨hdata, hworkspaces, _, rfl, fun _ hfile => by cases hfile; exact .inr rfl⟩, .inl hnone⟩
  unfold saveFirst
  refine yields_effect_bind ?_ fun _ => .inl hfound
  rw [yields_bind, yields_modify, yields_bind]
  refine yields_effect ?_ fun _ => hempty
  refine yields_effect_bind ?_ fun _ => hempty
  rw [yields_bind, yields_modify, yields_bind]
  refine yields_effect ?_ fun _ => hmade false
  refine yields_effect_bind ?_ fun _ => hmade false
  have hrolled : ∀ t, t = { f with record := some ⟨true, some ⟨true, false, .empty⟩⟩ } →
      StopsAt o found (if o.strands then t.stranded else t) := by
    rintro t rfl
    split
    · exact hmade true
    · exact hmade false
  rw [yields_bind, yields_transaction, yields_bind]
  refine yields_effect ?_ fun _ => hrolled _ rfl
  refine store_spec.mono (fun merged t ht => ?_) fun _ t ht => hrolled t ht
  obtain ⟨hmerged, rfl⟩ := ht
  have heffect : effect o .sync = pure () := by
    unfold effect
    rw [hsync]
  rw [yields_bind, heffect, yields_pure, yields_pure]
  exact ⟨{ f with record := some ⟨true, some ⟨true, false, .empty⟩⟩ }, .created identity,
    ⟨hdata, hworkspaces, hlock, .inr ⟨hnone, rfl, rfl⟩⟩, hmerged, rfl⟩

/-- The files a save starts from: those it was called on, or, where it found no record in
them, what others made of them by the time it looked again. -/
def StartsFrom (o : Outside) (f found : Files) : Prop :=
  found = f ∨ ¬ Present f ∧ found = o.meanwhile f

theorem saveItem_spec (hsync : o.fails .sync = none) :
    Yields (saveItem identity o item preserveTitle capture) f
      (fun merged t => ∃ found, StartsFrom o f found ∧ (Present f → found = f) ∧
        Commits identity item preserveTitle capture found merged t)
      fun _ t => ∃ found, StartsFrom o f found ∧ (Present f → found = f) ∧ StopsAt o found t := by
  unfold saveItem
  rw [yields_bind]
  refine existing_spec.mono (fun present t ht => ?_) fun _ t ht =>
    ⟨f, .inl rfl, fun _ => rfl, by rw [ht]; exact .inl (.refl f)⟩
  obtain ⟨rfl, hpresent, -⟩ := ht
  cases present with
  | true =>
      obtain ⟨hdata, hworkspaces, -⟩ := hpresent.mp rfl
      rw [if_neg (by simp)]
      refine (saveExisting_spec hdata hworkspaces (.refl t)).mono (fun merged u hu => ?_)
        fun _ u hu => ?_
      · exact ⟨t, .inl rfl, fun _ => rfl, hu⟩
      · exact ⟨t, .inl rfl, fun _ => rfl, hu⟩
  | false =>
      have habsent : ¬ Present t := fun h => absurd (hpresent.mpr h) Bool.false_ne_true
      have hstart : StartsFrom o t (o.meanwhile t) := .inr ⟨habsent, rfl⟩
      have hnever : Present t → o.meanwhile t = t := fun h => absurd h habsent
      rw [if_pos rfl, yields_bind, yields_modify, yields_bind]
      refine (prepareRecords_spec 0).mono (fun _ u hu => ?_) fun _ u hu =>
        ⟨_, hstart, hnever, .inl hu⟩
      rw [yields_bind]
      refine recordUse_spec.mono (fun _ v hv => ?_) fun _ v hv =>
        ⟨_, hstart, hnever, .inl (hu.1.trans hv)⟩
      obtain ⟨hprepared, hdata, hworkspaces, hlock⟩ := hv
      have hall := hu.1.trans hprepared
      refine yields_effect_bind ?_ fun _ => ⟨_, hstart, hnever, .inl hall⟩
      rw [yields_bind, yields_get]
      split
      · refine (saveExisting_spec hdata hworkspaces hall).mono (fun merged u hu => ?_)
          fun _ u hu => ?_
        · exact ⟨_, hstart, hnever, hu⟩
        · exact ⟨_, hstart, hnever, hu⟩
      · rename_i hsome
        have hnone : (o.meanwhile t).record = none := by
          rw [← hall.record]
          exact Option.not_isSome_iff_eq_none.mp hsome
        refine (saveFirst_spec hsync hdata hworkspaces hlock hall hnone).mono
          (fun merged u hu => ?_) fun _ u hu => ?_
        · exact ⟨_, hstart, hnever, hu⟩
        · exact ⟨_, hstart, hnever, hu⟩

end Specs

end DurableRecords

end Baleyg.Topology
