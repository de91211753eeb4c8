/-
What a saved record keeps while it is edited.

A view or an annotation is put, updated and deleted by its id, and every one of these
calls can fail at each of its sites.  Whatever happens to a call, the rows it leaves are
those it found, or those with one record written, or those with one id removed.  A record
is written by the merge alone, and the merge takes the anchor from the stored record and
refuses another target; so a record that is never removed is about the same target, by the
same anchor, however often it is edited.

Rows are read by id, as the `SELECT` of the merge reads them: `stored` is what a table
whose ids are its primary key has under one of them.
-/
import Baleyg.Topology.FailedSave

namespace Baleyg.Topology

open Fallible (Yields final yields_bind yields_get yields_set yields_modify yields_pure
  yields_throw yields_ensure bind_eq_ok ensure_eq_ok)
open DurableRecords

/-! ### Operations -/

namespace DurableRecords

/-- `delete`: whether there was such a record. -/
def delete (o : Outside) (identity : WorkspaceIdentity) (table : RecordTable) (id : String) :
    Save Bool := do
  let present ← existing o
  if present = false then pure false
  else do
    acquireExisting o
    let base ← db identity o
    effect o .begin
    transaction o do
      effect o .write
      effect o (.identity 3)
      effect o .guard
      effect o .commit
      modify fun files =>
        files.commit (base.withRows table ((base.rows table).filter fun row => row.id ≠ id))
      pure ((base.rows table).any fun row => row.id = id)

end DurableRecords

inductive Operation where
  | save (call : SaveCall)
  | update (record : Record) (preserveTitle : Bool)
  | delete (table : RecordTable) (id : String)
  deriving DecidableEq, Repr

namespace Operation

variable (identity : WorkspaceIdentity) (o : Outside)

def run : Operation → Save (Option Record)
  | save call => do
      let record ← call.run identity o
      pure (some record)
  | update record preserveTitle => do
      let record ← updateRecord identity o record preserveTitle
      pure (some record)
  | delete table id => do
      let _ ← DurableRecords.delete o identity table id
      pure none

/-- The record an operation brings, and whether it asks to keep a stored title. -/
def brings : Operation → Option (Record × Bool)
  | save call => some (call.item, call.preserves)
  | update record preserveTitle => some (record.withAnchor none, preserveTitle)
  | delete _ _ => none

def addresses : Operation → RecordTable × String
  | save call => (call.item.table, call.item.id)
  | update record _ => (record.table, record.id)
  | delete table id => (table, id)

end Operation

/-- Nobody else at work between the two looks of a first save. -/
def Outside.alone (o : Outside) : Outside := { o with meanwhile := id }

/-- The files an operation leaves, whether it returned or raised. -/
def Operation.after (identity : WorkspaceIdentity) (o : Outside) (op : Operation) (f : Files) :
    Files :=
  final (op.run identity o.alone) f

def Operation.afterAll (identity : WorkspaceIdentity) : List (Outside × Operation) → Files → Files
  | [], f => f
  | (o, op) :: ops, f => afterAll identity ops (op.after identity o f)

def Files.stored (f : Files) (table : RecordTable) (id : String) : Option Row :=
  (f.rows table).find? fun row => row.id = id

/-! ### Rows under an id -/

section Rows

variable {rows : List Row} {record old incoming merged : Record} {id : String} {row : Row}
  {preserveTitle : Bool} {capture : Record → Except String (Option RawAnchor)}

theorem find?_writeItem_same :
    ((writeItem rows record).find? fun row => row.id = record.id) = some record.row := by
  cases hfind : (writeItem rows record).find? fun row => row.id = record.id with
  | none =>
      have hmem : record.row ∈ writeItem rows record := mem_writeItem.mpr (.inl rfl)
      exact absurd (decide_eq_true rfl) (List.find?_eq_none.mp hfind _ hmem)
  | some row =>
      have hid : row.id = record.id := by
        have hpred := List.find?_some hfind
        exact of_decide_eq_true hpred
      rcases mem_writeItem.mp (List.mem_of_find?_eq_some hfind) with rfl | ⟨-, hne⟩
      · rfl
      · exact absurd hid hne

theorem find?_writeItem_other (h : id ≠ record.id) :
    ((writeItem rows record).find? fun row => row.id = id)
      = rows.find? fun row => row.id = id := by
  have hrow : ¬ record.row.id = id := fun hid => h hid.symm
  unfold writeItem
  split
  · clear * - hrow h
    induction rows with
    | nil => rfl
    | cons row rows ih =>
        rw [List.map_cons, List.find?_cons, List.find?_cons, ih]
        by_cases hid : row.id = record.id
        · have hother : ¬ row.id = id := fun hsame => h (hsame.symm.trans hid)
          rw [if_pos hid, decide_eq_false hrow, decide_eq_false hother]
        · rw [if_neg hid]
  · rw [List.find?_append, List.find?_singleton]
    rw [if_neg (by simpa using hrow), Option.or_none]

theorem find?_removed_same {rows : List Row} {id : String} :
    ((rows.filter fun row => row.id ≠ id).find? fun row => row.id = id) = none := by
  refine List.find?_eq_none.mpr fun row hrow hid => ?_
  exact of_decide_eq_true (List.mem_filter.mp hrow).2 (of_decide_eq_true hid)

theorem find?_removed_other {removed : String} (h : id ≠ removed) :
    ((rows.filter fun row => row.id ≠ removed).find? fun row => row.id = id)
      = rows.find? fun row => row.id = id := by
  rw [List.find?_filter]
  refine congrArg (fun p => rows.find? p) (funext fun row => ?_)
  by_cases hid : row.id = id
  · have hkept : row.id ≠ removed := fun hrow => h (hid.symm.trans hrow)
    simp [hid, h]
  · simp [hid]

/-! ### What a merge keeps -/

@[simp] theorem target_inherit : (old.inherit preserveTitle incoming).target = incoming.target := by
  cases old <;> cases incoming <;> rfl

@[simp] theorem anchor_inherit : (old.inherit preserveTitle incoming).anchor = old.anchor := by
  cases old <;> cases incoming <;> rfl

/-- **A merge into a stored record** takes over what that one has, and finds the same target. -/
theorem mergeItem_stored (h : mergeItem rows incoming preserveTitle capture = .ok merged)
    (hrow : (rows.find? fun row => row.id = incoming.id) = some row) :
    ∃ old, row.payload = .json old ∧ old.table = incoming.table ∧
      old.target = incoming.target ∧ merged = old.inherit preserveTitle incoming := by
  obtain ⟨_, -, h⟩ := bind_eq_ok.mp h
  obtain ⟨stored, hstored, h⟩ := bind_eq_ok.mp h
  obtain ⟨_, -, h⟩ := bind_eq_ok.mp h
  cases h
  unfold mergeStored at hstored
  rw [hrow] at hstored
  obtain ⟨old, hold, hstored⟩ := bind_eq_ok.mp hstored
  obtain ⟨_, htarget, hstored⟩ := bind_eq_ok.mp hstored
  cases hstored
  obtain ⟨hpayload, htable⟩ := parse_eq_ok (record_eq_ok.mp hold).1
  exact ⟨old, hpayload, htable, ensure_eq_ok.mp htarget, rfl⟩

end Rows

/-! ### What an operation leaves -/

/-- The tables hold what they held. -/
def Same (f t : Files) : Prop := ∀ table, t.rows table = f.rows table

structure Wrote (item : Record) (preserveTitle : Bool)
    (capture : Record → Except String (Option RawAnchor)) (f : Files) (merged : Record)
    (t : Files) : Prop where
  merge : mergeItem (f.rows item.table) item preserveTitle capture = .ok merged
  rows : ∀ table, t.rows table
    = if table = merged.table then writeItem (f.rows table) merged else f.rows table

def Removed (table : RecordTable) (id : String) (f t : Files) : Prop :=
  ∀ table', t.rows table'
    = if table' = table then (f.rows table').filter fun row => row.id ≠ id else f.rows table'

section Files

variable {f t u : Files} {content : Database} {file : DatabaseFile} {table : RecordTable}
  {item merged : Record} {preserveTitle : Bool} {identity : WorkspaceIdentity} {o : Outside}
  {capture : Record → Except String (Option RawAnchor)} {base : Database}

theorem same_of_record (h : t.record = f.record) : Same f t := by
  intro table
  unfold Files.rows Files.file
  rw [h]

theorem same_stranded : Same f f.stranded := by
  intro table
  obtain ⟨data, workspaces, lock, record⟩ := f
  cases record with
  | none => rfl
  | some dir =>
      obtain ⟨secure, file⟩ := dir
      cases file <;> rfl

theorem rows_commit (h : f.file = some file) :
    (f.commit content).rows table = content.rows table := by
  have hfile : (f.commit content).file = some { file with content := content } := by
    unfold Files.file at h ⊢
    show (f.record.map _).bind RecordDir.file = _
    cases hrecord : f.record with
    | none => rw [hrecord] at h; cases h
    | some dir =>
        rw [hrecord] at h
        show dir.file.map _ = _
        rw [show dir.file = some file from h]
        rfl
  unfold Files.rows
  rw [hfile]

theorem rows_file (h : f.file = some file) : f.rows table = file.content.rows table := by
  unfold Files.rows
  rw [h]

theorem rows_committed :
    (committed identity base merged).rows table
      = if table = merged.table then writeItem (base.rows table) merged else base.rows table := by
  by_cases h : table = merged.table
  · rw [if_pos h, h]; exact rows_committed_same
  · rw [if_neg h]; exact rows_committed_other h

theorem rows_withRows {table' : RecordTable} {rows : List Row} :
    (base.withRows table rows).rows table' = if table' = table then rows else base.rows table' := by
  cases table <;> cases table' <;> rfl

theorem Wrote.of_same (hsame : Same f u) (h : Wrote item preserveTitle capture u merged t) :
    Wrote item preserveTitle capture f merged t := by
  refine ⟨by rw [← hsame]; exact h.merge, fun table => ?_⟩
  rw [h.rows table, hsame table]

theorem yields_transaction_same {α : Type} {body : Save α} {Q : α → Files → Prop}
    (h : Yields body f Q fun _ t => Same f t) :
    Yields (transaction o body) f Q fun _ t => Same f t := by
  rw [yields_transaction]
  refine h.mono (fun _ _ hQ => hQ) fun _ t ht => ?_
  split
  · exact fun table => (same_stranded table).trans (ht table)
  · exact ht

theorem saveExisting_writes :
    Yields (saveExisting identity o item preserveTitle capture) f
      (Wrote item preserveTitle capture f) fun _ t => Same f t := by
  unfold saveExisting
  rw [yields_bind]
  refine acquireExisting_spec.mono (fun _ t ht => ?_) fun _ t ht => ht ▸ fun _ => rfl
  obtain ⟨rfl, -⟩ := ht
  rw [yields_bind]
  refine db_spec.mono (fun base u hu => ?_) fun _ u hu => hu ▸ fun _ => rfl
  obtain ⟨rfl, hfile, -⟩ := hu
  refine yields_effect_bind ?_ fun _ _ => rfl
  refine yields_transaction_same (store_spec.mono (fun merged t ht => ?_) fun _ t ht => ?_)
  · obtain ⟨hmerged, rfl⟩ := ht
    refine ⟨by rw [rows_file hfile]; exact hmerged, fun table => ?_⟩
    rw [rows_commit hfile, rows_committed, rows_file hfile]
  · rw [ht]; exact fun _ => rfl

theorem saveFirst_writes (hnone : f.record = none) :
    Yields (saveFirst identity o item preserveTitle capture) f
      (Wrote item preserveTitle capture f)
      fun _ t => Same f t ∨ ∃ merged, Wrote item preserveTitle capture f merged t := by
  have hrows : ∀ table, f.rows table = [] := fun table => by
    unfold Files.rows Files.file
    rw [hnone]
    rfl
  have hempty : Same f { f with record := some ⟨true, none⟩ } := fun table => (hrows table).symm
  have hmade : Same f { f with record := some ⟨true, some ⟨true, false, .empty⟩⟩ } := by
    intro table
    rw [hrows table]
    cases table <;> rfl
  unfold saveFirst
  refine yields_effect_bind ?_ fun _ => .inl fun _ => rfl
  rw [yields_bind, yields_modify, yields_bind]
  refine yields_effect ?_ fun _ => .inl hempty
  refine yields_effect_bind ?_ fun _ => .inl hempty
  rw [yields_bind, yields_modify, yields_bind]
  refine yields_effect ?_ fun _ => .inl hmade
  refine yields_effect_bind ?_ fun _ => .inl hmade
  rw [yields_bind]
  have htransaction : Yields (transaction o do
      effect o .schema
      store identity o (.created identity) item preserveTitle capture)
      { f with record := some ⟨true, some ⟨true, false, .empty⟩⟩ }
      (Wrote item preserveTitle capture f) fun _ t => Same
        { f with record := some ⟨true, some ⟨true, false, .empty⟩⟩ } t := by
    refine yields_transaction_same ?_
    refine yields_effect_bind ?_ fun _ _ => rfl
    refine store_spec.mono (fun merged t ht => ?_) fun _ t ht => ?_
    · obtain ⟨hmerged, rfl⟩ := ht
      have hcreated : ∀ table, (Database.created identity).rows table = f.rows table :=
        fun table => (rows_created table).trans (hrows table).symm
      refine ⟨by rw [← hcreated]; exact hmerged, fun table => ?_⟩
      rw [rows_commit rfl, rows_committed, hcreated]
    · rw [ht]; exact fun _ => rfl
  refine htransaction.mono (fun merged t ht => ?_) fun _ t ht =>
    .inl fun table => (ht table).trans (hmade table)
  -- the record is committed when the directories are synced
  rw [yields_bind]
  exact yields_effect ht fun _ => .inr ⟨merged, ht⟩

/-- **A save writes one merged record or leaves every row.** -/
theorem saveItem_writes (halone : o.meanwhile f = f) :
    Yields (saveItem identity o item preserveTitle capture) f
      (Wrote item preserveTitle capture f)
      fun _ t => Same f t ∨ ∃ merged, Wrote item preserveTitle capture f merged t := by
  have hraised : ∀ u, u.record = f.record → Yields (saveExisting identity o item preserveTitle
      capture) u (Wrote item preserveTitle capture f)
      fun _ t => Same f t ∨ ∃ merged, Wrote item preserveTitle capture f merged t := by
    intro u hrecord
    have hsame := same_of_record hrecord
    exact saveExisting_writes.mono (fun _ _ ht => ht.of_same hsame) fun _ t ht =>
      .inl fun table => (ht table).trans (hsame table)
  unfold saveItem
  rw [yields_bind]
  refine existing_spec.mono (fun present t ht => ?_) fun _ t ht => .inl (ht ▸ fun _ => rfl)
  obtain ⟨rfl, -, -⟩ := ht
  cases present with
  | true => rw [if_neg (by simp)]; exact hraised _ rfl
  | false =>
      rw [if_pos rfl, yields_bind, yields_modify, halone, yields_bind]
      refine (prepareRecords_spec 0).mono (fun _ u hu => ?_) fun _ u hu =>
        .inl (same_of_record hu.record)
      rw [yields_bind]
      refine recordUse_spec.mono (fun _ v hv => ?_) fun _ v hv =>
        .inl (same_of_record (hv.record.trans hu.1.record))
      have hrecord := hv.1.record.trans hu.1.record
      refine yields_effect_bind ?_ fun _ => .inl (same_of_record hrecord)
      rw [yields_bind, yields_get]
      split
      · exact hraised _ hrecord
      · rename_i hsome
        have hnone : v.record = none := Option.not_isSome_iff_eq_none.mp hsome
        have hsame := same_of_record hrecord
        refine (saveFirst_writes hnone).mono (fun _ _ ht => ht.of_same hsame) fun _ t ht => ?_
        rcases ht with ht | ⟨merged, ht⟩
        · exact .inl fun table => (ht table).trans (hsame table)
        · exact .inr ⟨merged, ht.of_same hsame⟩

/-- **A delete removes the rows of its id**; without a store it leaves every row. -/
theorem delete_removes {id : String} :
    Yields (DurableRecords.delete o identity table id) f
      (fun _ t => Same f t ∧ ¬ Present f ∨ Removed table id f t) fun _ t => Same f t := by
  unfold DurableRecords.delete
  rw [yields_bind]
  refine existing_spec.mono (fun present t ht => ?_) fun _ t ht => ht ▸ fun _ => rfl
  obtain ⟨rfl, hpresent, -⟩ := ht
  cases present with
  | false =>
      rw [if_pos rfl, yields_pure]
      exact .inl ⟨fun _ => rfl, fun h => Bool.false_ne_true (hpresent.mpr h)⟩
  | true =>
      rw [if_neg (by simp), yields_bind]
      refine acquireExisting_spec.mono (fun _ u hu => ?_) fun _ u hu => hu ▸ fun _ => rfl
      obtain ⟨rfl, -⟩ := hu
      rw [yields_bind]
      refine db_spec.mono (fun base u hu => ?_) fun _ u hu => hu ▸ fun _ => rfl
      obtain ⟨rfl, hfile, -⟩ := hu
      refine yields_effect_bind ?_ fun _ _ => rfl
      refine yields_transaction_same ?_
      refine yields_effect_bind ?_ fun _ _ => rfl
      refine yields_effect_bind ?_ fun _ _ => rfl
      refine yields_effect_bind ?_ fun _ _ => rfl
      refine yields_effect_bind ?_ fun _ _ => rfl
      rw [yields_bind, yields_modify, yields_pure]
      refine .inr fun table' => ?_
      rw [rows_commit hfile, rows_withRows, rows_file hfile]
      by_cases htable : table' = table
      · rw [if_pos htable, if_pos htable, htable]
      · rw [if_neg htable, if_neg htable]

end Files

/-! ### Operations and the records under an id -/

section Operations

variable {f t : Files} {table : RecordTable} {id : String} {item merged : Record}
  {preserveTitle : Bool} {identity : WorkspaceIdentity} {o : Outside} {op : Operation}
  {capture : Record → Except String (Option RawAnchor)} {row : Row}

/-- **What an operation that brings a record does.** -/
theorem run_writes (identity : WorkspaceIdentity) (halone : o.meanwhile f = f)
    (hbrings : op.brings = some (item, preserveTitle)) :
    ∃ capture, Yields (op.run identity o) f
      (fun returned t => ∃ merged, returned = some merged ∧
        Wrote item preserveTitle capture f merged t)
      fun _ t => Same f t ∨ ∃ merged, Wrote item preserveTitle capture f merged t := by
  have hreturn : ∀ (capture : Record → Except String (Option RawAnchor)) (x : Save Record),
      Yields x f (Wrote item preserveTitle capture f)
        (fun _ t => Same f t ∨ ∃ merged, Wrote item preserveTitle capture f merged t) →
      Yields (x >>= fun record => pure (some record)) f
        (fun returned t => ∃ merged, returned = some merged ∧
          Wrote item preserveTitle capture f merged t)
        fun _ t => Same f t ∨ ∃ merged, Wrote item preserveTitle capture f merged t := by
    intro capture x hx
    rw [yields_bind]
    exact hx.mono (fun merged t ht => ⟨merged, rfl, ht⟩) fun _ _ ht => ht
  cases op with
  | save call =>
      cases hbrings
      refine ⟨call.capture o, hreturn _ _ ?_⟩
      refine run_of_saveItem (fun _ => .inl fun _ => rfl) (fun merged t ht => ?_)
        (saveItem_writes halone)
      have hwrote : ∃ merged, Wrote call.item call.preserves (call.capture o) f merged t :=
        ⟨merged, ht⟩
      refine yields_effect_bind ?_ fun _ => .inr hwrote
      rw [yields_bind]
      exact yields_effect ht fun _ => .inr hwrote
  | update record preserveTitle =>
      cases hbrings
      refine ⟨fun item => some <$> o.capture item, hreturn _ _ ?_⟩
      unfold updateRecord
      rw [yields_bind, yields_lift]
      exact ⟨fun _ _ => saveItem_writes halone, fun _ _ => .inl fun _ => rfl⟩
  | delete table id => cases hbrings

theorem after_writes (identity : WorkspaceIdentity) (o : Outside) (f : Files)
    (hbrings : op.brings = some (item, preserveTitle)) :
    Same f (op.after identity o f) ∨
      ∃ capture merged, Wrote item preserveTitle capture f merged (op.after identity o f) := by
  have halone : o.alone.meanwhile f = f := rfl
  obtain ⟨capture, hruns⟩ := run_writes identity halone hbrings
  have hfinal : Yields (op.run identity o.alone) f
      (fun _ t => Same f t ∨ ∃ merged, Wrote item preserveTitle capture f merged t)
      fun _ t => Same f t ∨ ∃ merged, Wrote item preserveTitle capture f merged t := by
    refine hruns.mono (fun _ t ht => ?_) fun _ _ ht => ht
    obtain ⟨merged, -, hwrote⟩ := ht
    exact .inr ⟨merged, hwrote⟩
  rcases hfinal.final with hsame | ⟨merged, hwrote⟩
  · exact .inl hsame
  · exact .inr ⟨capture, merged, hwrote⟩

theorem after_removes (identity : WorkspaceIdentity) (o : Outside) (f : Files)
    (table : RecordTable) (id : String) :
    Same f ((Operation.delete table id).after identity o f) ∨
      Removed table id f ((Operation.delete table id).after identity o f) := by
  have hruns : Yields ((Operation.delete table id).run identity o.alone) f
      (fun _ t => Same f t ∨ Removed table id f t) fun _ t => Same f t ∨ Removed table id f t := by
    show Yields (DurableRecords.delete o.alone identity table id >>= fun _ => pure none) f _ _
    rw [yields_bind]
    exact delete_removes.mono (fun _ _ ht => ht.imp_left And.left) fun _ _ ht => .inl ht
  exact hruns.final

theorem stored_of_same (h : Same f t) : t.stored table id = f.stored table id := by
  unfold Files.stored
  rw [h]

theorem Wrote.stored_same (h : Wrote item preserveTitle capture f merged t) :
    t.stored item.table item.id = some merged.row := by
  obtain ⟨-, htable, hid⟩ := mergeItem_spec h.merge
  unfold Files.stored
  rw [h.rows, if_pos htable.symm, ← hid]
  exact find?_writeItem_same

theorem Wrote.stored_other (h : Wrote item preserveTitle capture f merged t)
    (hother : (item.table, item.id) ≠ (table, id)) : t.stored table id = f.stored table id := by
  obtain ⟨-, htable, hid⟩ := mergeItem_spec h.merge
  unfold Files.stored
  rw [h.rows]
  by_cases hsame : table = merged.table
  · rw [if_pos hsame]
    refine find?_writeItem_other fun hsame' => hother ?_
    rw [hsame, hsame', htable, hid]
  · rw [if_neg hsame]

theorem Removed.stored_same (h : Removed table id f t) : t.stored table id = none := by
  unfold Files.stored
  rw [h table, if_pos rfl]
  exact find?_removed_same

theorem Removed.stored_other {removed : String} (h : Removed table removed f t)
    {table' : RecordTable} (hother : (table, removed) ≠ (table', id)) :
    t.stored table' id = f.stored table' id := by
  unfold Files.stored
  rw [h table']
  by_cases hsame : table' = table
  · rw [if_pos hsame]
    refine find?_removed_other fun hid => hother ?_
    rw [hsame, hid]
  · rw [if_neg hsame]

theorem addresses_of_brings (hbrings : op.brings = some (item, preserveTitle)) :
    op.addresses = (item.table, item.id) := by
  cases op with
  | save call => cases hbrings; rfl
  | update record preserveTitle =>
      cases hbrings
      rw [table_withAnchor, id_withAnchor]
      rfl
  | delete table id => cases hbrings

theorem eq_delete (hbrings : op.brings = none) :
    op = .delete op.addresses.1 op.addresses.2 := by
  cases op with
  | save | update => cases hbrings
  | delete table id => rfl

/-- **Only the record an operation addresses changes.** -/
theorem stored_after_other (hother : op.addresses ≠ (table, id)) :
    (op.after identity o f).stored table id = f.stored table id := by
  cases hbrings : op.brings with
  | some brought =>
      rcases after_writes identity o f hbrings with hsame | ⟨capture, merged, hwrote⟩
      · exact stored_of_same hsame
      · exact hwrote.stored_other (addresses_of_brings hbrings ▸ hother)
  | none =>
      rw [eq_delete hbrings]
      rcases after_removes identity o f op.addresses.1 op.addresses.2 with hsame | hremoved
      · exact stored_of_same hsame
      · exact hremoved.stored_other hother

/-- The record a row holds is about this target, by this anchor. -/
def Row.Holds (target : String) (anchor : Option RawAnchor) (row : Row) : Prop :=
  ∃ record, row.payload = .json record ∧ record.target = target ∧ record.anchor = anchor

theorem Wrote.replaces (h : Wrote item preserveTitle capture f merged t)
    (hrow : f.stored item.table item.id = some row) :
    ∃ old, row.payload = .json old ∧ old.table = item.table ∧ old.target = item.target ∧
      merged = old.inherit preserveTitle item :=
  mergeItem_stored h.merge hrow

/-- **One operation keeps target and anchor**, or removes the record. -/
theorem holds_after (identity : WorkspaceIdentity) (o : Outside) (op : Operation)
    {target : String} {anchor : Option RawAnchor} (hrow : f.stored table id = some row)
    (hholds : row.Holds target anchor) :
    (∃ row', (op.after identity o f).stored table id = some row' ∧ row'.Holds target anchor) ∨
      op = .delete table id := by
  have hkept : Same f (op.after identity o f) →
      ∃ row', (op.after identity o f).stored table id = some row' ∧ row'.Holds target anchor :=
    fun hsame => ⟨row, (stored_of_same hsame).trans hrow, hholds⟩
  by_cases hother : op.addresses = (table, id)
  swap
  · exact .inl ⟨row, (stored_after_other hother).trans hrow, hholds⟩
  cases hbrings : op.brings with
  | none =>
      refine .inr ?_
      rw [eq_delete hbrings, hother]
  | some brought =>
      left
      rcases after_writes identity o f hbrings with hsame | ⟨capture, merged, hwrote⟩
      · exact hkept hsame
      cases hother.symm.trans (addresses_of_brings hbrings)
      obtain ⟨old, hpayload, -, htarget, rfl⟩ := hwrote.replaces hrow
      obtain ⟨record, hrecord, rfl, rfl⟩ := hholds
      rw [hpayload] at hrecord
      cases hrecord
      refine ⟨_, hwrote.stored_same, _, rfl, ?_, anchor_inherit⟩
      rw [target_inherit, htarget]

/-- **Over a whole sequence**, as long as the record is there. -/
theorem holds_afterAll {target : String} {anchor : Option RawAnchor}
    {ops : List (Outside × Operation)} (hrow : f.stored table id = some row)
    (hholds : row.Holds target anchor)
    (hlives : ∀ done, done <+: ops →
      (Operation.afterAll identity done f).stored table id ≠ none) :
    ∃ row', (Operation.afterAll identity ops f).stored table id = some row' ∧
      row'.Holds target anchor := by
  induction ops generalizing f row with
  | nil => exact ⟨row, hrow, hholds⟩
  | cons op ops ih =>
      obtain ⟨o, op⟩ := op
      have hstep : ∃ row', (op.after identity o f).stored table id = some row' ∧
          row'.Holds target anchor := by
        rcases holds_after identity o op hrow hholds with hkept | rfl
        · exact hkept
        -- a delete that left the record there did nothing
        rcases after_removes identity o f table id with hsame | hremoved
        · exact ⟨row, (stored_of_same hsame).trans hrow, hholds⟩
        · refine absurd ?_ (hlives [(o, .delete table id)] (by simp))
          exact hremoved.stored_same
      obtain ⟨row', hrow', hholds'⟩ := hstep
      refine ih hrow' hholds' fun done hdone => hlives ((o, op) :: done) ?_
      exact List.cons_prefix_cons.mpr ⟨rfl, hdone⟩

theorem Wrote.title (h : Wrote item preserveTitle capture f merged t)
    {incoming old : AnnotationRecord} (hitem : item = Record.annotation incoming)
    (homitted : incoming.title = none)
    (hrow : f.stored .annotations incoming.id = some row)
    (hold : row.payload = .json (Record.annotation old)) :
    ∃ new, merged = Record.annotation new ∧
      new.title = if preserveTitle = true then old.title else none := by
  subst hitem
  obtain ⟨record, hpayload, -, -, rfl⟩ := h.replaces hrow
  rw [hold] at hpayload
  cases hpayload
  refine ⟨_, rfl, ?_⟩
  show (if preserveTitle = true ∧ incoming.title = none then old.title else incoming.title) = _
  rw [homitted]
  simp

/-- **Saved records keep their identity.**  However records are saved, updated and deleted,
a record is about the same target by the same anchor as long as it is there; only its own
deletion removes it, and only an operation on it changes it; and an annotation edited
without a title has the stored title exactly when the edit asked to keep it. -/
theorem saved_identity_stable (identity : WorkspaceIdentity) (f : Files) :
    (∀ (ops : List (Outside × Operation)) (table : RecordTable) (id : String) (row : Row)
        (old : Record), f.stored table id = some row → row.payload = .json old →
      (∀ done, done <+: ops →
        (Operation.afterAll identity done f).stored table id ≠ none) →
      ∃ row' new, (Operation.afterAll identity ops f).stored table id = some row' ∧
        row'.payload = .json new ∧ new.target = old.target ∧ new.anchor = old.anchor) ∧
    (∀ (o : Outside) (op : Operation) (table : RecordTable) (id : String),
      f.stored table id ≠ none → (op.after identity o f).stored table id = none →
        op = .delete table id) ∧
    (∀ (o : Outside) (op : Operation) (table : RecordTable) (id : String),
      op.addresses ≠ (table, id) →
        (op.after identity o f).stored table id = f.stored table id) ∧
    (∀ (o : Outside) (op : Operation) (incoming old : AnnotationRecord) (preserveTitle : Bool)
        (row : Row), op.brings = some (Record.annotation incoming, preserveTitle) →
      incoming.title = none → f.stored .annotations incoming.id = some row →
      row.payload = .json (Record.annotation old) →
      ((op.after identity o f).stored .annotations incoming.id = some row ∨
        ∃ new, (op.after identity o f).stored .annotations incoming.id
            = some (Record.annotation new).row ∧
          new.title = if preserveTitle = true then old.title else none) ∧
      ∀ merged t, op.run identity o.alone f = .ok (some merged) t →
        ∃ new, merged = Record.annotation new ∧
          t.stored .annotations incoming.id = some (Record.annotation new).row ∧
          new.title = if preserveTitle = true then old.title else none) := by
  refine ⟨fun ops table id row old hrow hold hlives => ?_, fun o op table id hthere hgone => ?_,
    fun o op table id => stored_after_other,
    fun o op incoming old preserveTitle row hbrings homitted hrow hold =>
      ⟨?_, fun merged t hrun => ?_⟩⟩
  · obtain ⟨row', hrow', new, hnew, htarget, hanchor⟩ :=
      holds_afterAll hrow ⟨old, hold, rfl, rfl⟩ hlives
    exact ⟨row', new, hrow', hnew, htarget, hanchor⟩
  · by_cases hother : op.addresses = (table, id)
    swap
    · rw [stored_after_other hother] at hgone; exact absurd hgone hthere
    have hbrought : ∀ item preserveTitle, op.brings = some (item, preserveTitle) →
        (item.table, item.id) = (table, id) → op = .delete table id := by
      intro item preserveTitle hbrings haddress
      cases haddress
      rcases after_writes identity o f hbrings with hsame | ⟨capture, merged, hwrote⟩
      · exact absurd ((stored_of_same hsame).symm.trans hgone) hthere
      · rw [hwrote.stored_same] at hgone; cases hgone
    cases op with
    | save call => exact hbrought _ _ rfl hother
    | update record preserveTitle =>
        refine hbrought _ _ rfl ?_
        rw [table_withAnchor, id_withAnchor]
        exact hother
    | delete table' id' => cases hother; rfl
  · rcases after_writes identity o f hbrings with hsame | ⟨capture, merged, hwrote⟩
    · exact .inl ((stored_of_same hsame).trans hrow)
    · obtain ⟨new, rfl, htitle⟩ := hwrote.title rfl homitted hrow hold
      exact .inr ⟨new, hwrote.stored_same, htitle⟩
  · have halone : o.alone.meanwhile f = f := rfl
    obtain ⟨capture, hruns⟩ := run_writes identity halone hbrings
    obtain ⟨_, hreturned, hwrote⟩ := hruns.of_ok hrun
    cases hreturned
    obtain ⟨new, rfl, htitle⟩ := hwrote.title rfl homitted hrow hold
    exact ⟨new, rfl, hwrote.stored_same, htitle⟩

/-! ### What is read back -/

theorem stored_afterAll_other {ops : List (Outside × Operation)}
    (hother : ∀ x ∈ ops, x.2.addresses ≠ (table, id)) :
    (Operation.afterAll identity ops f).stored table id = f.stored table id := by
  induction ops generalizing f with
  | nil => rfl
  | cons x ops ih =>
      have hrest := ih (f := x.2.after identity x.1 f) fun y hy => hother y (.tail _ hy)
      exact hrest.trans (stored_after_other (hother x List.mem_cons_self))

/-- **An operation that returned is what is read back**, whatever was done before it, and to
other records after it: the row it saved, or none; one that raised left the row as it was, or
had replaced it by its own merge. -/
theorem acknowledged_read_back (identity : WorkspaceIdentity) (f : Files)
    (earlier later : List (Outside × Operation)) (o : Outside) (op : Operation)
    (hlater : ∀ x ∈ later, x.2.addresses ≠ (table, id)) (haddress : op.addresses = (table, id)) :
    let before := Operation.afterAll identity earlier f
    let stored := (Operation.afterAll identity ((o, op) :: later) before).stored table id
    match op.run identity o.alone before with
    | .ok answer _ => answer ≠ none ∨ Present before → stored = answer.map Record.row
    | .error _ _ => stored = before.stored table id ∨
        ∃ item preserveTitle capture merged, op.brings = some (item, preserveTitle) ∧
          mergeItem (before.rows table) item preserveTitle capture = .ok merged ∧
            stored = some merged.row := by
  intro before stored
  have hstored : stored = (op.after identity o before).stored table id :=
    stored_afterAll_other hlater
  have hruns : Yields (op.run identity o.alone) before
      (fun answer t => answer ≠ none ∨ Present before → t.stored table id = answer.map Record.row)
      fun _ t => t.stored table id = before.stored table id ∨
        ∃ item preserveTitle capture merged, op.brings = some (item, preserveTitle) ∧
          mergeItem (before.rows table) item preserveTitle capture = .ok merged ∧
            t.stored table id = some merged.row := by
    cases hbrings : op.brings with
    | some brought =>
        cases haddress.symm.trans (addresses_of_brings hbrings)
        obtain ⟨capture, hwrites⟩ := run_writes identity (o := o.alone) (f := before) rfl hbrings
        refine hwrites.mono (fun answer t ht _ => ?_) fun _ t ht => ?_
        · obtain ⟨merged, rfl, hwrote⟩ := ht
          exact hwrote.stored_same
        · rcases ht with hsame | ⟨merged, hwrote⟩
          · exact .inl (stored_of_same hsame)
          · exact .inr ⟨_, _, capture, merged, rfl, hwrote.merge, hwrote.stored_same⟩
    | none =>
        rw [eq_delete hbrings, haddress]
        show Yields (DurableRecords.delete o.alone identity table id >>= fun _ => pure none) _ _ _
        rw [yields_bind]
        refine delete_removes.mono (fun _ t ht hpresent => ?_) fun _ t ht =>
          .inl (stored_of_same ht)
        rcases ht with ⟨-, hmissing⟩ | hremoved
        · exact absurd (hpresent.resolve_left fun h => h rfl) hmissing
        · exact hremoved.stored_same
  unfold Operation.after final at hstored
  unfold Yields at hruns
  cases hrun : op.run identity o.alone before <;> rw [hrun] at hruns hstored <;>
    rw [hstored] <;> exact hruns

theorem acknowledged_read_back_sample :
    (Operation.afterAll Sample.identity
      [(Sample.healthy, .save (.saveAnnotationAt Sample.head (Sample.note "first"))),
        (Sample.healthy, .delete .annotations "note-2")] Sample.fresh).stored .annotations "note-1"
      = some (Sample.saved "first").row :=
  acknowledged_read_back Sample.identity Sample.fresh []
    [(Sample.healthy, .delete .annotations "note-2")] Sample.healthy
    (.save (.saveAnnotationAt Sample.head (Sample.note "first"))) (by decide) rfl
    (.inl (Option.some_ne_none _))

end Operations

end Baleyg.Topology
