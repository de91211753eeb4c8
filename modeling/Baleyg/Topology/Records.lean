/-
What a user saves about a workspace: views and annotations.

Both kinds are stored as JSON text.  A text either reads back as the record it was
written from or it does not, so a payload here is the record itself, or a text that is
no record together with the complaint about it; an anchor, which stays raw JSON inside
its record, is treated alike.

A record is checked on its way in, again when its stored predecessor has been merged
into it, and again whenever it is listed.  `validate_merged` is why the second of these
never fails: what a record takes over from its predecessor was checked with it.
-/
import Baleyg.Lib.Fallible
import Mathlib.Algebra.Order.Ring.Rat

namespace Baleyg.Topology

open Fallible (ensure bind_eq_ok ensure_eq_ok forM_eq_ok mapM_returns mem_of_mapM_eq_ok
  exists_of_mapM_eq_ok)

/-! ### Text -/

/-- `char::is_whitespace`: the `White_Space` characters. -/
def isWhitespace (c : Char) : Bool :=
  let n := c.toNat
  (9 ≤ n && n ≤ 13) || n == 0x20 || n == 0x85 || n == 0xA0 || n == 0x1680 ||
    (0x2000 ≤ n && n ≤ 0x200A) || n == 0x2028 || n == 0x2029 || n == 0x202F || n == 0x205F ||
    n == 0x3000

/-- `value.trim().is_empty()`. -/
def blank (value : String) : Bool := value.toList.all isWhitespace

def isLowerHex (c : Char) : Bool := ('0' ≤ c && c ≤ '9') || ('a' ≤ c && c ≤ 'f')

def validateRecordId (id : String) : Except String Unit :=
  ensure (id ≠ "" ∧ id.utf8ByteSize ≤ 128 ∧
      id.toList.all (fun c => c.isAlphanum || c == '.' || c == '_' || c == '-') = true)
    "id must contain 1..128 ASCII letters, digits, '.', '_' or '-'"

/-! ### Anchors -/

structure DocumentKey where
  sourceSetId : String
  language : String
  path : String
  deriving DecidableEq, Repr

structure DurableAnchor where
  syntaxId : String
  document : DocumentKey
  capturedRevisionId : String
  headerHash : String
  siblingGroupHash : String
  siblingCount : Nat
  identicalHeaderCount : Nat
  deriving DecidableEq, Repr

namespace DurableAnchor

def isHash (value : String) : Bool := value.utf8ByteSize == 64 && value.toList.all isLowerHex

def pathOk (path : String) : Prop :=
  path ≠ "" ∧ path.toList.head? ≠ some '/' ∧ '\\' ∉ path.toList ∧ '\x00' ∉ path.toList ∧
    ∀ part ∈ path.toList.splitOn '/', part ≠ [] ∧ part ≠ ['.'] ∧ part ≠ ['.', '.']

instance (path : String) : Decidable (pathOk path) := inferInstanceAs (Decidable (_ ∧ _))

def validate (a : DurableAnchor) : Except String Unit := do
  ensure (a.syntaxId.utf8ByteSize = 39 ∧ a.syntaxId.toList.take 7 = "sid:v1:".toList ∧
      (a.syntaxId.toList.drop 7).all isLowerHex = true)
    "invalid durable anchor syntaxId"
  ensure (a.document.sourceSetId ≠ "" ∧ a.capturedRevisionId ≠ "")
    "invalid durable anchor document/revision"
  ensure (a.document.language ∈ ["java", "rust", "python", "javascript"])
    "invalid durable anchor document language"
  ensure (pathOk a.document.path) "invalid durable anchor document path"
  ensure (isHash a.headerHash = true ∧ isHash a.siblingGroupHash = true)
    "invalid durable anchor hash"
  ensure (0 < a.siblingCount ∧ 0 < a.identicalHeaderCount ∧
      a.identicalHeaderCount ≤ a.siblingCount)
    "invalid durable anchor counts"

end DurableAnchor

/-- The raw JSON of an anchor: it reads as an anchor, or serde complains. -/
inductive RawAnchor where
  | json (anchor : DurableAnchor)
  | other (complaint : String)
  deriving DecidableEq, Repr

/-- `typed_anchor` of either record. -/
def typedAnchor : Option RawAnchor → Except String (Option DurableAnchor)
  | none => pure none
  | some (.other complaint) => throw complaint
  | some (.json anchor) => do
      anchor.validate
      pure (some anchor)

/-! ### The two kinds of record -/

structure ViewQuery where
  seed : String
  depth : Nat
  maxNodes : Nat
  maxCalls : Nat
  includeCallbacks : Bool
  excludePaths : List String
  deriving DecidableEq, Repr

def ViewQuery.validate (q : ViewQuery) : Except String Unit := do
  ensure (q.seed ≠ "" ∧ q.seed.utf8ByteSize ≤ 8192) "seed must contain 1..8192 bytes"
  ensure (q.depth ≤ 5) "depth must be at most 5"
  ensure (1 ≤ q.maxNodes ∧ q.maxNodes ≤ 150) "maxNodes must be 1..150"
  ensure (1 ≤ q.maxCalls ∧ q.maxCalls ≤ 500) "maxCalls must be 1..500"
  ensure (q.excludePaths.length ≤ 100 ∧ ∀ path ∈ q.excludePaths, path.utf8ByteSize ≤ 1024)
    "too many or oversized excluded path prefixes"

/-- A finite coordinate, or none of an infinity or NaN. -/
structure Position where
  x : Option Rat
  y : Option Rat
  deriving DecidableEq, Repr

def inReach (coordinate : Option Rat) : Prop := ∃ v ∈ coordinate, -10000000 ≤ v ∧ v ≤ 10000000

instance (coordinate : Option Rat) : Decidable (inReach coordinate) :=
  inferInstanceAs (Decidable (∃ v ∈ coordinate, _))

/-- `SavedViewRecord`, whose base is a `SavedView`. -/
structure SavedViewRecord where
  id : String
  title : String
  query : ViewQuery
  pins : List (String × Position)
  hidden : List String
  anchor : Option RawAnchor
  deriving DecidableEq, Repr

/-- `SavedView::validate`. -/
def SavedViewRecord.validateBase (r : SavedViewRecord) : Except String Unit := do
  validateRecordId r.id
  ensure (blank r.title = false ∧ r.title.utf8ByteSize ≤ 256) "title must contain 1..256 bytes"
  r.query.validate
  ensure (r.pins.length ≤ 150 ∧ r.hidden.length ≤ 150) "at most 150 pins/hidden symbols"
  ensure (∀ pin ∈ r.pins, pin.1 ≠ "" ∧ pin.1.utf8ByteSize ≤ 8192 ∧ inReach pin.2.x ∧
      inReach pin.2.y)
    "invalid pin"
  ensure (∀ symbol ∈ r.hidden, symbol ≠ "" ∧ symbol.utf8ByteSize ≤ 8192) "invalid hidden symbol"

/-- `AnnotationRecord`, whose base is an `Annotation`. -/
structure AnnotationRecord where
  id : String
  nodeId : String
  body : String
  title : Option String
  anchor : Option RawAnchor
  deriving DecidableEq, Repr

/-- `Annotation::validate`. -/
def AnnotationRecord.validateBase (r : AnnotationRecord) : Except String Unit := do
  validateRecordId r.id
  ensure (r.nodeId ≠ "" ∧ r.nodeId.utf8ByteSize ≤ 8192) "invalid nodeId"
  ensure (blank r.body = false ∧ r.body.utf8ByteSize ≤ 65536)
    "annotation body must contain 1..65536 bytes"

def titleOk (title : Option String) : Prop := ∀ t ∈ title, t.utf8ByteSize ≤ 256

instance (title : Option String) : Decidable (titleOk title) :=
  inferInstanceAs (Decidable (∀ t ∈ title, _))

inductive RecordTable where
  | views
  | annotations
  deriving DecidableEq, Repr

inductive Record where
  | view (r : SavedViewRecord)
  | annotation (r : AnnotationRecord)
  deriving DecidableEq, Repr

namespace Record

def table : Record → RecordTable
  | view _ => .views
  | annotation _ => .annotations

def id : Record → String
  | view r => r.id
  | annotation r => r.id

def anchor : Record → Option RawAnchor
  | view r => r.anchor
  | annotation r => r.anchor

def target : Record → String
  | view r => r.query.seed
  | annotation r => r.nodeId

/-- The `node_id` column, of annotations only. -/
def node : Record → Option String
  | view _ => none
  | annotation r => some r.nodeId

def withAnchor : Record → Option RawAnchor → Record
  | view r, anchor => view { r with anchor := anchor }
  | annotation r, anchor => annotation { r with anchor := anchor }

/-- `SavedViewRecord::validate` and `AnnotationRecord::validate`. -/
def validate : Record → Except String Unit
  | view r => do
      r.validateBase
      let _ ← typedAnchor r.anchor
      pure ()
  | annotation r => do
      r.validateBase
      ensure (titleOk r.title) "annotation title must be at most 256 bytes"
      let _ ← typedAnchor r.anchor
      pure ()

/-- What an edit keeps of the stored record: its anchor, and the title of an annotation
whose edit says nothing of it. -/
def inherit (preserveTitle : Bool) : Record → Record → Record
  | annotation old, annotation new =>
      annotation
        { new with
          anchor := old.anchor
          title := if preserveTitle = true ∧ new.title = none then old.title else new.title }
  | old, new => new.withAnchor old.anchor

def replaced : Record → String
  | view _ => "saved view target replacement is not allowed"
  | annotation _ => "saved annotation target replacement is not allowed"

end Record

/-! ### Records whose parts are valid -/

section Valid

variable {record old new : Record} {preserveTitle : Bool} {anchor : Option RawAnchor}

def Record.validateRest : Record → Except String Unit
  | .view r => r.validateBase
  | Record.annotation r => do
      r.validateBase
      ensure (titleOk r.title) "annotation title must be at most 256 bytes"

theorem validate_eq_ok {u : Unit} :
    record.validate = .ok u
      ↔ record.validateRest = .ok () ∧ ∃ typed, typedAnchor record.anchor = .ok typed := by
  cases record with
  | view r =>
      show (r.validateBase >>= fun _ => typedAnchor r.anchor >>= fun _ => pure ()) = .ok u ↔ _
      rw [bind_eq_ok]
      constructor
      · rintro ⟨_, hbase, h⟩
        obtain ⟨typed, htyped, -⟩ := bind_eq_ok.mp h
        exact ⟨hbase, typed, htyped⟩
      · rintro ⟨hbase, typed, htyped⟩
        exact ⟨(), hbase, bind_eq_ok.mpr ⟨typed, htyped, rfl⟩⟩
  | annotation r =>
      show (r.validateBase >>= fun _ => ensure (titleOk r.title) _ >>= fun _ =>
        typedAnchor r.anchor >>= fun _ => pure ()) = .ok u ↔ _
      rw [bind_eq_ok]
      constructor
      · rintro ⟨_, hbase, h⟩
        obtain ⟨_, htitle, h⟩ := bind_eq_ok.mp h
        obtain ⟨typed, htyped, -⟩ := bind_eq_ok.mp h
        exact ⟨bind_eq_ok.mpr ⟨(), hbase, htitle⟩, typed, htyped⟩
      · rintro ⟨hrest, typed, htyped⟩
        obtain ⟨_, hbase, htitle⟩ := bind_eq_ok.mp hrest
        exact ⟨(), hbase, bind_eq_ok.mpr ⟨(), htitle, bind_eq_ok.mpr ⟨typed, htyped, rfl⟩⟩⟩

theorem validate_withAnchor (hnew : new.validate = .ok ())
    (hanchor : ∃ typed, typedAnchor anchor = .ok typed) :
    (new.withAnchor anchor).validate = .ok () := by
  rw [validate_eq_ok] at hnew ⊢
  cases new with
  | view | annotation => exact ⟨hnew.1, hanchor⟩

/-- **What a record takes over from a checked one passes the check.** -/
theorem validate_inherit (hold : old.validate = .ok ()) (hnew : new.validate = .ok ()) :
    (old.inherit preserveTitle new).validate = .ok () := by
  have hanchor := (validate_eq_ok.mp hold).2
  cases old with
  | view o =>
      cases new with
      | view | annotation => exact validate_withAnchor hnew hanchor
  | annotation o =>
      cases new with
      | view n => exact validate_withAnchor hnew hanchor
      | annotation n =>
          obtain ⟨_, -, hold⟩ := bind_eq_ok.mp (validate_eq_ok.mp hold).1
          obtain ⟨_, hbase, hnew⟩ := bind_eq_ok.mp (validate_eq_ok.mp hnew).1
          refine validate_eq_ok.mpr ⟨bind_eq_ok.mpr ⟨(), hbase, ensure_eq_ok.mpr ?_⟩, hanchor⟩
          show titleOk (if preserveTitle = true ∧ n.title = none then o.title else n.title)
          split
          · exact ensure_eq_ok.mp hold
          · exact ensure_eq_ok.mp hnew

@[simp] theorem table_withAnchor : (new.withAnchor anchor).table = new.table := by
  cases new <;> rfl

@[simp] theorem id_withAnchor : (new.withAnchor anchor).id = new.id := by
  cases new <;> rfl

@[simp] theorem table_inherit : (old.inherit preserveTitle new).table = new.table := by
  cases old <;> cases new <;> rfl

@[simp] theorem id_inherit : (old.inherit preserveTitle new).id = new.id := by
  cases old <;> cases new <;> rfl

end Valid

/-! ### Stored records -/

/-- The text of a payload column: a record, or no record at all. -/
inductive Payload where
  | json (record : Record)
  | text (complaint : String)
  deriving DecidableEq, Repr

/-- `serde_json::from_str` at the type of a table's records. -/
def Payload.parse (table : RecordTable) : Payload → Except String Record
  | json record =>
      if record.table = table then pure record else throw "unknown or missing field"
  | text complaint => throw complaint

/-- A row is kept under the id of its record. -/
structure Row where
  id : String
  node : Option String
  payload : Payload
  keyed : ∀ record, payload = .json record → record.id = id
  deriving DecidableEq, Repr

def Record.row (record : Record) : Row where
  id := record.id
  node := record.node
  payload := .json record
  keyed := by
    intro other h
    cases h
    rfl

/-- A row read back as the checked record it holds. -/
def Row.record (table : RecordTable) (row : Row) : Except String Record := do
  let record ← row.payload.parse table
  record.validate
  pure record

/-- The incoming record with what the stored one hands on, or with a captured anchor. -/
def mergeStored (rows : List Row) (incoming : Record) (preserveTitle : Bool)
    (capture : Record → Except String (Option RawAnchor)) : Except String Record :=
  match rows.find? fun row => row.id = incoming.id with
  | some row => do
      let old ← row.record incoming.table
      ensure (old.target = incoming.target) incoming.replaced
      pure (old.inherit preserveTitle incoming)
  | none =>
      if incoming.anchor = none then do
        let anchor ← capture incoming
        pure (incoming.withAnchor anchor)
      else pure incoming

/-- `merge_item`: the record to store in place of the incoming one. -/
def mergeItem (rows : List Row) (incoming : Record) (preserveTitle : Bool)
    (capture : Record → Except String (Option RawAnchor)) : Except String Record := do
  incoming.validate
  let merged ← mergeStored rows incoming preserveTitle capture
  merged.validate
  pure merged

/-- `write_item`: insert, or update the row of that id. -/
def writeItem (rows : List Row) (record : Record) : List Row :=
  if rows.any (fun row => row.id = record.id) then
    rows.map fun row => if row.id = record.id then record.row else row
  else rows ++ [record.row]

/-- `view_records` and `annotation_records`, of the rows of their table. -/
def listRows (table : RecordTable) (rows : List Row) : Except String (List Record) := do
  let records ← (rows.mergeSort fun a b => a.id ≤ b.id).mapM fun row => row.payload.parse table
  records.forM Record.validate
  pure records

section Rows

variable {rows : List Row} {row : Row} {table : RecordTable} {record old incoming : Record}
  {records : List Record} {preserveTitle : Bool}
  {capture : Record → Except String (Option RawAnchor)}

theorem record_eq_ok :
    row.record table = .ok record
      ↔ row.payload.parse table = .ok record ∧ record.validate = .ok () := by
  unfold Row.record
  rw [bind_eq_ok]
  constructor
  · rintro ⟨r, hparse, h⟩
    obtain ⟨_, hvalid, h⟩ := bind_eq_ok.mp h
    cases h
    exact ⟨hparse, hvalid⟩
  · rintro ⟨hparse, hvalid⟩
    exact ⟨record, hparse, bind_eq_ok.mpr ⟨(), hvalid, rfl⟩⟩

theorem parse_eq_ok {payload : Payload} (h : payload.parse table = .ok record) :
    payload = .json record ∧ record.table = table := by
  cases payload with
  | text complaint => cases h
  | json r =>
      unfold Payload.parse at h
      by_cases htable : r.table = table
      · simp only [if_pos htable] at h
        cases h
        exact ⟨rfl, htable⟩
      · simp only [if_neg htable] at h
        cases h

theorem id_of_record (h : row.record table = .ok record) : record.id = row.id :=
  row.keyed record (parse_eq_ok (record_eq_ok.mp h).1).1

theorem record_row (h : record.validate = .ok ()) :
    record.row.record record.table = .ok record :=
  record_eq_ok.mpr ⟨if_pos rfl, h⟩

/-- **A table is listed exactly when each of its rows reads back.** -/
theorem listRows_iff :
    (∃ records, listRows table rows = .ok records)
      ↔ ∀ row ∈ rows, ∃ record, row.record table = .ok record := by
  constructor
  · rintro ⟨records, h⟩ row hrow
    obtain ⟨parsed, hparsed, h⟩ := bind_eq_ok.mp h
    obtain ⟨_, hvalid, -⟩ := bind_eq_ok.mp h
    obtain ⟨record, hrecord, hparse⟩ :=
      exists_of_mapM_eq_ok hparsed (List.mem_mergeSort.mpr hrow)
    exact ⟨record, record_eq_ok.mpr ⟨hparse, forM_eq_ok.mp hvalid record hrecord⟩⟩
  · intro h
    have hparses : ∀ row ∈ rows.mergeSort fun a b => a.id ≤ b.id,
        ∃ record, row.payload.parse table = .ok record := fun row hrow => by
      obtain ⟨record, hrecord⟩ := h row (List.mem_mergeSort.mp hrow)
      exact ⟨record, (record_eq_ok.mp hrecord).1⟩
    obtain ⟨parsed, hparsed⟩ := mapM_returns hparses
    refine ⟨parsed, bind_eq_ok.mpr ⟨parsed, hparsed, bind_eq_ok.mpr ⟨⟨⟩, ?_, rfl⟩⟩⟩
    refine forM_eq_ok.mpr fun record hrecord => ?_
    obtain ⟨row, hrow, hparse⟩ := mem_of_mapM_eq_ok hparsed hrecord
    obtain ⟨other, hother⟩ := h row (List.mem_mergeSort.mp hrow)
    have heq : other = record := by
      have hboth := (record_eq_ok.mp hother).1.symm.trans hparse
      cases hboth
      rfl
    exact heq ▸ (record_eq_ok.mp hother).2

theorem mem_listRows (h : listRows table rows = .ok records) :
    record ∈ records ↔ ∃ row ∈ rows, row.record table = .ok record := by
  obtain ⟨parsed, hparsed, h⟩ := bind_eq_ok.mp h
  obtain ⟨_, hvalid, h⟩ := bind_eq_ok.mp h
  cases h
  constructor
  · intro hrecord
    obtain ⟨row, hrow, hparse⟩ := mem_of_mapM_eq_ok hparsed hrecord
    exact ⟨row, List.mem_mergeSort.mp hrow,
      record_eq_ok.mpr ⟨hparse, forM_eq_ok.mp hvalid record hrecord⟩⟩
  · rintro ⟨row, hrow, hrecord⟩
    obtain ⟨other, hother, hparse⟩ := exists_of_mapM_eq_ok hparsed (List.mem_mergeSort.mpr hrow)
    have hboth := (record_eq_ok.mp hrecord).1.symm.trans hparse
    cases hboth
    exact hother

/-! ### What a merge stores -/

theorem mergeItem_spec (h : mergeItem rows incoming preserveTitle capture = .ok record) :
    record.validate = .ok () ∧ record.table = incoming.table ∧ record.id = incoming.id := by
  obtain ⟨_, -, h⟩ := bind_eq_ok.mp h
  obtain ⟨merged, hmerged, h⟩ := bind_eq_ok.mp h
  obtain ⟨_, hvalid, h⟩ := bind_eq_ok.mp h
  cases h
  refine ⟨hvalid, ?_⟩
  unfold mergeStored at hmerged
  cases hfind : rows.find? fun row => row.id = incoming.id with
  | some row =>
      simp only [hfind] at hmerged
      obtain ⟨old, -, hmerged⟩ := bind_eq_ok.mp hmerged
      obtain ⟨_, -, hmerged⟩ := bind_eq_ok.mp hmerged
      cases hmerged
      exact ⟨table_inherit, id_inherit⟩
  | none =>
      simp only [hfind] at hmerged
      split at hmerged
      · obtain ⟨anchor, -, hmerged⟩ := bind_eq_ok.mp hmerged
        cases hmerged
        exact ⟨table_withAnchor, id_withAnchor⟩
      · cases hmerged; exact ⟨rfl, rfl⟩

/-- What a save has to bring: a valid record, a readable predecessor about the same
target, and without a predecessor an anchor to attach it by. -/
structure Acceptable (rows : List Row) (incoming : Record)
    (capture : Record → Except String (Option RawAnchor)) : Prop where
  valid : incoming.validate = .ok ()
  predecessor : ∀ row ∈ rows, row.id = incoming.id →
    ∃ old, row.record incoming.table = .ok old ∧ old.target = incoming.target
  captures : (∀ row ∈ rows, row.id ≠ incoming.id) → incoming.anchor = none →
    ∃ anchor, capture incoming = .ok anchor ∧ ∃ typed, typedAnchor anchor = .ok typed

/-- **An acceptable record is merged.** -/
theorem mergeItem_returns (h : Acceptable rows incoming capture) :
    ∃ record, mergeItem rows incoming preserveTitle capture = .ok record := by
  suffices hmerged : ∃ merged, merged.validate = .ok () ∧
      mergeStored rows incoming preserveTitle capture = .ok merged by
    obtain ⟨merged, hvalid, hmerged⟩ := hmerged
    exact ⟨merged, bind_eq_ok.mpr ⟨(), h.valid, bind_eq_ok.mpr ⟨merged, hmerged,
      bind_eq_ok.mpr ⟨(), hvalid, rfl⟩⟩⟩⟩
  unfold mergeStored
  cases hfind : rows.find? fun row => row.id = incoming.id with
  | some row =>
      have hrow : row ∈ rows := List.mem_of_find?_eq_some hfind
      have hid : row.id = incoming.id := by
        have hpred := List.find?_some hfind
        exact of_decide_eq_true hpred
      obtain ⟨old, hold, htarget⟩ := h.predecessor row hrow hid
      refine ⟨old.inherit preserveTitle incoming,
        validate_inherit (record_eq_ok.mp hold).2 h.valid, ?_⟩
      exact bind_eq_ok.mpr ⟨old, hold, bind_eq_ok.mpr ⟨(), ensure_eq_ok.mpr htarget, rfl⟩⟩
  | none =>
      have hfree : ∀ row ∈ rows, row.id ≠ incoming.id := fun row hrow hid =>
        List.find?_eq_none.mp hfind row hrow (decide_eq_true hid)
      by_cases hanchor : incoming.anchor = none
      · obtain ⟨anchor, hcapture, htyped⟩ := h.captures hfree hanchor
        refine ⟨incoming.withAnchor anchor, validate_withAnchor h.valid htyped, ?_⟩
        simp only [if_pos hanchor]
        exact bind_eq_ok.mpr ⟨anchor, hcapture, rfl⟩
      · refine ⟨incoming, h.valid, ?_⟩
        simp only [if_neg hanchor]
        rfl

/-! ### What a written row leaves readable -/

theorem mem_writeItem :
    row ∈ writeItem rows record ↔ row = record.row ∨ row ∈ rows ∧ row.id ≠ record.id := by
  unfold writeItem
  split
  · rename_i hany
    rw [List.any_eq_true] at hany
    rw [List.mem_map]
    constructor
    · rintro ⟨old, hold, rfl⟩
      split
      · exact .inl rfl
      · rename_i hid
        exact .inr ⟨hold, hid⟩
    · rintro (rfl | ⟨hrow, hid⟩)
      · obtain ⟨old, hold, hid⟩ := hany
        exact ⟨old, hold, if_pos (of_decide_eq_true hid)⟩
      · exact ⟨row, hrow, if_neg hid⟩
  · rename_i hany
    rw [List.mem_append, List.mem_singleton]
    constructor
    · rintro (hrow | rfl)
      · refine .inr ⟨hrow, fun hid => hany ?_⟩
        exact List.any_eq_true.mpr ⟨row, hrow, decide_eq_true hid⟩
      · exact .inl rfl
    · rintro (rfl | ⟨hrow, -⟩)
      · exact .inr rfl
      · exact .inl hrow

/-- **A write leaves a listed table listed.** -/
theorem listRows_writeItem (h : ∃ records, listRows record.table rows = .ok records)
    (hvalid : record.validate = .ok ()) :
    ∃ records, listRows record.table (writeItem rows record) = .ok records := by
  rw [listRows_iff] at h ⊢
  intro row hrow
  rcases mem_writeItem.mp hrow with rfl | ⟨hrow, -⟩
  · exact ⟨record, record_row hvalid⟩
  · exact h row hrow

end Rows

end Baleyg.Topology
