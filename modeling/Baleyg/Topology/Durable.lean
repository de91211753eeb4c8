/-
The durable records of one workspace.

`workspace.db` is made by the first save and never by anything else.  A save that finds
no record directory takes the exclusive use lock, makes the directory and the database,
and writes the schema, the metadata and the item in one transaction; every other save
opens what it finds and refuses what is not exactly a finished record.

The effects of a call on the file system and on SQLite can each fail for reasons outside
this model, so a call runs against an `Outside` that says which of them do, and where:
`fails` is consulted at every site of the code that can raise.  A transaction that did not
commit leaves the database as it was; `strands` says that SQLite could not take it back,
so that its journal stays beside the database.  `meanwhile` is what other processes do to
the files between the look for a record and the lock a first save takes.
-/
import Baleyg.Topology.Records

namespace Baleyg.Topology

open Fallible (ensure)

/-! ### The files -/

structure IndexPin where
  indexGeneration : String
  indexRevision : Nat
  deriving DecidableEq, Repr

/-- `WorkspaceIdentity`; discovery refuses a root whose spelling is not UTF-8. -/
structure WorkspaceIdentity where
  root : String
  recordId : String
  device : Nat
  inode : Nat
  deriving DecidableEq, Repr

/-- A directory or lock file, and whether it is private to the user. -/
inductive Entry where
  | missing
  | secure
  | insecure
  deriving DecidableEq, Repr

structure KnownRoot where
  path : String
  device : Nat
  inode : Nat
  deriving DecidableEq, Repr

/-- `workspace.db`: its pragmas, the row of `record_metadata` where there is one, whether
the other tables have the columns the code names, and their rows. -/
structure Database where
  journalMode : String
  userVersion : Int
  metadata : Option (Int × String × Int)
  columns : Bool
  knownRoots : List KnownRoot
  views : List Row
  annotations : List Row
  deriving DecidableEq, Repr

namespace Database

def empty : Database := ⟨"delete", 0, none, false, [], [], []⟩

/-- `RECORD_SCHEMA` with its version and metadata row. -/
def created (identity : WorkspaceIdentity) : Database :=
  ⟨"delete", 1, some (1, identity.recordId, 1), true, [], [], []⟩

def rows (d : Database) : RecordTable → List Row
  | .views => d.views
  | .annotations => d.annotations

def withRows (d : Database) : RecordTable → List Row → Database
  | .views, rows => { d with views := rows }
  | .annotations, rows => { d with annotations := rows }

def writeRoot (d : Database) (root : KnownRoot) : Database :=
  { d with
    knownRoots :=
      if d.knownRoots.any (fun known => known.path = root.path) then
        d.knownRoots.map fun known => if known.path = root.path then root else known
      else d.knownRoots ++ [root] }

def writeItem (d : Database) (record : Record) : Database :=
  d.withRows record.table (Topology.writeItem (d.rows record.table) record)

end Database

/-- The database file, and whether a `-wal`, `-shm` or `-journal` stands beside it. -/
structure DatabaseFile where
  secure : Bool
  sidecar : Bool
  content : Database
  deriving DecidableEq, Repr

structure RecordDir where
  secure : Bool
  file : Option DatabaseFile
  deriving DecidableEq, Repr

/-- `<data>`, `<data>/workspaces`, the use lock and the record directory. -/
structure Files where
  data : Entry
  workspaces : Entry
  lock : Entry
  record : Option RecordDir
  deriving DecidableEq, Repr

namespace Files

def file (f : Files) : Option DatabaseFile := f.record.bind RecordDir.file

def mapFile (f : Files) (g : DatabaseFile → DatabaseFile) : Files :=
  { f with record := f.record.map fun dir => { dir with file := dir.file.map g } }

/-- The journal of a transaction that was not taken back. -/
def stranded (f : Files) : Files := f.mapFile fun file => { file with sidecar := true }

def commit (f : Files) (content : Database) : Files :=
  f.mapFile fun file => { file with content := content }

end Files

/-! ### What a call meets -/

/-- The sites that can raise for reasons of their own, those passed more than once
numbered in the order they are passed. -/
inductive Site where
  | identity (n : Nat)
  | overlap (n : Nat)
  | inspect
  | dataTree (n : Nat)
  | syncTree (n : Nat)
  | workspaces (n : Nat)
  | syncData (n : Nat)
  | openLock
  | flock
  | makeDir
  | syncParent
  | createFile
  | openFile
  | connect
  | begin
  | schema
  | write
  | root
  | guard
  | commit
  | sync
  | select
  | evidence
  | savedPin
  | resolve
  | finish
  deriving DecidableEq, Repr

structure Outside where
  fails : Site → Option String
  strands : Bool
  meanwhile : Files → Files
  /-- `selected_anchor_in`, as raw JSON. -/
  capture : Record → Except String RawAnchor
  /-- The revision the index serves. -/
  head : IndexPin

/-- Healthy storage, and nobody else at work. -/
structure Outside.Healthy (o : Outside) : Prop where
  fails : ∀ site, o.fails site = none
  meanwhile : ∀ files, o.meanwhile files = files

abbrev Save := EStateM String Files

def effect (o : Outside) (site : Site) : Save Unit :=
  match o.fails site with
  | none => pure ()
  | some error => throw error

def lift {α : Type} : Except String α → Save α
  | .ok a => pure a
  | .error error => throw error

/-- The body of a transaction: when it raises, nothing of it is committed. -/
def transaction {α : Type} (o : Outside) (body : Save α) : Save α := fun files =>
  match body files with
  | .ok a t => .ok a t
  | .error error t => .error error (if o.strands then t.stranded else t)

/-! ### `DurableRecords` -/

namespace DurableRecords

variable (identity : WorkspaceIdentity) (o : Outside)

def existing : Save Bool := do
  effect o (.identity 0)
  effect o (.overlap 0)
  effect o .inspect
  let files ← get
  if files.data = .missing then pure false
  else do
    ensure (files.data = .secure) "unsafe managed directory"
    if files.workspaces = .missing then pure false
    else do
      ensure (files.workspaces = .secure) "unsafe managed directory"
      match files.record with
      | none => pure false
      | some dir => do
          ensure (dir.secure = true) "unsafe managed directory"
          pure true

def prepareRecords (n : Nat) : Save Unit := do
  effect o (.overlap (n + 1))
  effect o (.dataTree n)
  let files ← get
  ensure (files.data ≠ .insecure) "unsafe managed directory"
  set { files with data := Entry.secure }
  effect o (.syncTree n)
  effect o (.workspaces n)
  let files ← get
  ensure (files.workspaces ≠ .insecure) "unsafe managed directory"
  set { files with workspaces := Entry.secure }
  effect o (.syncData n)

/-- `UseGuard::acquire`, exclusive and nonblocking, which makes a missing lock file. -/
def acquire : Save Unit := do
  effect o .openLock
  let files ← get
  ensure (files.lock ≠ .insecure) "unsafe managed file"
  set { files with lock := Entry.secure }
  effect o .flock

def acquireExisting : Save Unit := do
  let files ← get
  ensure (files.lock ≠ .missing) "No such file or directory (os error 2)"
  effect o .openLock
  ensure (files.lock = .secure) "unsafe managed file"
  effect o .flock

/-- `record_use` of the first save. -/
def recordUse : Save Unit := do
  prepareRecords o 1
  acquire o

def db : Save Database := do
  let files ← get
  match files.file with
  | none => throw "incomplete_record: missing database"
  | some file => do
      effect o .openFile
      ensure (file.secure = true) "unsafe managed file"
      ensure (file.sidecar = false) "incomplete_record: recovery required"
      effect o .connect
      ensure (file.content.journalMode = "delete") "incompatible_record: journal mode"
      ensure (file.content.userVersion ≠ 0) "incomplete_record: schema not committed"
      ensure (file.content.userVersion = 1) "incompatible_record: schema version"
      ensure (file.content.metadata ≠ none) "incomplete_record: metadata"
      ensure (file.content.metadata = some (1, identity.recordId, 1))
        "incomplete_record: metadata mismatch"
      ensure (file.content.columns = true) "no such table or column"
      effect o (.identity 2)
      pure file.content

/-- The statements of a save's transaction, from the merge to the commit. -/
def store (base : Database) (item : Record) (preserveTitle : Bool)
    (capture : Record → Except String (Option RawAnchor)) : Save Record := do
  let merged ← lift (mergeItem (base.rows item.table) item preserveTitle capture)
  effect o .write
  effect o .root
  effect o (.identity 3)
  effect o .guard
  effect o .commit
  modify fun files =>
    files.commit ((base.writeItem merged).writeRoot ⟨identity.root, identity.device, identity.inode⟩)
  pure merged

def saveExisting (item : Record) (preserveTitle : Bool)
    (capture : Record → Except String (Option RawAnchor)) : Save Record := do
  acquireExisting o
  let base ← db identity o
  effect o .begin
  transaction o (store identity o base item preserveTitle capture)

/-- The part of a first save that finds itself first: directory, database, transaction. -/
def saveFirst (item : Record) (preserveTitle : Bool)
    (capture : Record → Except String (Option RawAnchor)) : Save Record := do
  effect o .makeDir
  modify fun files => { files with record := some ⟨true, none⟩ }
  effect o .syncParent
  effect o .createFile
  modify fun files => { files with record := some ⟨true, some ⟨true, false, .empty⟩⟩ }
  effect o .connect
  effect o .begin
  let merged ← transaction o do
    effect o .schema
    store identity o (.created identity) item preserveTitle capture
  effect o .sync
  pure merged

/-- `save_with_first_save_hook`. -/
def saveItem (item : Record) (preserveTitle : Bool)
    (capture : Record → Except String (Option RawAnchor)) : Save Record := do
  let present ← existing o
  if present = false then do
    modify o.meanwhile
    prepareRecords o 0
    recordUse o
    effect o (.identity 1)
    let files ← get
    if files.record.isSome then saveExisting identity o item preserveTitle capture
    else saveFirst identity o item preserveTitle capture
  else saveExisting identity o item preserveTitle capture

/-- `put_view_record` and `put_annotation_record`. -/
def putRecord (record : Record) (preserveTitle : Bool) : Save Record := do
  lift record.validate
  saveItem identity o record preserveTitle fun _ => .ok none

/-- `update_view_record` and `update_annotation_record`. -/
def updateRecord (record : Record) (preserveTitle : Bool) : Save Record := do
  lift record.validate
  saveItem identity o (record.withAnchor none) preserveTitle fun item => some <$> o.capture item

/-- `view_records` and `annotation_records`. -/
def records (table : RecordTable) : Save (List Record) := do
  let present ← existing o
  if present = false then pure []
  else do
    acquireExisting o
    let content ← db identity o
    effect o .select
    effect o (.identity 3)
    effect o .guard
    lift (listRows table (content.rows table))

end DurableRecords

/-! ### The saves of the store -/

def trim (value : String) : String :=
  String.ofList ((value.toList.dropWhile isWhitespace).reverse.dropWhile isWhitespace).reverse

structure AnnotationRequest where
  id : String
  nodeId : String
  body : String
  title : Option String
  deriving DecidableEq, Repr

namespace AnnotationRequest

def base (r : AnnotationRequest) : AnnotationRecord := ⟨r.id, r.nodeId, r.body, none, none⟩

def validate (r : AnnotationRequest) : Except String Unit := do
  r.base.validateBase
  ensure (titleOk r.title) "annotation title must be at most 256 bytes"

/-- The record a request is saved as: a blank title is none. -/
def record (r : AnnotationRequest) : Record :=
  Record.annotation { r.base with title := (r.title.map trim).filter fun title => title ≠ "" }

end AnnotationRequest

/-- The ways to save a record.  A `SavedView` and an `Annotation` are their records
without an anchor, and without a title. -/
inductive SaveCall where
  | putRecord (record : Record) (preserveTitle : Bool)
  | putView (view : SavedViewRecord)
  | putAnnotation ( annotation : AnnotationRecord)
  | saveViewAt (pin : IndexPin) (view : SavedViewRecord)
  | saveAnnotationAt (pin : IndexPin) (request : AnnotationRequest)
  deriving DecidableEq, Repr

namespace SaveCall

variable (identity : WorkspaceIdentity) (o : Outside)

/-- What a save of the store does around the save of its record: the index has to serve
the pin, and the saved record is resolved against it. -/
def atHead (pin : IndexPin) (save : Save Record) : Save Record := do
  effect o .evidence
  effect o .savedPin
  ensure (o.head = pin) "revision conflict: mutation requires head"
  let record ← save
  effect o .resolve
  effect o .finish
  pure record

def run : SaveCall → Save Record
  | putRecord record preserveTitle => DurableRecords.putRecord identity o record preserveTitle
  | putView view => do
      lift view.validateBase
      DurableRecords.putRecord identity o (.view { view with anchor := none }) false
  | putAnnotation annotation => do
      lift annotation.validateBase
      DurableRecords.saveItem identity o
        (Record.annotation { annotation with title := none, anchor := none }) true fun _ => .ok none
  | saveViewAt pin view => do
      lift view.validateBase
      atHead o pin
        (DurableRecords.updateRecord identity o (.view { view with anchor := none }) false)
  | saveAnnotationAt pin request => do
      lift request.validate
      atHead o pin
        (DurableRecords.updateRecord identity o request.record (decide (request.title = none)))

end SaveCall

end Baleyg.Topology
