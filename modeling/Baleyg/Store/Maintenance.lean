/-
Releasing superseded revisions.

Once a superseded revision's grace is over it is released in small transactions.
The first marks it pending.  Each later one moves up to sixty-four of its manifest
rows into the journal of candidates and then cleans the journal: a candidate some
manifest row still selects is crossed off, one with a projection hanging off it
first has that projection journaled, and the others lose their child rows, a batch
of 256 at a time, then their parent row.  When no manifest row and no candidate is
left the revision is marked released.

The grace is measured on the wall clock, which may step either way.  The present is
taken to be no earlier than any stamp, and it must not run ahead of what the
monotonic clock has seen pass in this process.
-/
import Baleyg.Store.Reads
import Mathlib.Data.List.Sort

namespace Baleyg.Store

open Fallible

/-! ### The clock -/

structure Sample where
  wall : Int
  mono : Nat
  deriving DecidableEq, Repr

structure RetentionClock where
  originWall : Int
  originMono : Nat
  deriving DecidableEq, Repr

/-- The largest `i64`. -/
def maxI64 : Int := 9223372036854775807

/-- `saturating_add` where only the upper end can be reached. -/
def saturatingAdd (a b : Int) : Int := min (a + b) maxI64

/-- `now.saturating_sub(900)`, of a stored stamp or a checked reading. -/
def graceStart (now : Int) : Int := now - 900

def retentionClockPlausible (start wall : Int) (elapsed : Nat) : Bool :=
  wall ≤ saturatingAdd (saturatingAdd start (min (elapsed : Int) maxI64)) 5

/-! ### What is released next -/

/-- The `revision_id` a pin is stored under. -/
def revisionKey (pin : IndexPin) : String :=
  "pin:v1:" ++ toString pin.indexGeneration ++ ":" ++ toString pin.indexRevision

/-- `ORDER BY superseded_at, revision_id`. -/
def Supersession.before (s s' : Supersession) : Bool :=
  s.supersededAt < s'.supersededAt
    || (s.supersededAt = s'.supersededAt && revisionKey s.revision < revisionKey s'.revision)

/-- What a maintenance step found to do, and against which head. -/
structure Probe where
  head : IndexPin
  now : Int
  selected : Option IndexPin
  deriving DecidableEq, Repr

namespace Database

variable (db : Database)

/-- The present: the reading, or the latest stamp if that is later. -/
def presentAt (wall : Int) : Int := db.supersessions.foldl (fun t s => max t s.supersededAt) wall

def dueAt (now : Int) : List Supersession :=
  db.supersessions.filter fun s => s.state = .retained ∧ s.supersededAt ≤ graceStart now

/-- The due revisions, if the present can be believed. -/
def dueFor (clock : RetentionClock) (sample : Sample) : List Supersession :=
  if retentionClockPlausible clock.originWall (db.presentAt sample.wall)
      (sample.mono - clock.originMono) then
    db.dueAt (db.presentAt sample.wall)
  else []

/-- A revision being released comes first, then the oldest due one. -/
def probe (clock : RetentionClock) (sample : Sample) : Probe where
  head := db.current
  now := db.presentAt sample.wall
  selected :=
    db.debt.head? <|> (Table.first Supersession.before (db.dueFor clock sample)).map (·.revision)

/-! ### Cleaning up the journal -/

/-- `INSERT OR IGNORE` into a candidate table. -/
def journal (pin : IndexPin) (k : ParentKey) : Database :=
  if ⟨pin, k⟩ ∈ db.candidates then db
  else { db with candidates := db.candidates ++ [⟨pin, k⟩] }

def unjournal (pin : IndexPin) (k : ParentKey) : Database :=
  { db with candidates := db.candidates.filter fun c => ¬ (c.revision = pin ∧ c.parent = k) }

def candidate? (pin : IndexPin) (kind : Kind) : Option String :=
  Table.first (fun id id' => id < id')
    ((db.candidates.filter fun c => c.revision = pin ∧ c.parent.kind = kind).map (·.parent.id))

/-- The least projection hanging off a parent. -/
def dependent? (k : ParentKey) : Option ParentKey :=
  (Table.first (fun p q => p.key.id < q.key.id) (db.parents.filter fun p => p.above = some k)).map
    Parent.key

def deleteLimit : Nat := 256

def isChild (t : ChildTable) (id : String) (r : ChildRow) : Bool :=
  r.table = t ∧ r.owner = id

/-- All of a parent's rows in a table, or the first 256 of them. -/
def deleteChild (t : ChildTable) (id : String) : Database :=
  { db with
    children :=
      if t.selfReferential then db.children.filter fun r => !isChild t id r
      else Table.deleteUpTo (isChild t id) deleteLimit db.children }

/-- How many rows the last DELETE changed. -/
def changedFrom (before : Database) : Nat := before.children.length - db.children.length

/-- The DELETEs of a parent's child tables in order, until one takes a whole batch.
The flag says whether they all ran. -/
def deleteChildren (id : String) : List ChildTable → Database → Database × Bool
  | [], db => (db, true)
  | t :: tables, db =>
      let db' := db.deleteChild t id
      if t.selfReferential = false ∧ db'.changedFrom db = deleteLimit then (db', false)
      else deleteChildren id tables db'

def deleteParent (k : ParentKey) : Database :=
  { db with parents := db.parents.filter fun p => p.key ≠ k }

/-- One candidate of `cleanup_release_candidate`; the flag says whether to go on. -/
def cleanCandidate (pin : IndexPin) (k : ParentKey) : Database × Bool :=
  if db.Selected k then (db.unjournal pin k, true)
  else
    match db.dependent? k with
    | some child => (db.journal pin child, false)
    | none =>
        let emptied := deleteChildren k.id k.kind.children db
        if emptied.2 then ((emptied.1.deleteParent k).unjournal pin k, true)
        else (emptied.1, false)

/-- `cleanup_release_candidate`, with the iterations left. -/
def cleanup (pin : IndexPin) (kind : Kind) : Nat → Database → Database
  | 0, db => db
  | n + 1, db =>
      match db.candidate? pin kind with
      | none => db
      | some id =>
          let cleaned := db.cleanCandidate pin ⟨kind, id⟩
          if cleaned.2 then cleanup pin kind n cleaned.1 else cleaned.1

/-! ### One unit of a release -/

def setState (pin : IndexPin) (old new : Retention) : Database :=
  { db with
    supersessions := db.supersessions.map fun s =>
      if s.revision = pin ∧ s.state = old then { s with state := new } else s }

/-- How many manifest rows, and candidates of a family, a unit takes. -/
def unitLimit : Nat := 64

def releaseEntries (pin : IndexPin) : List ManifestRow :=
  ((db.manifestOf pin).insertionSort fun m m' => m.ordinal ≤ m'.ordinal).take unitLimit

/-- A manifest row leaves, and what it selected becomes a candidate. -/
def releaseEntry (pin : IndexPin) (db : Database) (m : ManifestRow) : Database :=
  let journaled := m.selects.foldl (fun db k => db.journal pin k) db
  { journaled with
    manifest :=
      journaled.manifest.filter fun m' => ¬ (m'.revision = pin ∧ m'.ordinal = m.ordinal) }

/-- The revision is marked released: one input is left of it. -/
def markReleased (pin : IndexPin) : Database :=
  let released := db.setState pin .pending .released
  { released with
    inputs := (released.inputs.filter fun i => i.revision ≠ pin)
      ++ [⟨pin, releasedMarker, releasedPayload⟩]
    debt := released.debt.filter fun p => p ≠ pin }

/-- Nothing is left to release of a revision. -/
def Drained (pin : IndexPin) : Prop :=
  (∀ m ∈ db.manifest, m.revision ≠ pin) ∧ ∀ c ∈ db.candidates, c.revision ≠ pin

instance (pin : IndexPin) : Decidable (db.Drained pin) :=
  inferInstanceAs (Decidable (_ ∧ _))

def cleanAll (pin : IndexPin) : Database :=
  cleanup pin .version unitLimit (cleanup pin .graph unitLimit (cleanup pin .classes unitLimit db))

def continueRelease (pin : IndexPin) : Database :=
  let cleaned := ((db.releaseEntries pin).foldl (releaseEntry pin) db).cleanAll pin
  if cleaned.Drained pin then cleaned.markReleased pin else cleaned

end Database

/-- The unit of a retained revision: it is marked pending. -/
def beginRelease (pin : IndexPin) (now : Int) : Tx Unit := do
  let db ← get
  ensure (∃ s ∈ db.supersessions, s.revision = pin ∧ s.state = .retained
      ∧ s.supersededAt ≤ graceStart now)
    (Failure.message "revision conflict: due revision changed")
  ensure (pin ∉ db.debt) Failure.constraint
  set { db.setState pin .retained .pending with debt := db.debt ++ [pin] }
  insertInput ⟨pin, pendingMarker, pendingPayload⟩

def releaseBy (pin : IndexPin) (now : Int) : Option Retention → Tx Unit
  | none => throw (Failure.message "Query returned no rows")
  | some .retained => beginRelease pin now
  | some .pending => modify fun db => db.continueRelease pin
  | some .released => throw (Failure.message "incompatible_index: invalid pending debt state")

/-- **The transaction of one maintenance unit**, up to COMMIT. -/
def releaseUnit (o : Outside) (head : IndexPin) (now : Int) (pin : IndexPin) : Tx Unit := do
  let db ← get
  ensure (db.current = head) (Failure.message "revision conflict: maintenance head changed")
  ensure (pin ≠ db.current) (Failure.message "revision conflict: maintenance selected head")
  releaseBy pin now (db.stateOf pin)
  checkpoint o .verify
  checkpoint o .priority

/-! ### A maintenance step -/

/-- `MaintenanceOutcome`. -/
inductive Outcome where
  | progress
  | idle
  | deferred
  deriving DecidableEq, Repr

/-- The writer's part of a step. A publication waiting its turn, or contention at
COMMIT, is a deferral and not an error. -/
def runUnit (o : Outside) (p : Probe) (disk : Database) : Except Failure Outcome × Database :=
  match p.selected with
  | none => (.ok .idle, disk)
  | some pin =>
      if o.permits .unit = false then (.ok .deferred, disk)
      else
        match immediate o (releaseUnit o p.head p.now pin) disk with
        | (.ok _, db) => (.ok .progress, db)
        | (.error (.stopped .priority), db) => (.ok .deferred, db)
        | (.error (.stopped .commit), db) => (.ok .deferred, db)
        | (.error e, db) => (.error e, db)

/-- `maintenance_step`, with nothing between its probe and its unit. -/
def maintenanceStep (o : Outside) (clock : RetentionClock) (sample : Sample) (disk : Database) :
    Except Failure Outcome × Database :=
  if o.permits .probe = false then (.ok .deferred, disk)
  else if 0 ≤ sample.wall ∧ sample.wall ≤ maxInteger then
    runUnit o (disk.probe clock sample) disk
  else (.error (.message "invalid_supersession_time"), disk)

/-- `maintain_revisions`: steps until one makes no progress. -/
def maintainRevisions (clock : RetentionClock) (sample : Sample) :
    Nat → Database → Option (Except Failure Outcome × Database)
  | 0, _ => none
  | n + 1, disk =>
      match maintenanceStep .quiet clock sample disk with
      | (.ok .progress, disk') => maintainRevisions clock sample n disk'
      | result => some result

/-! ### Collecting what no manifest selects -/

namespace Database

/-- A parent row of one family that no manifest row selects. -/
def Unreferenced (db : Database) (kind : Kind) (k : ParentKey) : Prop :=
  k.kind = kind ∧ ¬ db.Selected k ∧ ∃ p ∈ db.parents, p.key = k

instance (db : Database) (kind : Kind) (k : ParentKey) : Decidable (db.Unreferenced kind k) :=
  inferInstanceAs (Decidable (_ ∧ _))

/-- The DELETEs of one family: child rows, then parent rows. -/
def collect (kind : Kind) (db : Database) : Database :=
  { db with
    children := db.children.filter fun r => ¬ db.Unreferenced kind r.parent
    parents := db.parents.filter fun p => ¬ db.Unreferenced kind p.key }

end Database

/-- **The transaction of `collect_unreferenced`**, up to COMMIT. -/
def collectBody (o : Outside) : Tx Unit := do
  let db ← get
  match readRevisionFor o db none with
  | .error e => throw e
  | .ok _ =>
      checkpoint o .verify
      let collected := ((db.collect .classes).collect .graph).collect .version
      ensure collected.ForeignKeys
        (Failure.message "incompatible_index: retained reference violates foreign key")
      checkpoint o .reverify
      set collected

end Baleyg.Store
