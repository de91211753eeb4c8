/-
Everybody who uses one private directory.

A task is one call of `open` or of `run`, in whatever process, and it stands between
two of its effects: looking for the marker, making it, making the ledger file, opening
it, beginning and committing a transaction, calling.  Between any two steps any set of
tasks may end, because one failed, was cancelled, or its process was killed, and the
machine may lose power, which loses a directory entry that was not synced as well.

A file is an inode, and a connection keeps the inode it opened whatever happens to the
name.  `Tampers` is what somebody else may do to the ledger file: remove it, cut it
off, or put an empty one in its place.  SQLite holds the pages of a transaction that
has begun, so cutting the file off under it does not give the transaction an empty
ledger; what it writes then is no ledger either.

Two things are remembered that no file holds: `committed`, the tables the last commit
wrote and the inode they went to, and `calls`, the ids under which a call was started.
-/
import Baleyg.Lib.Runs
import Baleyg.Allowance.Tables

namespace Baleyg.Allowance

/-- The file `initialized`; one that was `written` may be lost with the power. -/
inductive Mark where
  | absent
  | written
  | synced
  deriving DecidableEq, Repr

namespace Mark

/-- Opened with `create`. -/
def touch : Mark → Mark
  | .absent => .written
  | mark => mark

/-- After `sync_all` of the file and of its directory. -/
def sync : Mark → Mark
  | .absent => .absent
  | _ => .synced

end Mark

inductive Op (ο : Type) where
  /-- The transaction of `open`, with whether the marker was found. -/
  | bind (initialized : Bool)
  /-- `reserve`, by a run on the handle of a slot. -/
  | reserve (slot : Nat) (request : List UInt8)
  /-- `finish` or `record`, and what is still to be recorded after it. -/
  | record (slot : Nat) (id : String) (outcome : ο) (rest : List ο)

inductive Phase (ρ : Type) where
  | asked
  /-- `connect` opened this inode. -/
  | connected (inode : Nat)
  /-- The binding was read and found right. -/
  | inspected (inode : Nat)
  /-- In an immediate transaction that began on these tables. -/
  | within (inode : Nat) (view : Tables ρ)

/-- How far `open` has come before its operation on the ledger. -/
inductive Stage where
  | called
  /-- `initialize.lock` is held from here on. -/
  | locked
  | looked (initialized : Bool)
  | stamped (initialized : Bool)
  | settled (initialized : Bool)
  deriving DecidableEq, Repr

inductive Point (ρ ο : Type) where
  | unborn
  | opening (b : Binding) (stage : Stage)
  | working (b : Binding) (op : Op ο) (phase : Phase ρ)
  /-- The transaction of `open` is committed, the directory not yet synced. -/
  | closing (b : Binding)
  /-- `open` returned a handle. -/
  | opened (b : Binding)
  | reserved (slot : Nat) (b : Binding) (id : String)
  | started (slot : Nat) (b : Binding) (id : String)
  | ended

namespace Op

variable {ο : Type}

/-- The transaction begins after `connect`, when nothing is read before it. -/
def gate {ρ : Type} (inode : Nat) : Op ο → Phase ρ
  | .record _ _ _ _ => .inspected inode
  | _ => .connected inode

end Op

namespace Point

variable {ρ ο : Type}

/-- A run with these results still to record. -/
def recording (slot : Nat) (b : Binding) (id : String) : List ο → Point ρ ο
  | [] => .ended
  | o :: rest => .working b (.record slot id o rest) .asked

/-- The reservation a run has made and not used. -/
def holding : Point ρ ο → Option String
  | .reserved _ _ id => some id
  | _ => none

/-- The inode and the tables of a transaction that has begun. -/
def view : Point ρ ο → Option (Nat × Tables ρ)
  | .working _ _ (.within i v) => some (i, v)
  | _ => none

end Point

/-- A file that was the ledger at some time. -/
structure Inode (ρ : Type) where
  /-- The tables, `none` for a file that SQLite finds malformed. -/
  content : Option (Tables ρ)
  /-- The task in an immediate transaction. -/
  writer : Option Nat
  /-- The file was cut off since that transaction began. -/
  torn : Bool

def Inode.made {ρ : Type} : Inode ρ := ⟨some .blank, none, false⟩

/-- The directory, the tasks, and what is remembered of them. -/
structure World (ρ ο : Type) where
  marker : Mark
  /-- The inode the ledger's name leads to. -/
  path : Option Nat
  entered : Bool
  disk : Nat → Inode ρ
  made : Nat
  lock : Option Nat
  /-- `cancel_all` was called on the handle of a slot. -/
  halted : Nat → Bool
  tasks : Nat → Point ρ ο
  calls : List String
  committed : Option (Nat × Tables ρ)

namespace World

variable {ρ ο : Type}

/-- An empty directory, and nobody at work. -/
def start : World ρ ο where
  marker := .absent
  path := none
  entered := false
  disk _ := .made
  made := 0
  lock := none
  halted _ := false
  tasks _ := .unborn
  calls := []
  committed := none

def move (w : World ρ ο) (t : Nat) (p : Point ρ ο) : World ρ ο :=
  { w with tasks := Function.update w.tasks t p }

def write (w : World ρ ο) (i : Nat) (n : Inode ρ) : World ρ ο :=
  { w with disk := Function.update w.disk i n }

/-- The transaction of a task is over and this is what was committed. -/
def commit (w : World ρ ο) (t i : Nat) (new : Tables ρ) (content : Option (Tables ρ))
    (p : Point ρ ο) : World ρ ο :=
  { (w.write i { w.disk i with writer := none, content := content }).move t p with
    committed := some (i, new) }

/-- The tables anybody finds who opens the ledger by its name. -/
def ledger (w : World ρ ο) : Option (Tables ρ) := w.path.bind fun i => (w.disk i).content

def paid (K : Ledger ρ ο) (w : World ρ ο) : List String :=
  match w.committed with
  | some (_, v) => K.keys v
  | none => []

end World

variable {ρ ο : Type}

/-- What a transaction that began on `view` and commits `new` leaves in the file. -/
inductive Lands (n : Inode ρ) (view new : Tables ρ) : Option (Tables ρ) → Prop where
  | kept (hsame : new = view) : Lands n view new n.content
  /-- Every page that was not rewritten is still there. -/
  | whole (hpages : n.torn = false ∨ view = .blank) : Lands n view new (some new)
  | spoiled (htorn : n.torn = true) : Lands n view new none

/-- What is left of a file when the tasks of a set have ended. -/
structure Inode.Dropped (S : Nat → Bool) (n n' : Inode ρ) : Prop where
  writer : n'.writer = n.writer.filter fun t => !S t
  torn : n'.torn = n.torn
  content : n'.content = n.content ∨
    ((∃ t, n.writer = some t ∧ S t = true) ∧ n.torn = true ∧ n'.content = none)

/-- **One step of a task, or its end.** -/
inductive Step (K : Ledger ρ ο) : World ρ ο → World ρ ο → Prop where
  -- `open`
  | call {w : World ρ ο} {t : Nat} (b : Binding) (hpoint : w.tasks t = .unborn)
      (hcap : K.least ≤ b.cap ∧ b.cap ≤ K.most) : Step K w (w.move t (.opening b .called))
  | lock {w : World ρ ο} {t : Nat} {b : Binding} (hpoint : w.tasks t = .opening b .called)
      (hfree : w.lock = none) :
      Step K w { w.move t (.opening b .locked) with lock := some t }
  | look {w : World ρ ο} {t : Nat} {b : Binding} (hpoint : w.tasks t = .opening b .locked) :
      Step K w (w.move t (.opening b (.looked (decide (w.marker ≠ .absent)))))
  | stamp {w : World ρ ο} {t : Nat} {b : Binding} {initialized : Bool}
      (hpoint : w.tasks t = .opening b (.looked initialized))
      (hthere : initialized = true → w.marker ≠ .absent) :
      Step K w { w.move t (.opening b (.stamped initialized)) with marker := w.marker.touch }
  | settle {w : World ρ ο} {t : Nat} {b : Binding} {initialized : Bool}
      (hpoint : w.tasks t = .opening b (.stamped initialized)) :
      Step K w { w.move t (.opening b (.settled initialized)) with
        marker := if initialized = true ∧ K.resyncs = false then w.marker else w.marker.sync }
  | find {w : World ρ ο} {t : Nat} {b : Binding} {initialized : Bool}
      (hpoint : w.tasks t = .opening b (.settled initialized)) (hpath : w.path ≠ none) :
      Step K w (w.move t (.working b (.bind initialized) .asked))
  /-- Only an `open` that found no marker makes the file. -/
  | make {w : World ρ ο} {t : Nat} {b : Binding}
      (hpoint : w.tasks t = .opening b (.settled false)) (hpath : w.path = none) :
      Step K w { (w.write w.made .made).move t (.working b (.bind false) .asked) with
        path := some w.made, made := w.made + 1, entered := false }
  -- operations on the ledger
  | connect {w : World ρ ο} {t i : Nat} {b : Binding} {op : Op ο}
      (hpoint : w.tasks t = .working b op .asked) (hpath : w.path = some i)
      (hmarker : K.guarded = true → w.marker ≠ .absent) :
      Step K w (w.move t (.working b op (.connected i)))
  | inspect {w : World ρ ο} {t i slot : Nat} {b : Binding} {id : String} {o : ο} {rest : List ο}
      {v : Tables ρ} (hpoint : w.tasks t = .working b (.record slot id o rest) (.connected i))
      (hview : (w.disk i).content = some v) (hbinding : K.inspect b v = .ok ()) :
      Step K w (w.move t (.working b (.record slot id o rest) (.inspected i)))
  | begin {w : World ρ ο} {t i : Nat} {b : Binding} {op : Op ο} {v : Tables ρ}
      (hpoint : w.tasks t = .working b op (op.gate i)) (hfree : (w.disk i).writer = none)
      (hview : (w.disk i).content = some v) :
      Step K w ((w.write i { w.disk i with writer := some t, torn := false }).move t
        (.working b op (.within i v)))
  | bind {w : World ρ ο} {t i : Nat} {b : Binding} {initialized : Bool} {v new : Tables ρ}
      {content : Option (Tables ρ)}
      (hpoint : w.tasks t = .working b (.bind initialized) (.within i v))
      (hbind : K.bind b initialized v = .ok new) (hlands : Lands (w.disk i) v new content) :
      Step K w (w.commit t i new content (.closing b))
  | reserve {w : World ρ ο} {t i slot : Nat} {b : Binding} {request : List UInt8}
      {v new : Tables ρ} {content : Option (Tables ρ)} (id : String)
      (hpoint : w.tasks t = .working b (.reserve slot request) (.within i v))
      (hreserve : K.reserve b id request v = .ok new)
      (hlands : Lands (w.disk i) v new content) :
      Step K w (w.commit t i new content (.reserved slot b id))
  | record {w : World ρ ο} {t i slot : Nat} {b : Binding} {id : String} {o : ο} {rest : List ο}
      {v new : Tables ρ} {content : Option (Tables ρ)}
      (hpoint : w.tasks t = .working b (.record slot id o rest) (.within i v))
      (hrecord : K.record id o v = .ok new) (hlands : Lands (w.disk i) v new content) :
      Step K w (w.commit t i new content (.recording slot b id rest))
  /-- `open` syncs the directory, returns and lets the lock go. -/
  | finish {w : World ρ ο} {t : Nat} {b : Binding} (hpoint : w.tasks t = .closing b) :
      Step K w { w.move t (.opened b) with lock := none, entered := true }
  -- `run`
  | run {w : World ρ ο} {t slot : Nat} {b : Binding} (request : List UInt8)
      (hpoint : w.tasks t = .unborn) (hhandle : w.tasks slot = .opened b)
      (hrunning : K.halts = true → w.halted slot = false) :
      Step K w (w.move t (.working b (.reserve slot request) .asked))
  /-- The provider is called, or the runner started. -/
  | start {w : World ρ ο} {t slot : Nat} {b : Binding} {id : String}
      (hpoint : w.tasks t = .reserved slot b id)
      (hrunning : K.halts = true → w.halted slot = false) :
      Step K w { w.move t (.started slot b id) with calls := id :: w.calls }
  | receive {w : World ρ ο} {t slot : Nat} {b : Binding} {id : String} (results : List ο)
      (hpoint : w.tasks t = .started slot b id) (hreports : K.reports true results) :
      Step K w (w.move t (.recording slot b id results))
  | skip {w : World ρ ο} {t slot : Nat} {b : Binding} {id : String} (results : List ο)
      (hpoint : w.tasks t = .reserved slot b id) (hreports : K.reports false results) :
      Step K w (w.move t (.recording slot b id results))
  /-- `cancel_all`. -/
  | halt {w : World ρ ο} (slot : Nat) (hhalts : K.halts = true) :
      Step K w { w with halted := Function.update w.halted slot true }
  -- ends
  /-- The tasks of a set end wherever they are, and a transaction is rolled back. -/
  | crash {w : World ρ ο} (S : Nat → Bool) (disk : Nat → Inode ρ)
      (hdisk : ∀ i, (w.disk i).Dropped S (disk i)) :
      Step K w { w with
        tasks := fun t => if S t = true then .ended else w.tasks t
        lock := w.lock.filter fun t => !S t
        disk := disk }
  | powerLoss {w : World ρ ο} (disk : Nat → Inode ρ) (marker : Mark) (path : Option Nat)
      (hdisk : ∀ i, (w.disk i).Dropped (fun _ => true) (disk i))
      (hmarker : marker = w.marker ∨ (w.marker = .written ∧ marker = .absent))
      (hpath : path = w.path ∨ (w.entered = false ∧ path = none)) :
      Step K w { w with
        tasks := fun _ => .ended
        lock := none
        disk := disk
        marker := marker
        path := path }

/-- **What somebody else does to the ledger file.** -/
inductive Tampers : World ρ ο → World ρ ο → Prop where
  | delete {w : World ρ ο} : Tampers w { w with path := none, entered := false }
  | truncate {w : World ρ ο} {i : Nat} (hpath : w.path = some i) :
      Tampers w (w.write i { w.disk i with content := some .blank, torn := true })
  | shorten {w : World ρ ο} {i : Nat} (hpath : w.path = some i) :
      Tampers w (w.write i { w.disk i with content := none, torn := true })
  | replace {w : World ρ ο} :
      Tampers w { w.write w.made .made with
        path := some w.made, made := w.made + 1, entered := false }

/-- A step of the system or of somebody else. -/
def Moves (K : Ledger ρ ο) (w w' : World ρ ο) : Prop := Step K w w' ∨ Tampers w w'

end Baleyg.Allowance
