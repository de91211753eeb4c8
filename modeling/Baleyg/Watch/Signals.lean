/-
The signals between the watcher's callbacks and the leader's stream.

A callback that keeps an event counts it in `generation`, then sends it, and when the
channel is full raises `overflow`.  The leader drains the channel into `pending`, at
most 256 events at a time, and reads the counter last.  So the counter runs ahead of
what a batch carries, and an acknowledgement goes by the counter: a batch is cleared
only when the counter has not moved since the batch was taken.

The counter is a `Nat`: no process lives to count `2 ^ 64` events.
-/
import Baleyg.Watch.Events

namespace Baleyg.Watch

def maxDirtyPaths : Nat := 256

/-- Milliseconds of quiet that close a burst. -/
def quiet : Nat := 75

/-- The longest a burst keeps its first signal waiting. -/
def maxWait : Nat := 250

structure DirtyBatch where
  generation : Nat
  full : Bool
  paths : Finset Path
  deriving DecidableEq

/-- What travels through the channel; an error of the backend carries no event. -/
structure Signal where
  event : Option Event
  receivedAt : Nat
  deriving DecidableEq, Repr

structure WatchSignals where
  root : Path
  capturedInputs : List Path
  executable : Option Path
  watcher : Bool
  channel : List Signal
  generation : Nat
  overflow : Bool
  pending : DirtyBatch
  acknowledgedGeneration : Nat
  firstSignal : Option Nat
  lastSignal : Option Nat
  urgent : Bool
  degraded : Bool
  deriving DecidableEq

namespace WatchSignals

/-- `construct`; `native` asks for a watcher of the operating system, and `registered`
is whether it gave one. -/
def construct (root : Path) (scipPath manifestPath : Option Path) (executable : Option Path)
    (native registered : Bool) : WatchSignals where
  root := root
  capturedInputs := ([scipPath, manifestPath].filterMap id).map root.join
  executable := executable
  watcher := native && registered
  channel := []
  generation := 1
  overflow := false
  pending := ⟨1, true, ∅⟩
  acknowledgedGeneration := 0
  firstSignal := none
  lastSignal := none
  urgent := true
  degraded := native && !(native && registered)

/-! ### The ingress -/

/-- The event is counted; an error of the backend always is. -/
def accepts (w : WatchSignals) (files : Files) : Option Event → Bool
  | none => true
  | some event =>
      !(readOnly event.kind
        || certainlyExcluded files event w.root w.capturedInputs w.executable)

/-- The counter's step of `submit`. -/
def count (w : WatchSignals) : WatchSignals := { w with generation := w.generation + 1 }

def hasRoom (w : WatchSignals) : Prop := w.channel.length < maxDirtyPaths * 4

instance (w : WatchSignals) : Decidable w.hasRoom := inferInstanceAs (Decidable (_ < _))

def send (w : WatchSignals) (signal : Signal) : WatchSignals :=
  { w with channel := w.channel ++ [signal] }

def raise (w : WatchSignals) : WatchSignals := { w with overflow := true }

/-! ### The leader's own fields -/

def markFull (w : WatchSignals) : WatchSignals :=
  { w with pending := { w.pending with full := true } }

/-- Only a full inventory will do, and at once. -/
def markUrgent (w : WatchSignals) : WatchSignals :=
  { w with pending := { w.pending with full := true }, urgent := true }

/-- `fail`: the backend lost its events. -/
def fail (w : WatchSignals) : WatchSignals :=
  { w.markUrgent with degraded := true, watcher := false }

def requireFull (w : WatchSignals) : WatchSignals := w.count.markUrgent

/-- The path joins the batch; a batch of too many paths keeps none of them. -/
def addPath (w : WatchSignals) (relative : Path) : WatchSignals :=
  let paths := insert relative w.pending.paths
  if maxDirtyPaths < paths.card then
    { w with pending := { w.pending with full := true, paths := ∅ }, urgent := true }
  else { w with pending := { w.pending with paths := paths } }

/-- What `record` does with a path of an event, once it is known where below the root it
lies. -/
def recordRelative (files : Files) (w : WatchSignals) : Option Path → WatchSignals
  | none => w.markFull
  | some relative =>
      if relative.any fun part => !part.isNormal then w.markFull
      else
        (if relevantInput relative || !source relative || !safeRegular files w.root relative
          then w.markFull else w).addPath relative

/-- One path of an event in `record`. -/
def recordPath (files : Files) (w : WatchSignals) (path : Path) : WatchSignals :=
  recordRelative files
    (if w.capturedInputs.contains (w.root.join path) then w.markFull else w)
    (w.root.below (w.root.join path))

/-- The kinds of events whose paths do not say what to look at. -/
def wantsInventory : EventKind → Bool
  | .create => true
  | .remove => true
  | .access _ => true
  | .modify (.metadata _) => true
  | _ => false

def record (w : WatchSignals) (files : Files) (event : Event) (receivedAt : Nat) :
    WatchSignals :=
  let w := { w with
    firstSignal := some (w.firstSignal.getD receivedAt), lastSignal := some receivedAt }
  let w := if event.paths.isEmpty || event.kind == .any || event.kind == .other
    then w.markUrgent else w
  -- A rename that names one endpoint leaves the other to be found.
  let w := if event.kind == .modify .name && event.paths.length != 2 then w.markFull else w
  let w := if wantsInventory event.kind then w.markFull else w
  event.paths.foldl (recordPath files) w

/-- `observe_event`, of an event that is kept. -/
def observeEvent (w : WatchSignals) (files : Files) (event : Event) (now : Nat) : WatchSignals :=
  w.count.record files event now

/-! ### The drain and the acknowledgement, access by access -/

/-- A reception of the drain; the channel never closes, since the leader holds a sender. -/
def receive (w : WatchSignals) (files : Files) (signal : Signal) (rest : List Signal) :
    WatchSignals :=
  let w := { w with channel := rest }
  match signal.event with
  | some event => w.record files event signal.receivedAt
  | none => w.fail

def takeOverflow (w : WatchSignals) : WatchSignals :=
  let cleared := { w with overflow := false }
  if w.overflow then cleared.markUrgent else cleared

/-- The counter's load, which ends a drain. -/
def loadGeneration (w : WatchSignals) : WatchSignals :=
  let loaded := { w with pending := { w.pending with generation := w.generation } }
  if w.degraded then loaded.markUrgent else loaded

/-- `acknowledge` goes on after its drain. -/
def accounts (w : WatchSignals) (batch : DirtyBatch) : Prop :=
  w.pending.generation = batch.generation ∧ (w.pending.full = true → batch.full = true) ∧
    w.generation = batch.generation

instance (w : WatchSignals) (batch : DirtyBatch) : Decidable (w.accounts batch) :=
  inferInstanceAs (Decidable (_ ∧ _ ∧ _))

/-- What `acknowledge` clears. -/
def clear (w : WatchSignals) : WatchSignals :=
  { w with
    pending := { w.pending with paths := ∅, full := w.degraded }
    firstSignal := none
    lastSignal := none
    urgent := w.degraded }

/-- What `acknowledge` leaves when the counter did not move over the clearing. -/
def settle (w : WatchSignals) (batch : DirtyBatch) : WatchSignals :=
  { w with acknowledgedGeneration := batch.generation }

def acceptedUnacked (w : WatchSignals) : Bool :=
  let unacknowledged := w.generation != w.acknowledgedGeneration
  if w.degraded then unacknowledged else w.pending.full || w.urgent || unacknowledged

def nextDeadline (w : WatchSignals) (now : Nat) : Option Nat :=
  if w.urgent || w.degraded then some now
  else
    match w.firstSignal, w.lastSignal with
    | some first, some last => some (min (last + quiet) (first + maxWait))
    | _, _ => none

def batchReadyAt (w : WatchSignals) (now : Nat) : Bool :=
  w.urgent || w.degraded || (w.nextDeadline now).any (· ≤ now)

/-- No accepted event is outside what `accepted_unacked` denies. -/
theorem settled_of_not_unacked {w : WatchSignals} (h : w.acceptedUnacked = false) :
    w.generation = w.acknowledgedGeneration := by
  unfold acceptedUnacked at h
  by_contra hne
  have hun : (w.generation != w.acknowledgedGeneration) = true := by simpa using hne
  rw [hun] at h
  split at h
  · cases h
  · simp at h

/-! ### What the leader's own steps leave alone

The counter moves with `count` alone, and what was acknowledged with `settle` alone. -/

structure SameCount (w v : WatchSignals) : Prop where
  generation : v.generation = w.generation
  acknowledged : v.acknowledgedGeneration = w.acknowledgedGeneration

namespace SameCount

variable {u v w : WatchSignals}

theorem refl (w : WatchSignals) : SameCount w w := ⟨rfl, rfl⟩

theorem trans (h : SameCount u v) (h' : SameCount v w) : SameCount u w :=
  ⟨h'.generation.trans h.generation, h'.acknowledged.trans h.acknowledged⟩

theorem ite {p : Prop} [Decidable p] (h : SameCount u v) (h' : SameCount u w) :
    SameCount u (if p then v else w) := by
  split
  · exact h
  · exact h'

end SameCount

theorem markFull_same (w : WatchSignals) : SameCount w w.markFull := ⟨rfl, rfl⟩

theorem markUrgent_same (w : WatchSignals) : SameCount w w.markUrgent := ⟨rfl, rfl⟩

theorem fail_same (w : WatchSignals) : SameCount w w.fail := ⟨rfl, rfl⟩

theorem clear_same (w : WatchSignals) : SameCount w w.clear := ⟨rfl, rfl⟩

theorem addPath_same (w : WatchSignals) (relative : Path) : SameCount w (w.addPath relative) :=
  SameCount.ite ⟨rfl, rfl⟩ ⟨rfl, rfl⟩

theorem recordRelative_same (files : Files) (w : WatchSignals) (relative : Option Path) :
    SameCount w (recordRelative files w relative) := by
  cases relative with
  | none => exact w.markFull_same
  | some relative =>
      refine SameCount.ite w.markFull_same ?_
      exact (SameCount.ite w.markFull_same (SameCount.refl w)).trans (addPath_same _ _)

theorem recordPath_same (files : Files) (w : WatchSignals) (path : Path) :
    SameCount w (recordPath files w path) :=
  (SameCount.ite w.markFull_same (SameCount.refl w)).trans (recordRelative_same _ _ _)

theorem foldl_recordPath_same (files : Files) (paths : List Path) (w : WatchSignals) :
    SameCount w (paths.foldl (recordPath files) w) := by
  induction paths generalizing w with
  | nil => exact SameCount.refl w
  | cons path rest ih => exact (recordPath_same files w path).trans (ih _)

theorem record_same (w : WatchSignals) (files : Files) (event : Event) (receivedAt : Nat) :
    SameCount w (w.record files event receivedAt) := by
  refine SameCount.trans ?_ (foldl_recordPath_same files event.paths _)
  have htimed : SameCount w { w with
    firstSignal := some (w.firstSignal.getD receivedAt), lastSignal := some receivedAt } :=
    ⟨rfl, rfl⟩
  have hvague := SameCount.ite
    (p := (event.paths.isEmpty || event.kind == .any || event.kind == .other) = true)
    (htimed.trans (markUrgent_same _)) htimed
  have hrename := SameCount.ite
    (p := (event.kind == .modify .name && event.paths.length != 2) = true)
    (hvague.trans (markFull_same _)) hvague
  exact SameCount.ite (hrename.trans (markFull_same _)) hrename

theorem receive_same (w : WatchSignals) (files : Files) (signal : Signal) (rest : List Signal) :
    SameCount w (w.receive files signal rest) := by
  have htaken : SameCount w { w with channel := rest } := ⟨rfl, rfl⟩
  unfold receive
  cases signal.event with
  | some event => exact htaken.trans (record_same _ _ _ _)
  | none => exact htaken.trans (fail_same _)

theorem takeOverflow_same (w : WatchSignals) : SameCount w w.takeOverflow :=
  SameCount.ite ⟨rfl, rfl⟩ ⟨rfl, rfl⟩

theorem loadGeneration_same (w : WatchSignals) : SameCount w w.loadGeneration :=
  SameCount.ite ⟨rfl, rfl⟩ ⟨rfl, rfl⟩

theorem loadGeneration_pending (w : WatchSignals) :
    w.loadGeneration.pending.generation = w.generation := by
  unfold loadGeneration
  simp only
  split
  · rfl
  · rfl

end WatchSignals

end Baleyg.Watch
