/-
The leader's loop over the queue.

A drain resolves a completion it still owes, then claims the head, captures and
publishes for it, and records the outcome.  What a publication does to the rest of
the program is its pin: it moves `head`, from the pin its preparation read, or it
fails, or it moves `head` and still reports an error.

`queueTick` is the daemon's pass over the same leader: the drain of one row, and
then, where nothing is owed, the watcher's own reconciliation, which publishes
through the same compare-and-set.
-/
import Baleyg.Queue.Operations

namespace Baleyg

open Fallible

/-! ### Publication, as the queue sees it -/

/-- Commit the revision that succeeds `expected`, if that is still the head. -/
def publish (identity : RootId) (session : LeaderSession) (expected : Option IndexPin) :
    Act IndexPin := do
  let t ← turn
  let w ← get
  let admitted := do
    leads identity session w
    ensure (w.head = expected) (fault .revisionConflict "index changed since capture")
  match t.fate, admitted with
  | .fails e, _ | _, .error e => throw e
  | .passes, .ok _ =>
      set { w with head := some (w.nextPin t.rebaseline) }
      return w.nextPin t.rebaseline
  | .lost e, .ok _ =>
      set { w with head := some (w.nextPin t.rebaseline) }
      throw e

/-- `IndexJobCoordinator::prepare_with_session`: the pin the publication will expect. -/
def prepare (identity : RootId) (session : LeaderSession) (requested : Option IndexPin) :
    Act (Option IndexPin) :=
  observe fun w => do
    leads identity session w
    ensure (∀ pin ∈ requested, w.head = some pin)
      (fault .revisionConflict "prior index pin is not decodable or changed")
    return w.head

/-- `run_with_capture`: capture the workspace for a claimed row and publish it. -/
def runWithCapture (identity : RootId) (session : LeaderSession) (request : Request)
    (expected : Option IndexPin) : Act IndexPin := do
  modify fun w => { w with log := w.log ++ [.captured request.seq] }
  -- The capture, its measurement and its attestation: any of them may fail.
  observe fun _ => .ok ()
  publish identity session expected

/-- The closure a drain runs for a claimed row: its outcome, and the pin
`before_publish` had captured by then. -/
def attemptRequest (identity : RootId) (session : LeaderSession) (request : Request) :
    Act (Except Failure IndexPin × Option (Option IndexPin)) := do
  let prepared ← attempt do
    -- `request.options(…)`: the stored options must still parse.
    observe fun _ => .ok ()
    prepare identity session request.expected
  match prepared with
  | .error e => return (.error e, none)
  | .ok expected =>
      let outcome ← attempt (runWithCapture identity session request expected)
      return (outcome, some expected)

/-! ### The drain -/

/-- How one iteration of the loop ended. -/
inductive Drained where
  | idle
  | deferred
  | completed
  deriving DecidableEq, Repr

def checkCancel : Act Unit :=
  observe fun _ => .ok ()

def pastCutoff (identity : RootId) (cutoffSeq : Option Nat) : Act Bool :=
  match cutoffSeq with
  | none => return false
  | some cutoff => do
      let head ← earliestUnfinishedRequest identity
      return head.any fun row => row.seq > cutoff

def settleRequest (identity : RootId) (session : LeaderSession) (request : Request)
    (outcome : Except Failure IndexPin) (beforePublish : Option (Option IndexPin)) :
    Act Drained := do
  match outcome with
  | .error e =>
      if e.drift || e.transientStorageContention then
        -- A failed COMMIT can be ambiguous: requeue only under the unchanged pin.
        let before ← match beforePublish with
          | some pin => pure pin
          | none => recoveryIndexBaseline
        requeueBusyClaim identity session request before
        return .deferred
      else if e.nonterminalStorageBusy then
        throw e
      else
        recordAndFinishRequest identity session request outcome
        return .completed
  | .ok _ =>
      recordAndFinishRequest identity session request outcome
      return .completed

def drainOne (identity : RootId) (session : LeaderSession) (cutoffSeq : Option Nat) :
    Act Drained := do
  checkCancel
  if ← pastCutoff identity cutoffSeq then
    return .idle
  match ← claimRequest identity session with
  | none => return .idle
  | some request =>
      let (outcome, beforePublish) ← attemptRequest identity session request
      checkCancel
      settleRequest identity session request outcome beforePublish

/-- The loop, after `completed` rows; `remaining` more may follow the next one. -/
def drainLoop (identity : RootId) (session : LeaderSession) (cutoffSeq : Option Nat) :
    Nat → Nat → Act Nat
  | remaining, completed => do
      match ← drainOne identity session cutoffSeq with
      | .idle | .deferred => return completed
      | .completed =>
          match remaining with
          | 0 => return completed + 1
          | more + 1 => drainLoop identity session cutoffSeq more (completed + 1)

/-- `drain_requests_observed_with_cancel`. -/
def drainRequests (identity : RootId) (session : LeaderSession) (maxCompleted : Nat)
    (cutoffSeq : Option Nat) : Act Nat := do
  if ← rootPathReplaced identity then
    let _ ← failChangedRootRequests identity session
    throw (fault .rootChanged "old leader stopped after queue failure transition")
  verifyLeaderSession identity session
  let _ ← failChangedRootRequests identity session
  -- Resolve an owed terminal write before any new claim or publication.
  let resolved ← retryRecordedCompletion identity session
  drainLoop identity session cutoffSeq (maxCompleted - (resolved.toNat + 1)) resolved.toNat

/-! ### The daemon's pass -/

/-- `replace_serving_session(None)`: the leader lock goes with the session. -/
def releaseSession : Act Unit :=
  modify fun w => { w with serving := none, leader := none }

/-- `reconcile_due`: the watcher's inventory, which publishes only a changed capture. -/
def reconcileDue (identity : RootId) (session : LeaderSession) : Act Unit := do
  verifyLeaderSession identity session
  let due ← whether
  if due then
    observe fun _ => .ok ()
    verifyLeaderSession identity session
    let baseline ← recoveryIndexBaseline
    let unchanged ← whether
    if unchanged then
      verifyLeaderSession identity session
    else
      let _ ← prepare identity session none
      let _ ← publish identity session baseline
      return ()

/-- `processed > 0 || earliest_unfinished_request()?.is_none()`. -/
def queueIdle (identity : RootId) (processed : Nat) : Act Bool := do
  if processed > 0 then
    return true
  let head ← earliestUnfinishedRequest identity
  return head.isNone

/-- The part of a pass that needs a verified serving session. -/
def serveSession (identity : RootId) (session : LeaderSession) : Act Unit := do
  match ← attempt (drainRequests identity session 1 none) with
  | .error e =>
      let recorded ← hasRecordedCompletion session
      -- `retryable_cli_completion_error`: only contention keeps a leader that owes.
      if !recorded || !e.transientStorageContention then
        releaseSession
      throw e
  | .ok processed =>
      let idle ← queueIdle identity processed
      let recorded ← hasRecordedCompletion session
      if idle && !recorded then
        reconcileDue identity session

/-- The root is gone: the session stops serving, and keeps its lock until the rows
it accepted are failed. -/
def loseRoot (identity : RootId) : Act Unit := do
  let serving := (← get).serving
  modify fun w => { w with serving := none }
  match serving with
  | none => return ()
  | some session =>
      let _ ← failChangedRootRequests identity session
      releaseSession

def queueTick (identity : RootId) : Act Unit := do
  let replaced ← rootPathReplaced identity
  if replaced then
    loseRoot identity
  else
    -- A retry deadline ends the pass; a pending recreation ends the session.
    let proceeds ← whether
    if proceeds then
      let recreates ← whether
      if recreates then
        releaseSession
      else
        match (← get).serving with
        | none => return ()
        | some session =>
            match ← attempt (verifyLeaderSession identity session) with
            | .error _ => releaseSession
            | .ok _ => serveSession identity session

/-- `maintenance_tick`: revisions are released, the head is not touched. -/
def maintenanceTick : Act Unit :=
  observe fun _ => .ok ()

end Baleyg
