/-
The queue's operations.

Each is the source's function of the same name, effect by effect: `identity` is
the root a process captured when it opened its store, `session` the leader
session it holds.  A transaction body (`claim`, `finish`, …) is a pure function of
the one state its `BEGIN IMMEDIATE` sees; the operation around it adds the checks
made outside the transaction, each of which is an effect of its own.

The queue file that does not exist yet is the table with no rows.
-/
import Baleyg.Queue.World

namespace Baleyg

open Fallible

/-! ### Who may act -/

/-- `identity.verify()`: the pathname still names the captured root. -/
def verifyRoot (identity : RootId) (w : World) : Except Failure Unit :=
  ensure (w.named = identity) (fault .rootChanged "captured root")

/-- `verify_leader_session`, on one state of the world. -/
def leads (identity : RootId) (session : LeaderSession) (w : World) : Except Failure Unit := do
  verifyRoot identity w
  ensure (session.identity = identity)
    (fault .storageBusy "leader session belongs to another workspace")
  ensure (w.leader = some session.incarnation)
    (fault .indexNotReady "leader incarnation changed")

def verifyLeaderSession (identity : RootId) (session : LeaderSession) : Act Unit :=
  observe (leads identity session)

/-- `verify_old_root_queue_leader`: only a proven root loss authorizes it. -/
def leadsOldRoot (identity : RootId) (session : LeaderSession) (w : World) :
    Except Failure Unit := do
  ensure (w.named ≠ identity)
    (fault .rootChanged "pathname still names captured root")
  ensure (session.identity = identity)
    (fault .storageBusy "leader belongs to another root")
  ensure (w.leader = some session.incarnation)
    (fault .indexNotReady "leader incarnation changed")

/-- The leader check of a root change, by whether the pathname was lost. -/
def leadsEither (oldRoot : Bool) : RootId → LeaderSession → World → Except Failure Unit :=
  if oldRoot then leadsOldRoot else leads

/-- `verify_reconciled_leader_claim`. -/
def leadsReconciled (identity : RootId) (session : LeaderSession) (w : World) :
    Except Failure Unit := do
  leads identity session w
  ensure (w.reconciled = some session.incarnation)
    (fault .indexNotReady "mandatory leader reconciliation not committed")

def verifyRequestRoot (identity : RootId) (row : Option Request) (w : World) :
    Except Failure Unit := do
  verifyRoot identity w
  ensure (∀ r ∈ row, r.root = identity)
    (fault .rootChanged "request belongs to another root")

def rootPathReplaced (identity : RootId) : Act Bool :=
  observe fun w => .ok (w.named ≠ identity)

/-! ### Reads -/

def requestById (identity : RootId) (id : Nat) : Act (Option Request) :=
  observe fun w => do
    let row := w.requests.byId id
    verifyRequestRoot identity row w
    return row

def earliestUnfinishedRequest (identity : RootId) : Act (Option Request) :=
  observe fun w => do
    let row := w.requests.earliestUnfinished
    verifyRequestRoot identity row w
    return row

/-- `recovery_index_baseline()?.pin()`. -/
def recoveryIndexBaseline : Act (Option IndexPin) :=
  observe fun w => .ok w.head

/-! ### enqueue_request -/

/-- What `enqueue_request` refuses before it opens the queue. -/
def ReconcileOptions.require (options : ReconcileOptions) : Except Failure Unit := do
  ensure (options.version = 1 ∧ 1 ≤ options.maxFileBytes ∧ options.maxFileBytes ≤ 16777216)
    (fault .other "invalid request options")
  ensure (∀ path ∈ options.scipPath.toList ++ options.manifestPath.toList,
      path.toList.head? = some '/')
    (fault .other "optional index input path is not absolute")

/-- The INSERT transaction; `id` is the fresh `Uuid::new_v4`. -/
def enqueue (identity : RootId) (id : Nat) (options : ReconcileOptions)
    (expected : Option IndexPin) (w : World) : Except Failure (Written Request) := do
  verifyRoot identity w
  if hid : ∀ r ∈ w.requests.rows, r.id ≠ id then
    -- The acknowledgement is built here: after COMMIT a leader may claim at once.
    return ⟨⟨w.requests.issued + 1, id, identity, options, expected, w.clock, .queued⟩,
      w.requests.insert id identity options expected w.clock hid, []⟩
  else
    throw (fault .other "UNIQUE constraint failed: requests.id")

def enqueueRequest (identity : RootId) (workspaceRoot : RootId) (id : Nat)
    (options : ReconcileOptions) (expected : Option IndexPin) : Act Request := do
  observe (verifyRoot identity)
  ensure (workspaceRoot = identity)
    (fault .rootChanged "request workspace mismatch")
  observe fun _ => options.require
  let accepted ← transact (enqueue identity id options expected)
  observe (verifyRoot identity)
  return accepted

/-! ### fail_changed_root_requests -/

/-- The rows a root change fails: this root's once its pathname is lost, and every
other root's while it is still named. -/
def changedRoot (identity : RootId) (oldRoot : Bool) (r : Request) : Bool :=
  r.state.unfinished && (if oldRoot then r.root = identity else r.root ≠ identity)

/-- `state='failed', claim_incarnation=?, started_at=COALESCE(started_at,?),
finished_at=?, error_code='root_changed'`. -/
def rootChanged (session : LeaderSession) (now : Nat) (state : RowState) : RowState :=
  .failed session.incarnation (state.startedAt.getD now) now .rootChanged

def failChangedRoot (identity : RootId) (session : LeaderSession) (oldRoot : Bool) (w : World) :
    Except Failure (Written (List Request)) := do
  leadsEither oldRoot identity session w
  let affected := w.requests.select (changedRoot identity oldRoot)
  return ⟨affected,
    w.requests.update (changedRoot identity oldRoot) (rootChanged session w.clock),
    [.rootChanged (affected.map (·.seq))]⟩

/-- `attest_changed_root_rows`: reread every affected row before relying on it. -/
def attestChangedRootRows (session : LeaderSession) (affected : List Request) : Act Unit :=
  observe fun w =>
    ensure (∀ prior ∈ affected, ∃ row ∈ w.requests.bySeq prior.seq,
        row.id = prior.id ∧ row.root = prior.root
          ∧ row.state.errorCode = some .rootChanged
          ∧ row.state.claimIncarnation = some session.incarnation)
      (fault .storageBusy "root failure commit not confirmed")

def failChangedRootRequests (identity : RootId) (session : LeaderSession) : Act Nat := do
  let oldRoot ← rootPathReplaced identity
  observe (leadsEither oldRoot identity session)
  let affected ← transact (failChangedRoot identity session oldRoot)
  attestChangedRootRows session affected
  return affected.length

/-! ### claim_request -/

/-- The claim transaction: the least unfinished sequence of the whole table. -/
def claim (identity : RootId) (session : LeaderSession) (w : World) :
    Except Failure (Written (Option Request)) := do
  leads identity session w
  match w.requests.earliestUnfinished with
  | none => return ⟨none, w.requests, []⟩
  | some row =>
      verifyRequestRoot identity row w
      -- A running row of this incarnation belongs to another local driver.
      if row.state.isRunning ∧ row.state.claimIncarnation = some session.incarnation then
        return ⟨none, w.requests, []⟩
      else
        leadsReconciled identity session w
        let requests := w.requests.update (fun r => r.seq = row.seq && r.state.unfinished)
          fun _ => .running session.incarnation w.clock
        return ⟨requests.bySeq row.seq, requests, [.claimed row.seq]⟩

def claimRequest (identity : RootId) (session : LeaderSession) : Act (Option Request) := do
  observe (leadsReconciled identity session)
  transact (claim identity session)

/-! ### finish_request_outcome -/

/-- `status()?.revision == *pin`: a result must still be the current index. -/
def CompletionOutcome.stillCurrent (w : World) : CompletionOutcome → Except Failure Unit
  | .done pin =>
      ensure (w.head = some pin) (fault .revisionConflict "request result is not current index")
  | .failed _ => .ok ()

/-- `WHERE seq=? AND state='running' AND claim_incarnation=? AND root_device=? AND
root_inode=?` with the store's own root. -/
def finishes (identity : RootId) (session : LeaderSession) (request r : Request) : Bool :=
  r.seq = request.seq && r.state.isRunning
    && r.state.claimIncarnation = some session.incarnation && r.root = identity

def finish (identity : RootId) (session : LeaderSession) (request : Request)
    (outcome : CompletionOutcome) (w : World) : Except Failure (Written Unit) := do
  leads identity session w
  outcome.stillCurrent w
  ensure ((w.requests.select (finishes identity session request)).length = 1)
    (fault .storageBusy "request claim changed")
  return ⟨(), w.requests.update (finishes identity session request) (outcome.terminal w.clock),
    [.finished request.seq outcome]⟩

def finishRequestOutcome (identity : RootId) (session : LeaderSession) (request : Request)
    (outcome : CompletionOutcome) : Act Unit := do
  verifyLeaderSession identity session
  transact (finish identity session request outcome)

/-! ### Recorded completions -/

/-- `has_recorded_completion`: memory only, so it cannot fail. -/
def hasRecordedCompletion (session : LeaderSession) : Act Bool := do
  return (← get).slot.any fun pending => pending.incarnation = session.incarnation

/-- The row still is the one the completion was recorded for. -/
def PendingCompletion.sameClaim (pending : PendingCompletion) (row : Request) : Prop :=
  row.id = pending.request.id ∧ row.seq = pending.request.seq
    ∧ row.root = pending.request.root
    ∧ row.state.claimIncarnation = some pending.incarnation

instance (pending : PendingCompletion) (row : Request) : Decidable (pending.sameClaim row) :=
  inferInstanceAs (Decidable (_ ∧ _ ∧ _ ∧ _))

/-- `request_by_id(…)?.ok_or_else(…)?` and the claim check that follows it. -/
def rereadPending (identity : RootId) (pending : PendingCompletion) : Act Request := do
  match ← requestById identity pending.request.id with
  | none => throw (fault .storageBusy "cached request disappeared")
  | some row =>
      ensure (pending.sameClaim row)
        (fault .storageBusy "cached claim changed")
      return row

def clearSlot : Act Unit :=
  modify fun w => { w with slot := none }

def retryRecordedCompletion (identity : RootId) (session : LeaderSession) : Act Bool := do
  verifyLeaderSession identity session
  match (← get).slot with
  | none => return false
  | some pending =>
      if pending.incarnation ≠ session.incarnation then
        -- A successor has reconciled before its drain; its claim takes the head over.
        clearSlot
        return false
      else
        let differs := fault .revisionConflict "cached completion differs from durable terminal"
        let row ← rereadPending identity pending
        if row.state.terminal then
          ensure (pending.outcome.matchesTerminal row.state) differs
          clearSlot
          return true
        else
          ensure row.state.isRunning
            (fault .storageBusy "cached FIFO head is not running")
          match ← attempt (finishRequestOutcome identity session pending.request
            pending.outcome) with
          | .ok _ =>
              clearSlot
              return true
          | .error e =>
              -- The write may have committed before it reported an error.
              let reread ← rereadPending identity pending
              if reread.state.terminal then
                ensure (pending.outcome.matchesTerminal reread.state) differs
                clearSlot
                return true
              else
                throw e

def recordAndFinishRequest (identity : RootId) (session : LeaderSession) (request : Request)
    (result : Except Failure IndexPin) : Act Unit := do
  verifyLeaderSession identity session
  ensure (request.state.claimIncarnation = some session.incarnation)
    (fault .other "request claim changed")
  ensure ((← get).slot = none)
    (fault .storageBusy "unresolved FIFO completion")
  match CompletionOutcome.fromResult result with
  | .error e => throw e
  | .ok outcome =>
      modify fun w => { w with
        slot := some ⟨request, outcome, session.incarnation⟩
        log := w.log ++ [.recorded request.seq outcome] }
      let _ ← retryRecordedCompletion identity session

/-! ### requeue_busy_claim -/

/-- `WHERE seq=? AND id=? AND state='running' AND claim_incarnation=? AND
root_device=? AND root_inode=?` with the claimed row's root. -/
def requeues (session : LeaderSession) (request r : Request) : Bool :=
  r.seq = request.seq && r.id = request.id && r.state.isRunning
    && r.state.claimIncarnation = some session.incarnation && r.root = request.root

def requeue (identity : RootId) (session : LeaderSession) (request observed : Request)
    (w : World) : Except Failure (Written Unit) := do
  leads identity session w
  verifyRequestRoot identity (some observed) w
  ensure ((w.requests.select (requeues session request)).length = 1)
    (fault .storageBusy "request claim changed before same-seq requeue")
  return ⟨(), w.requests.update (requeues session request) fun _ => .queued, [.requeued request.seq]⟩

def requeueBusyClaim (identity : RootId) (session : LeaderSession) (request : Request)
    (before : Option IndexPin) : Act Unit := do
  verifyLeaderSession identity session
  let _ ← failChangedRootRequests identity session
  let current ← recoveryIndexBaseline
  match ← requestById identity request.id with
  | none => throw (fault .storageBusy "accepted claim disappeared")
  | some observed =>
      observe (verifyRequestRoot identity (some observed))
      ensure (observed.id = request.id ∧ observed.seq = request.seq
          ∧ observed.root = request.root)
        (fault .storageBusy "accepted claim identity changed")
      if observed.state.finishedAt.isSome then
        -- A terminal row is never requeued; its pin must still be retained.
        ensure (∀ completed ∈ observed.state.revision, ∃ pin ∈ current,
            pin.indexGeneration = completed.indexGeneration
              ∧ pin.indexRevision ≥ completed.indexRevision)
          (fault .storageBusy "terminal pin is not retained by current publication")
      else
        ensure (observed.state.isRunning
            ∧ observed.state.claimIncarnation = some session.incarnation
            ∧ request.state.claimIncarnation = observed.state.claimIncarnation)
          (fault .storageBusy "request claim changed during busy resolution")
        ensure (current = before)
          (fault .storageBusy "publication changed across failed commit")
        let unresolved ← hasRecordedCompletion session
        ensure (¬ unresolved)
          (fault .storageBusy "unresolved FIFO completion must not be requeued")
        transact (requeue identity session request observed)

end Baleyg
