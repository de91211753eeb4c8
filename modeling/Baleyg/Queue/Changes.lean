/-
What a queue operation can do to the world.

Every operation is a sequence of effects, and an effect either only looks or
commits one transaction body.  So whatever an operation does, wherever it stops
and whether or not it raises, is a chain of `Change`s: the outside moving, one of
the five bodies committing, or the completion slot or the head being written.  The
operations, drains included, are taken apart here once; an invariant of the queue is
then proved of one `Change` at a time.
-/
import Baleyg.Lib.Runs
import Baleyg.Queue.Drain

namespace Baleyg

open Fallible Relation

variable {identity : RootId} {session : LeaderSession}

/-! ### Operations and the relations they respect

An operation respects a preorder as soon as the outside does and the bodies it
commits do.  The three operations that later files measure against more than one
relation are taken apart for an arbitrary one.
-/

section Preorder

variable {R : World → World → Prop} [Std.Refl R] [IsTrans World R]

/-- What another root left behind is failed by one body. -/
theorem failChangedRootRequests_respects (hmoved : ∀ w w', Moved w w' → R w w')
    (hfail : ∀ oldRoot w done, failChangedRoot identity session oldRoot w = .ok done →
      R w (w.commit done)) :
    Carries R (failChangedRootRequests identity session) := by
  refine (carries_observe_of hmoved _).bind fun oldRoot =>
    (carries_observe_of hmoved _).bind fun _ => ?_
  refine (carries_transact_of hmoved (hfail oldRoot)).bind fun _ =>
    (carries_observe_of hmoved _).bind fun _ => carries_pure _

/-- A claim goes back by a body of its own, after what another root left behind. -/
theorem requeueBusyClaim_respects (hmoved : ∀ w w', Moved w w' → R w w')
    (hfail : ∀ oldRoot w done, failChangedRoot identity session oldRoot w = .ok done →
      R w (w.commit done))
    (hrequeue : ∀ request observed w done,
      requeue identity session request observed w = .ok done → R w (w.commit done))
    (request : Request) (before : Option IndexPin) :
    Carries R (requeueBusyClaim identity session request before) := by
  refine (carries_observe_of hmoved _).bind fun _ => ?_
  refine (failChangedRootRequests_respects hmoved hfail).bind fun _ => ?_
  refine (carries_observe_of hmoved _).bind fun current =>
    (carries_observe_of hmoved _).bind fun row => ?_
  cases row with
  | none => exact carries_throw _
  | some observed =>
      refine (carries_observe_of hmoved _).bind fun _ =>
        (carries_ensure _ _).bind fun _ => .ite ?_ ?_
      · exact carries_ensure _ _
      · refine (carries_ensure _ _).bind fun _ => (carries_ensure _ _).bind fun _ => ?_
        refine (carries_get.bind fun _ => carries_pure _).bind fun unresolved =>
          (carries_ensure _ _).bind fun _ => ?_
        exact carries_transact_of hmoved fun w done => hrequeue request observed w done

/-- A recorded completion is found written or is written, and is looked for again where writing
fails. -/
theorem retryRecordedCompletion_respects (hmoved : ∀ w w', Moved w w' → R w w')
    (hfinish : ∀ request outcome w done,
      finish identity session request outcome w = .ok done → R w (w.commit done))
    (hclear : ∀ w : World, R w { w with slot := none }) :
    Carries R (retryRecordedCompletion identity session) := by
  have hreread : ∀ pending, Carries R (rereadPending identity pending) := by
    intro pending
    refine (carries_observe_of hmoved _).bind fun row => ?_
    cases row with
    | none => exact carries_throw _
    | some row => exact (carries_ensure _ _).bind fun _ => carries_pure _
  have hwrite : ∀ request outcome,
      Carries R (finishRequestOutcome identity session request outcome) := by
    intro request outcome
    exact (carries_observe_of hmoved _).bind fun _ =>
      carries_transact_of hmoved (hfinish request outcome)
  have hdone : ∀ resolved : Bool, Carries R (do clearSlot; return resolved) := by
    intro resolved
    exact Carries.bind (fun w => hclear w) fun _ => carries_pure _
  refine (carries_observe_of hmoved _).bind fun _ => carries_get.bind fun w => ?_
  cases w.slot with
  | none => exact carries_pure _
  | some pending =>
      refine .ite (hdone false) ((hreread pending).bind fun row => .ite ?_ ?_)
      · exact (carries_ensure _ _).bind fun _ => hdone true
      · refine (carries_ensure _ _).bind fun _ => (hwrite _ _).attempt.bind fun outcome => ?_
        cases outcome with
        | ok _ => exact hdone true
        | error e =>
            refine (hreread pending).bind fun reread => .ite ?_ (carries_throw _)
            exact (carries_ensure _ _).bind fun _ => hdone true

end Preorder

/-! ### The changes -/

/-- **One thing that can happen** while operations of `session` run. -/
inductive Change (identity : RootId) (session : LeaderSession) : World → World → Prop
  | outside {w w'} (h : Moved w w') : Change identity session w w'
  | enqueued {w client id options expected done}
      (h : enqueue client id options expected w = .ok done) :
      Change identity session w (w.commit done)
  | rootFailed {w oldRoot done} (h : failChangedRoot identity session oldRoot w = .ok done) :
      Change identity session w (w.commit done)
  | claimed {w done} (h : claim identity session w = .ok done) :
      Change identity session w (w.commit done)
  | finished {w request outcome done} (h : finish identity session request outcome w = .ok done) :
      Change identity session w (w.commit done)
  | requeued {w request observed done} (h : requeue identity session request observed w = .ok done) :
      Change identity session w (w.commit done)
  | noted (w slot log head) :
      Change identity session w { w with slot := slot, log := log, head := head }

abbrev Changes (identity : RootId) (session : LeaderSession) : World → World → Prop :=
  ReflTransGen (Change identity session)

theorem changes_moved {w w' : World} (h : Moved w w') : Changes identity session w w' :=
  .single (.outside h)

/-- Whoever only looks is met by the outside. -/
theorem carries_observe {α : Type} (read : World → Except Failure α) :
    Carries (Changes identity session) (observe read) :=
  carries_observe_of (fun _ _ => changes_moved) read

theorem carries_transact {α : Type} {body : World → Except Failure (Written α)}
    (hbody : ∀ w done, body w = .ok done → Change identity session w (w.commit done)) :
    Carries (Changes identity session) (transact body) :=
  carries_transact_of (fun _ _ => changes_moved) fun w done hdone => .single (hbody w done hdone)

theorem carries_enqueueRequest (client workspaceRoot : RootId) (id : Nat)
    (options : ReconcileOptions) (expected : Option IndexPin) :
    Carries (Changes identity session)
      (enqueueRequest client workspaceRoot id options expected) := by
  refine (carries_observe _).bind fun _ => (carries_ensure _ _).bind fun _ =>
    (carries_observe _).bind fun _ => ?_
  refine (carries_transact fun _ _ h => .enqueued h).bind fun _ =>
    (carries_observe _).bind fun _ => carries_pure _

theorem carries_failChangedRootRequests :
    Carries (Changes identity session) (failChangedRootRequests identity session) :=
  failChangedRootRequests_respects (fun _ _ => changes_moved)
    fun _ _ _ h => .single (.rootFailed h)

theorem carries_claimRequest :
    Carries (Changes identity session) (claimRequest identity session) :=
  (carries_observe _).bind fun _ => carries_transact fun _ _ h => .claimed h

theorem carries_finishRequestOutcome (request : Request) (outcome : CompletionOutcome) :
    Carries (Changes identity session)
      (finishRequestOutcome identity session request outcome) :=
  (carries_observe _).bind fun _ => carries_transact fun _ _ h => .finished h

theorem carries_retryRecordedCompletion :
    Carries (Changes identity session) (retryRecordedCompletion identity session) :=
  retryRecordedCompletion_respects (fun _ _ => changes_moved)
    (fun _ _ _ _ h => .single (.finished h)) fun w => .single (.noted w none w.log w.head)

/-- The outcome is recorded before it is written. -/
theorem carries_recordAndFinishRequest (request : Request) (result : Except Failure IndexPin) :
    Carries (Changes identity session)
      (recordAndFinishRequest identity session request result) := by
  refine (carries_observe _).bind fun _ => (carries_ensure _ _).bind fun _ =>
    carries_get.bind fun w => (carries_ensure _ _).bind fun _ => ?_
  cases CompletionOutcome.fromResult result with
  | error e => exact carries_throw _
  | ok outcome =>
      have hrecord : Carries (Changes identity session) (modify fun w : World => { w with
          slot := some ⟨request, outcome, session.incarnation⟩
          log := w.log ++ [.recorded request.seq outcome] } : Act PUnit) :=
        fun w => .single (.noted w _ _ w.head)
      exact hrecord.bind fun _ => carries_retryRecordedCompletion.bind fun _ => carries_pure _

theorem carries_requeueBusyClaim (request : Request) (before : Option IndexPin) :
    Carries (Changes identity session)
      (requeueBusyClaim identity session request before) :=
  requeueBusyClaim_respects (fun _ _ => changes_moved) (fun _ _ _ h => .single (.rootFailed h))
    (fun _ _ _ _ h => .single (.requeued h)) request before

/-! ### Drains -/

/-- A publication moves the head and leaves the queue alone. -/
theorem carries_publish (expected : Option IndexPin) :
    Carries (Changes identity session) (publish identity session expected) := by
  intro w
  unfold publish
  rw [yields_bind]
  refine yields_turn fun t w' hmoved => ?_
  have hfirst : Changes identity session w w' := .single (.outside hmoved)
  simp only [yields_bind, yields_get]
  split
  · exact hfirst
  · exact hfirst
  · exact hfirst.tail (.noted w' w'.slot w'.log _)
  · exact hfirst.tail (.noted w' w'.slot w'.log _)

theorem carries_attemptRequest (request : Request) :
    Carries (Changes identity session) (attemptRequest identity session request) := by
  have hprepare : Carries (Changes identity session) (do
      observe fun _ => .ok ()
      prepare identity session request.expected) :=
    (carries_observe _).bind fun _ => carries_observe _
  refine hprepare.attempt.bind fun prepared => ?_
  cases prepared with
  | error e => exact carries_pure _
  | ok expected =>
      have hcaptured : Carries (Changes identity session)
          (modify fun w : World => { w with log := w.log ++ [.captured request.seq] }
            : Act PUnit) := fun w => .single (.noted w w.slot _ w.head)
      have hrun : Carries (Changes identity session)
          (runWithCapture identity session request expected) :=
        hcaptured.bind fun _ => (carries_observe _).bind fun _ => carries_publish expected
      exact hrun.attempt.bind fun _ => carries_pure _

/-- A claim ends with its outcome, or goes back. -/
theorem carries_settleRequest (request : Request) (outcome : Except Failure IndexPin)
    (beforePublish : Option (Option IndexPin)) :
    Carries (Changes identity session)
      (settleRequest identity session request outcome beforePublish) := by
  have hrecord : Carries (Changes identity session) (do
      recordAndFinishRequest identity session request outcome
      return Drained.completed) :=
    (carries_recordAndFinishRequest request outcome).bind fun _ => carries_pure _
  have hrequeue : ∀ before, Carries (Changes identity session) (do
      requeueBusyClaim identity session request before
      return Drained.deferred) :=
    fun before => (carries_requeueBusyClaim request before).bind fun _ => carries_pure _
  unfold settleRequest
  cases outcome with
  | ok pin => exact hrecord
  | error e =>
      refine .ite ?_ (.ite (carries_throw _) hrecord)
      cases beforePublish with
      | some before => exact hrequeue before
      | none => exact (carries_observe _).bind hrequeue

/-- One turn of a drain: a claim, an attempt, and how it is settled. -/
theorem carries_drainOne (cutoffSeq : Option Nat) :
    Carries (Changes identity session) (drainOne identity session cutoffSeq) := by
  have hpast : Carries (Changes identity session) (pastCutoff identity cutoffSeq) := by
    cases cutoffSeq with
    | none => exact carries_pure _
    | some cutoff => exact (carries_observe _).bind fun _ => carries_pure _
  refine (carries_observe _).bind fun _ => hpast.bind fun past => .ite (carries_pure _) ?_
  refine carries_claimRequest.bind fun row => ?_
  cases row with
  | none => exact carries_pure _
  | some request =>
      exact (carries_attemptRequest request).bind fun tried =>
        (carries_observe _).bind fun _ => carries_settleRequest request tried.1 tried.2

/-- Turns follow each other as long as they complete a request. -/
theorem carries_drainLoop (cutoffSeq : Option Nat) (remaining : Nat) :
    ∀ completed, Carries (Changes identity session)
      (drainLoop identity session cutoffSeq remaining completed) := by
  induction remaining with
  | zero =>
      intro completed
      unfold drainLoop
      refine (carries_drainOne cutoffSeq).bind fun drained => ?_
      cases drained <;> exact carries_pure _
  | succ more ih =>
      intro completed
      unfold drainLoop
      refine (carries_drainOne cutoffSeq).bind fun drained => ?_
      cases drained with
      | idle | deferred => exact carries_pure _
      | completed => exact ih (completed + 1)

theorem carries_drainRequests (maxCompleted : Nat) (cutoffSeq : Option Nat) :
    Carries (Changes identity session)
      (drainRequests identity session maxCompleted cutoffSeq) := by
  refine (carries_observe _).bind fun replaced => .ite ?_ ?_
  · exact carries_failChangedRootRequests.bind fun _ => carries_throw _
  · refine (carries_observe _).bind fun _ => carries_failChangedRootRequests.bind fun _ => ?_
    exact carries_retryRecordedCompletion.bind fun _ => carries_drainLoop cutoffSeq _ _

/-- Whatever happens, who serves and who leads is the same. -/
theorem changes_leadership {w w' : World} (h : Changes identity session w w') :
    w'.serving = w.serving ∧ w'.leader = w.leader ∧ w'.reconciled = w.reconciled := by
  induction h with
  | refl => exact ⟨rfl, rfl, rfl⟩
  | tail _ hlast ih =>
      obtain ⟨hserving, hleader, hreconciled⟩ := ih
      cases hlast with
      | outside h =>
          exact ⟨h.serving.trans hserving, h.leader.trans hleader,
            h.reconciled.trans hreconciled⟩
      | enqueued | rootFailed | claimed | finished | requeued | noted =>
          exact ⟨hserving, hleader, hreconciled⟩

end Baleyg
