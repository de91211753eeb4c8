/-
Release of an activated checkout.

A checkout's resources are read by calls that hand out evidence, kept up to date by one worker,
and taken away by a release.  Reads are counted, an attempt of the worker raises a flag, and the
release goes through only when it finds neither.  The flag is raised and the gate is passed under
the phase lock, and so is a read counted, but for one: a call that waits for the owner of a
predecessor lets the lock go, and counts its read with nothing to keep the release out.

So the worker and the release exclude each other in every run, and the readers and the release in
those in which no such read lies between its last check and its count while the release is past
its gate.  In every other run the two can meet, and evidence outlives the resources.
-/
import Mathlib.Algebra.Order.Ring.Nat
import Baleyg.Lib.Runs

namespace Baleyg.Daemon.Release

/-- A leader or follower session, by identity. -/
abbrev Session := Nat

/-- `RuntimePhase`. -/
inductive Phase where
  | reconciling
  | transitional (owner : Session)
  | ready (owner : Session)
  deriving DecidableEq, Repr

namespace Phase

def isReady : Phase → Bool
  | ready _ => true
  | _ => false

def isTransitional : Phase → Bool
  | transitional _ => true
  | _ => false

end Phase

/-- Where a call of `evidence_response` stands. -/
inductive Call where
  | idle
  /-- Before the phase lock; whether it may wait. -/
  | entering (allowWait : Bool)
  | locked (allowWait : Bool)
  /-- The phase is refreshed, and the store is to admit the read. -/
  | reading (allowWait : Bool)
  | admitted
  /-- The read is counted, under the lock. -/
  | counted
  /-- The lock is let go; the epoch was this one. -/
  | waiting (epoch : Nat)
  | checking (epoch : Nat)
  | current (epoch : Nat)
  /-- The predecessor is open for reading, and the read is still to be counted. -/
  | granted
  | returned
  | refused
  deriving DecidableEq, Repr

namespace Call

/-- The phase lock is held. -/
def holds : Call → Bool
  | locked _ | reading _ | admitted | counted => true
  | _ => false

/-- No read will come of it once the epoch is this one, but by a new admission. -/
def Fenced (epoch : Nat) : Call → Prop
  | reading _ | admitted | counted | granted => False
  | waiting e | checking e | current e => e < epoch
  | _ => True

/-- The epoch it remembers is not ahead. -/
def Bounded (epoch : Nat) : Call → Prop
  | waiting e | checking e | current e => e ≤ epoch
  | _ => True

end Call

inductive Worker where
  | launching
  /-- Inside `reconcile`. -/
  | attempting
  /-- The phase is transitional, under this owner. -/
  | reattached (owner : Session)
  | establishing
  /-- The attempt returned a session. -/
  | settled (owner : Session)
  | retaining (owner : Session)
  | readying (owner : Session)
  | finishing
  | failed
  | revoked
  /-- In `retire_lost_root_h`, with the phase lock. -/
  | retiring
  | retired
  /-- The attempt failed, and `retry_waiting` is still to be set. -/
  | pausing
  | paused
  | sleeping
  /-- Awake, with the phase lock. -/
  | rearming
  | rearmed
  | stopped
  deriving DecidableEq, Repr

namespace Worker

def holds : Worker → Bool
  | retiring | rearming | rearmed => true
  | _ => false

/-- An attempt is under way, or its outcome is still being recorded. -/
def inFlight : Worker → Bool
  | sleeping | rearming | stopped => false
  | _ => true

end Worker

/-- Where `release_runtime` stands. -/
inductive Releaser where
  | idle
  | probing
  | probingPhase
  | probingRetry
  | probingReads
  | probingQueue
  | entering
  | locked
  | gatePhase
  | gateReads
  /-- The last check is passed. -/
  | cleared
  | bumped
  | minted
  | closed
  | notified
  | halted
  | demoted
  | retired
  | done
  deriving DecidableEq, Repr

namespace Releaser

def holds : Releaser → Bool
  | locked | gatePhase | gateReads | cleared | bumped | minted | closed | notified | halted
  | demoted | retired => true
  | _ => false

def pastFlight : Releaser → Bool
  | gatePhase | gateReads | cleared | bumped | minted | closed | notified | halted | demoted
  | retired | done => true
  | _ => false

def pastReads : Releaser → Bool
  | cleared | bumped | minted | closed | notified | halted | demoted | retired | done => true
  | _ => false

def pastEpoch : Releaser → Bool
  | bumped | minted | closed | notified | halted | demoted | retired | done => true
  | _ => false

def pastClose : Releaser → Bool
  | closed | notified | halted | demoted | retired | done => true
  | _ => false

def pastTake : Releaser → Bool
  | retired | done => true
  | _ => false

end Releaser

inductive Who where
  | call (i : Nat)
  | worker
  | release
  /-- Other handles of the runtime, the queue's tick, an election. -/
  | other
  deriving DecidableEq, Repr

/-- `CheckoutRuntime`, its scheduler and its store as far as they matter here, the evidence that
is alive, and where everybody stands. -/
structure State where
  active : Bool
  epoch : Nat
  activeReads : Nat
  hInFlight : Bool
  retryWaiting : Bool
  resources : Bool
  phase : Phase
  lock : Option Who
  /-- The scheduler's `serving_session`. -/
  serving : Option Session
  /-- The store's `restricted_predecessor` has a live owner. -/
  restricted : Bool
  /-- A permit of an earlier activation came with this one. -/
  permit : Bool
  /-- `CheckoutEvidence` values, by the calls that made them. -/
  live : List Nat
  calls : Nat → Call
  worker : Worker
  releaser : Releaser

namespace State

def callAt (s : State) (i : Nat) (c : Call) : State :=
  { s with calls := Function.update s.calls i c }

/-- `refresh_phase`; `verified` is whether the serving owner is. -/
def refreshed (s : State) (verified : Bool) : Phase :=
  match s.phase with
  | .transitional owner => .transitional owner
  | _ =>
      match s.serving with
      | some owner => if verified then .ready owner else .reconciling
      | none => .reconciling

/-- `catching_up` of a refreshed phase: whether the root is lost, hints of the watcher are
pending, and rows are queued. -/
def catchingUp (s : State) (lost watch queue : Bool) : Bool :=
  s.hInFlight || (if lost then queue else !s.phase.isReady || watch || queue)

def holds (s : State) : Who → Bool
  | .call i => (s.calls i).holds
  | .worker => s.worker.holds
  | .release => s.releaser.holds
  | .other => false

end State

/-! ### Steps -/

/-- A step of a call of `evidence_response`, or the end of the evidence it returned. -/
inductive CallStep (i : Nat) : State → State → Prop where
  | enter {s : State} (h : s.calls i = .idle) : CallStep i s (s.callAt i (.entering true))
  | lock {s : State} {wait : Bool} (h : s.calls i = .entering wait) (hfree : s.lock = none) :
      CallStep i s { s.callAt i (.locked wait) with lock := some (.call i) }
  /-- `index_not_ready: checkout released`. -/
  | released {s : State} {wait : Bool} (h : s.calls i = .locked wait)
      (hout : s.active = false ∨ s.resources = false) :
      CallStep i s { s.callAt i .refused with lock := none }
  | refresh {s : State} {wait : Bool} (verified : Bool) (h : s.calls i = .locked wait)
      (hactive : s.active = true) (hresources : s.resources = true) :
      CallStep i s { s.callAt i (.reading wait) with phase := s.refreshed verified }
  /-- The store admits the read, as the phase asks. -/
  | allow {s : State} {wait : Bool} (h : s.calls i = .reading wait) :
      CallStep i s (s.callAt i .admitted)
  | decline {s : State} {wait : Bool} (h : s.calls i = .reading wait) :
      CallStep i s { s.callAt i .refused with lock := none }
  /-- The index is not ready, but there is a predecessor, and the call may wait for its owner. -/
  | defer {s : State} (h : s.calls i = .reading true) :
      CallStep i s { s.callAt i (.waiting s.epoch) with lock := none }
  | count {s : State} (h : s.calls i = .admitted) :
      CallStep i s { s.callAt i .counted with
        activeReads := s.activeReads + 1, live := i :: s.live }
  | answer {s : State} (h : s.calls i = .counted) :
      CallStep i s { s.callAt i .returned with lock := none }
  /-- The owner did not come, or the root is another. -/
  | quit {s : State} {e : Nat} (h : s.calls i = .waiting e ∨ s.calls i = .current e) :
      CallStep i s (s.callAt i .refused)
  | active {s : State} {e : Nat} (h : s.calls i = .waiting e) (hactive : s.active = true) :
      CallStep i s (s.callAt i (.checking e))
  | inactive {s : State} {e : Nat} (h : s.calls i = .waiting e) (hactive : s.active = false) :
      CallStep i s (s.callAt i .refused)
  | current {s : State} {e : Nat} (h : s.calls i = .checking e) (he : s.epoch = e) :
      CallStep i s (s.callAt i (.current e))
  | changed {s : State} {e : Nat} (h : s.calls i = .checking e) (he : s.epoch ≠ e) :
      CallStep i s (s.callAt i .refused)
  /-- `restricted_predecessor_read`, which looks at the epoch again. -/
  | grant {s : State} {e : Nat} (h : s.calls i = .current e) (hrestricted : s.restricted = true)
      (he : s.epoch = e) : CallStep i s (s.callAt i .granted)
  | reenter {s : State} {e : Nat} (h : s.calls i = .current e) :
      CallStep i s (s.callAt i (.entering false))
  /-- The read is counted without the lock. -/
  | countFree {s : State} (h : s.calls i = .granted) :
      CallStep i s { s.callAt i .returned with
        activeReads := s.activeReads + 1, live := i :: s.live }
  /-- `drop` of the evidence. -/
  | drop {s : State} (h : s.calls i = .returned) (hlive : i ∈ s.live) :
      CallStep i s { s with activeReads := s.activeReads - 1, live := s.live.erase i }

/-- A step of the task that `start` spawns. -/
inductive WorkerStep : State → State → Prop where
  | launch {s : State} (h : s.worker = .launching) (hresources : s.resources = true) :
      WorkerStep s { s with worker := .attempting }
  | launchLate {s : State} (h : s.worker = .launching) (hresources : s.resources = false) :
      WorkerStep s { s with worker := .failed }
  /-- The owner that is retained or elected for the permit. -/
  | reattach {s : State} (owner : Session) (h : s.worker = .attempting)
      (hpermit : s.permit = true) (hfree : s.lock = none) :
      WorkerStep s { s with worker := .reattached owner, phase := .transitional owner }
  /-- Somebody else owns the checkout, or the permit is void. -/
  | demote {s : State} (h : s.worker = .attempting) (hpermit : s.permit = true)
      (hfree : s.lock = none) :
      WorkerStep s { s with worker := .establishing, phase := .reconciling }
  | establish {s : State} (h : s.worker = .attempting) (hpermit : s.permit = false) :
      WorkerStep s { s with worker := .establishing }
  | settleOwner {s : State} {owner : Session} (h : s.worker = .reattached owner) :
      WorkerStep s { s with worker := .settled owner }
  | settle {s : State} (owner : Session) (h : s.worker = .establishing) :
      WorkerStep s { s with worker := .settled owner }
  | fail {s : State} (h : s.worker = .attempting ∨ (∃ owner, s.worker = .reattached owner) ∨
      s.worker = .establishing) : WorkerStep s { s with worker := .failed }
  | keep {s : State} {owner : Session} (h : s.worker = .settled owner)
      (hresources : s.resources = true) : WorkerStep s { s with worker := .retaining owner }
  | abandon {s : State} {owner : Session} (h : s.worker = .settled owner)
      (hresources : s.resources = false) : WorkerStep s { s with worker := .stopped }
  /-- `retain_serving_session`. -/
  | retain {s : State} {owner : Session} (h : s.worker = .retaining owner) :
      WorkerStep s { s with worker := .readying owner, serving := some owner }
  | ready {s : State} {owner : Session} (h : s.worker = .readying owner) (hfree : s.lock = none) :
      WorkerStep s { s with worker := .finishing, phase := .ready owner }
  | finish {s : State} (h : s.worker = .finishing) :
      WorkerStep s { s with worker := .stopped, hInFlight := false }
  /-- `revoke_restricted_predecessor`, where there are resources. -/
  | revoke {s : State} (h : s.worker = .failed) :
      WorkerStep s { s with
        worker := .revoked, restricted := if s.resources then false else s.restricted }
  | lose {s : State} (h : s.worker = .revoked) (hresources : s.resources = true)
      (hfree : s.lock = none) :
      WorkerStep s { s with worker := .retiring, lock := some .worker }
  | pause {s : State} (h : s.worker = .revoked) : WorkerStep s { s with worker := .pausing }
  /-- Rows of the old root are not failed yet. -/
  | pauseLost {s : State} (h : s.worker = .retiring) :
      WorkerStep s { s with worker := .pausing, lock := none }
  | retire {s : State} (h : s.worker = .retiring) :
      WorkerStep s { s with worker := .retired, phase := .reconciling, lock := none }
  | retired {s : State} (h : s.worker = .retired) :
      WorkerStep s { s with worker := .stopped, hInFlight := false }
  | await {s : State} (h : s.worker = .pausing) :
      WorkerStep s { s with worker := .paused, retryWaiting := true }
  | sleep {s : State} (h : s.worker = .paused) :
      WorkerStep s { s with worker := .sleeping, hInFlight := false }
  | wake {s : State} (h : s.worker = .sleeping) (hfree : s.lock = none) :
      WorkerStep s { s with worker := .rearming, lock := some .worker }
  | stop {s : State} (h : s.worker = .rearming) (hactive : s.active = false) :
      WorkerStep s { s with worker := .stopped, lock := none }
  | rearm {s : State} (h : s.worker = .rearming) (hactive : s.active = true) :
      WorkerStep s { s with worker := .rearmed, hInFlight := true }
  | relaunch {s : State} (h : s.worker = .rearmed) :
      WorkerStep s { s with worker := .launching, retryWaiting := false, lock := none }

/-- A step of `release_runtime`. -/
inductive ReleaseStep : State → State → Prop where
  | start {s : State} (h : s.releaser = .idle) (hresources : s.resources = true) :
      ReleaseStep s { s with releaser := .probing }
  | probeFlight {s : State} (h : s.releaser = .probing) :
      ReleaseStep s { s with releaser := if s.hInFlight then .idle else .probingPhase }
  /-- `catching_up`, under the lock for itself. -/
  | probePhase {s : State} (verified lost watch queue : Bool) (h : s.releaser = .probingPhase)
      (hfree : s.lock = none) :
      ReleaseStep s { s with
        phase := s.refreshed verified
        releaser := if { s with phase := s.refreshed verified }.catchingUp lost watch queue
          then .probingRetry else .probingReads }
  | probeRetry {s : State} (h : s.releaser = .probingRetry) :
      ReleaseStep s { s with releaser := if s.retryWaiting then .probingReads else .idle }
  | probeReads {s : State} (h : s.releaser = .probingReads) :
      ReleaseStep s { s with releaser := if s.activeReads = 0 then .probingQueue else .idle }
  | probeQueue {s : State} (pending : Bool) (h : s.releaser = .probingQueue) :
      ReleaseStep s { s with releaser := if pending then .idle else .entering }
  | lock {s : State} (verified : Bool) (h : s.releaser = .entering) (hfree : s.lock = none) :
      ReleaseStep s { s with
        releaser := .locked, lock := some .release, phase := s.refreshed verified }
  | busy {s : State}
      (h : s.releaser = .locked ∧ s.hInFlight = true ∨
        s.releaser = .gatePhase ∧ s.phase.isTransitional = true ∧ s.retryWaiting = false ∨
        s.releaser = .gateReads ∧ s.activeReads ≠ 0) :
      ReleaseStep s { s with releaser := .idle, lock := none }
  | gateFlight {s : State} (h : s.releaser = .locked) (hflight : s.hInFlight = false) :
      ReleaseStep s { s with releaser := .gatePhase }
  | gatePhase {s : State} (h : s.releaser = .gatePhase)
      (hphase : s.phase.isTransitional = true → s.retryWaiting = true) :
      ReleaseStep s { s with releaser := .gateReads }
  | gateReads {s : State} (h : s.releaser = .gateReads) (hreads : s.activeReads = 0) :
      ReleaseStep s { s with releaser := .cleared }
  | bump {s : State} (h : s.releaser = .cleared) :
      ReleaseStep s { s with releaser := .bumped, epoch := s.epoch + 1 }
  /-- `release_permit`, whatever comes of it. -/
  | mint {s : State} (h : s.releaser = .bumped) : ReleaseStep s { s with releaser := .minted }
  | close {s : State} (h : s.releaser = .minted) :
      ReleaseStep s { s with releaser := .closed, active := false }
  /-- `notify_owner_validation_release`. -/
  | notify {s : State} (h : s.releaser = .closed) :
      ReleaseStep s { s with releaser := .notified, restricted := false }
  /-- `release_checkout_runtime`. -/
  | halt {s : State} (h : s.releaser = .notified) :
      ReleaseStep s { s with releaser := .halted, serving := none }
  | demote {s : State} (h : s.releaser = .halted) :
      ReleaseStep s { s with releaser := .demoted, phase := .reconciling }
  | take {s : State} (h : s.releaser = .demoted) :
      ReleaseStep s { s with releaser := .retired, resources := false }
  | unlock {s : State} (h : s.releaser = .retired) :
      ReleaseStep s { s with releaser := .done, lock := none }

/-- What others do: a handle refreshes the phase, a tick changes the serving session, an election
associates an owner with the predecessor or a failed one revokes it. -/
inductive OtherStep : State → State → Prop where
  | refresh {s : State} (verified : Bool) (hfree : s.lock = none) :
      OtherStep s { s with phase := s.refreshed verified }
  | tick {s : State} (serving : Option Session) : OtherStep s { s with serving := serving }
  | associate {s : State} (restricted : Bool) : OtherStep s { s with restricted := restricted }

def Step (s : State) : Who → State → Prop
  | .call i, s' => CallStep i s s'
  | .worker, s' => WorkerStep s s'
  | .release, s' => ReleaseStep s s'
  | .other, s' => OtherStep s s'

/-- A checkout that `activate` has just started. -/
structure Initial (s : State) : Prop where
  active : s.active = true
  activeReads : s.activeReads = 0
  hInFlight : s.hInFlight = true
  retryWaiting : s.retryWaiting = false
  resources : s.resources = true
  phase : s.phase = .reconciling
  lock : s.lock = none
  serving : s.serving = none
  live : s.live = []
  calls : ∀ i, s.calls i = .idle
  worker : s.worker = .launching
  releaser : s.releaser = .idle

def Next (s s' : State) : Prop := ∃ who, Step s who s'

/-- While the release is past its last check and the epoch is still the old one, no read lies
between its own last check and its count. -/
def Clear (s : State) : Prop := s.releaser = .cleared → ∀ i, s.calls i ≠ .granted

def ClearNext (s s' : State) : Prop := Clear s ∧ Next s s'


variable {s s' : State}

/-! ### Whose the lock is -/

def Locked (s : State) : Prop := ∀ who, s.lock = some who ↔ s.holds who = true

theorem Locked.free (h : Locked s) (hfree : s.lock = none) (who : Who) : s.holds who = false := by
  by_contra hne
  rw [Bool.not_eq_false] at hne
  have hlock := (h who).mpr hne
  rw [hfree] at hlock
  cases hlock

theorem Locked.only (h : Locked s) {a b : Who} (ha : s.holds a = true) (hb : s.holds b = true) :
    a = b := by
  have hlock := (h a).mpr ha
  rw [(h b).mpr hb] at hlock
  exact (Option.some.inj hlock).symm

theorem Locked.stay (h : Locked s) (who : Who) (hlock : s'.lock = s.lock) (hwho : s'.holds who = s.holds who)
    (hothers : ∀ a, a ≠ who → s'.holds a = s.holds a) : Locked s' := fun a => by
  rw [hlock]
  by_cases ha : a = who
  · rw [ha, hwho]; exact h who
  · rw [hothers a ha]; exact h a

theorem Locked.take (h : Locked s) (who : Who) (hfree : s.lock = none) (hlock : s'.lock = some who)
    (hwho : s'.holds who = true) (hothers : ∀ a, a ≠ who → s'.holds a = s.holds a) :
    Locked s' := fun a => by
  by_cases ha : a = who
  · rw [ha, hlock]; exact ⟨fun _ => hwho, fun _ => rfl⟩
  · rw [hlock, hothers a ha, h.free hfree a]
    exact ⟨fun heq => absurd (Option.some.inj heq).symm ha, fun hne => by cases hne⟩

theorem Locked.release (h : Locked s) (who : Who) (hheld : s.holds who = true) (hlock : s'.lock = none)
    (hwho : s'.holds who = false) (hothers : ∀ a, a ≠ who → s'.holds a = s.holds a) :
    Locked s' := fun a => by
  rw [hlock]
  refine ⟨fun hnone => (by cases hnone), fun ha => ?_⟩
  by_cases hne : a = who
  · rw [hne, hwho] at ha; cases ha
  · rw [hothers a hne] at ha; exact absurd (h.only ha hheld) hne

theorem callAt_calls (s : State) (i : Nat) (c : Call) : (s.callAt i c).calls i = c := by
  simp [State.callAt]

variable {i : Nat} {r : Releaser} {who : Who}

theorem callAt_calls_of_ne {j : Nat} (hne : j ≠ i) (s : State) (c : Call) :
    (s.callAt i c).calls j = s.calls j := by
  simp [State.callAt, hne]

theorem callAt_holds (s : State) (i : Nat) (c : Call) :
    (s.callAt i c).holds (.call i) = c.holds := congrArg Call.holds (callAt_calls s i c)

theorem callAt_holds_of_ne {c : Call} (a : Who) (ha : a ≠ .call i) :
    (s.callAt i c).holds a = s.holds a := by
  cases a with
  | call j => exact congrArg Call.holds (callAt_calls_of_ne (fun hj => ha (by rw [hj])) s c)
  | _ => rfl

theorem holds_of_ne_worker {w : Worker} (a : Who) (ha : a ≠ .worker) :
    { s with worker := w }.holds a = s.holds a := by
  cases a with
  | worker => exact absurd rfl ha
  | _ => rfl

theorem holds_of_ne_release (a : Who) (ha : a ≠ .release) :
    { s with releaser := r }.holds a = s.holds a := by
  cases a with
  | release => exact absurd rfl ha
  | _ => rfl

theorem CallStep.locked (h : CallStep i s s') (hs : Locked s) : Locked s' := by
  have hstay : ∀ {c : Call}, c.holds = (s.calls i).holds → Locked (s.callAt i c) := fun hc =>
    hs.stay (.call i) rfl ((callAt_holds s i _).trans hc) callAt_holds_of_ne
  have hrelease : ∀ {c : Call}, (s.calls i).holds = true → c.holds = false →
      Locked { s.callAt i c with lock := none } := fun hheld hc =>
    hs.release (.call i) hheld rfl ((callAt_holds s i _).trans hc) callAt_holds_of_ne
  cases h with
  | enter h | allow h | active h hactive | inactive h hactive | current h he | changed h he
  | grant h hrestricted he | reenter h => exact hstay (by rw [h]; rfl)
  | lock h hfree => exact hs.take (.call i) hfree rfl (callAt_holds s i _) callAt_holds_of_ne
  | released h hout | decline h | defer h | answer h => exact hrelease (by rw [h]; rfl) rfl
  | refresh verified h hactive hresources =>
      exact hstay (c := .reading _) (by rw [h]; rfl)
  | count h => exact hstay (c := .counted) (by rw [h]; rfl)
  | quit h => rcases h with h | h <;> exact hstay (by rw [h]; rfl)
  | countFree h => exact hstay (c := .returned) (by rw [h]; rfl)
  | drop h hlive => exact hs

theorem WorkerStep.locked (h : WorkerStep s s') (hs : Locked s) : Locked s' := by
  have hstay : ∀ {w : Worker}, w.holds = s.worker.holds → Locked { s with worker := w } :=
    fun hw => hs.stay .worker rfl hw holds_of_ne_worker
  have hrelease : ∀ {w : Worker}, s.worker.holds = true → w.holds = false →
      Locked { s with worker := w, lock := none } := fun hheld hw =>
    hs.release .worker hheld rfl hw holds_of_ne_worker
  have htake : ∀ {w : Worker}, s.lock = none → w.holds = true →
      Locked { s with worker := w, lock := some .worker } := fun hfree hw =>
    hs.take .worker hfree rfl hw holds_of_ne_worker
  cases h with
  | launch h | launchLate h | establish h | settleOwner h | settle owner h | keep h | abandon h
  | pause h => exact hstay (by rw [h]; rfl)
  | reattach owner h => exact hstay (w := .reattached owner) (by rw [h]; rfl)
  | demote h => exact hstay (w := .establishing) (by rw [h]; rfl)
  | fail h => rcases h with h | ⟨owner, h⟩ | h <;> exact hstay (by rw [h]; rfl)
  | retain h => exact hstay (w := .readying _) (by rw [h]; rfl)
  | ready h => exact hstay (w := .finishing) (by rw [h]; rfl)
  | finish h | retired h => exact hstay (w := .stopped) (by rw [h]; rfl)
  | revoke h => exact hstay (w := .revoked) (by rw [h]; rfl)
  | lose h hresources hfree | wake h hfree => exact htake hfree rfl
  | pauseLost h | stop h => exact hrelease (by rw [h]; rfl) rfl
  | retire h => exact hrelease (w := .retired) (by rw [h]; rfl) rfl
  | await h => exact hstay (w := .paused) (by rw [h]; rfl)
  | sleep h => exact hstay (w := .sleeping) (by rw [h]; rfl)
  | rearm h => exact hstay (w := .rearmed) (by rw [h]; rfl)
  | relaunch h => exact hrelease (w := .launching) (by rw [h]; rfl) rfl

theorem ReleaseStep.locked (h : ReleaseStep s s') (hs : Locked s) : Locked s' := by
  have hstay : ∀ {r : Releaser}, r.holds = s.releaser.holds → Locked { s with releaser := r } :=
    fun hr => hs.stay .release rfl hr holds_of_ne_release
  cases h with
  | start h | gateFlight h | gatePhase h | gateReads h | mint h => exact hstay (by rw [h]; rfl)
  | probeFlight h | probeRetry h | probeReads h | probeQueue pending h =>
      exact hstay (by rw [h]; split <;> rfl)
  | probePhase verified lost watch queue h =>
      refine hs.stay .release rfl ?_ holds_of_ne_release
      show Releaser.holds (if _ then _ else _) = s.releaser.holds
      rw [h]
      split <;> rfl
  | lock verified h hfree =>
      exact hs.take .release hfree rfl rfl holds_of_ne_release
  | busy h =>
      refine hs.release .release ?_ rfl rfl holds_of_ne_release
      show s.releaser.holds = true
      rcases h with ⟨h, -⟩ | ⟨h, -⟩ | ⟨h, -⟩ <;> rw [h] <;> rfl
  | bump h => exact hstay (r := .bumped) (by rw [h]; rfl)
  | close h => exact hstay (r := .closed) (by rw [h]; rfl)
  | notify h => exact hstay (r := .notified) (by rw [h]; rfl)
  | halt h => exact hstay (r := .halted) (by rw [h]; rfl)
  | demote h => exact hstay (r := .demoted) (by rw [h]; rfl)
  | take h => exact hstay (r := .retired) (by rw [h]; rfl)
  | unlock h =>
      refine hs.release .release ?_ rfl rfl holds_of_ne_release
      show s.releaser.holds = true
      rw [h]
      rfl

/-! ### What holds in every run -/

/-- Evidence is counted, the flag is up while an attempt is in flight, and the release finds it
down and leaves it so. -/
structure Sound (s : State) : Prop where
  locked : Locked s
  reads : s.activeReads = s.live.length
  flight : s.worker.inFlight = true → s.hInFlight = true
  gate : s.releaser.pastFlight = true → s.hInFlight = false
  closed : s.releaser.pastClose = true → s.active = false
  taken : s.resources = false ↔ s.releaser.pastTake = true

theorem Initial.sound (h : Initial s) : Sound s where
  locked := fun who => by
    rw [h.lock]
    refine ⟨fun hne => (by cases hne), fun hne => ?_⟩
    cases who with
    | call i => rw [show s.holds (.call i) = (s.calls i).holds from rfl, h.calls i] at hne; cases hne
    | worker => rw [show s.holds .worker = s.worker.holds from rfl, h.worker] at hne; cases hne
    | release => rw [show s.holds .release = s.releaser.holds from rfl, h.releaser] at hne; cases hne
    | other => cases hne
  reads := by rw [h.activeReads, h.live]; rfl
  flight := fun _ => h.hInFlight
  gate := fun hpast => by rw [h.releaser] at hpast; cases hpast
  closed := fun hpast => by rw [h.releaser] at hpast; cases hpast
  taken := by
    rw [h.resources, h.releaser]
    exact ⟨fun hne => (by cases hne), fun hne => (by cases hne)⟩

theorem CallStep.frame (h : CallStep i s s') :
    s'.worker = s.worker ∧ s'.releaser = s.releaser ∧ s'.hInFlight = s.hInFlight ∧
      s'.active = s.active ∧ s'.epoch = s.epoch ∧ s'.resources = s.resources := by
  cases h <;> exact ⟨rfl, rfl, rfl, rfl, rfl, rfl⟩

theorem WorkerStep.frame (h : WorkerStep s s') :
    s'.calls = s.calls ∧ s'.live = s.live ∧ s'.activeReads = s.activeReads ∧
      s'.releaser = s.releaser ∧ s'.active = s.active ∧ s'.epoch = s.epoch ∧
      s'.resources = s.resources := by
  cases h <;> exact ⟨rfl, rfl, rfl, rfl, rfl, rfl, rfl⟩

theorem ReleaseStep.frame (h : ReleaseStep s s') :
    s'.calls = s.calls ∧ s'.live = s.live ∧ s'.activeReads = s.activeReads ∧
      s'.worker = s.worker ∧ s'.hInFlight = s.hInFlight := by
  cases h <;> exact ⟨rfl, rfl, rfl, rfl, rfl⟩

theorem CallStep.reads (h : CallStep i s s') (hs : s.activeReads = s.live.length) :
    s'.activeReads = s'.live.length := by
  cases h with
  | count | countFree => exact congrArg (· + 1) hs
  | drop h hlive =>
      show s.activeReads - 1 = (s.live.erase i).length
      rw [hs, List.length_erase_of_mem hlive]
  | _ => exact hs

theorem Releaser.holds_of_pastFlight (h : r.pastFlight = true) : r.holds = true ∨ r = .done := by
  cases r <;> first | exact .inl rfl | exact .inr rfl | cases h

/-- Under the lock, the worker meets no release that is past its gate, unless it is done. -/
theorem Sound.apart (hs : Sound s) (hheld : s.holds .worker = true)
    (hpast : s.releaser.pastFlight = true) : s.active = false := by
  rcases Releaser.holds_of_pastFlight hpast with hholds | hdone
  · have hsame : Who.worker = Who.release := hs.locked.only hheld hholds
    cases hsame
  · exact hs.closed (by rw [hdone]; rfl)

theorem WorkerStep.flight (h : WorkerStep s s')
    (hs : s.worker.inFlight = true → s.hInFlight = true) :
    s'.worker.inFlight = true → s'.hInFlight = true := by
  cases h with
  | finish | retired | sleep | wake | stop | abandon => exact fun hne => by cases hne
  | rearm h => exact fun _ => rfl
  | fail h => rcases h with h | ⟨owner, h⟩ | h <;> exact fun _ => hs (by rw [h]; rfl)
  | launch h | launchLate h | reattach owner h | demote h | establish h | settleOwner h
  | settle owner h | keep h | retain h | ready h | revoke h | lose h | pause h | pauseLost h
  | retire h | await h | relaunch h => exact fun _ => hs (by rw [h]; rfl)

theorem WorkerStep.gate (h : WorkerStep s s') (hs : Sound s)
    (hpast : s.releaser.pastFlight = true) : s'.hInFlight = false := by
  cases h with
  | finish | retired | sleep => rfl
  | rearm h hactive =>
      have hclosed := hs.apart (by rw [show s.holds .worker = s.worker.holds from rfl, h]; rfl) hpast
      rw [hactive] at hclosed
      cases hclosed
  | _ => exact hs.gate hpast

theorem ReleaseStep.gate (h : ReleaseStep s s')
    (hs : s.releaser.pastFlight = true → s.hInFlight = false) :
    s'.releaser.pastFlight = true → s.hInFlight = false := by
  cases h with
  | probeFlight h | probeRetry h | probeReads h | probeQueue pending h =>
      split <;> exact fun hne => by cases hne
  | probePhase verified lost watch queue h =>
      show Releaser.pastFlight (if _ then _ else _) = true → _
      split <;> exact fun hne => by cases hne
  | gateFlight h hflight => exact fun _ => hflight
  | gatePhase h | gateReads h | bump h | mint h | close h | notify h | halt h | demote h
  | take h | unlock h => exact fun _ => hs (by rw [h]; rfl)
  | start | lock | busy => exact fun hne => by cases hne

/-- What the release does from its last check on. -/
inductive Late (s : State) : State → Prop where
  | clear (h : s.releaser = .gateReads) (hreads : s.activeReads = 0) :
      Late s { s with releaser := .cleared }
  | bump (h : s.releaser = .cleared) :
      Late s { s with releaser := .bumped, epoch := s.epoch + 1 }
  | mint (h : s.releaser = .bumped) : Late s { s with releaser := .minted }
  | close (h : s.releaser = .minted) : Late s { s with releaser := .closed, active := false }
  | notify (h : s.releaser = .closed) :
      Late s { s with releaser := .notified, restricted := false }
  | halt (h : s.releaser = .notified) : Late s { s with releaser := .halted, serving := none }
  | demote (h : s.releaser = .halted) :
      Late s { s with releaser := .demoted, phase := .reconciling }
  | take (h : s.releaser = .demoted) :
      Late s { s with releaser := .retired, resources := false }
  | unlock (h : s.releaser = .retired) : Late s { s with releaser := .done, lock := none }

theorem ReleaseStep.cases (h : ReleaseStep s s') : Late s s' ∨
    s.releaser.pastReads = false ∧ s'.releaser.pastReads = false ∧ s'.active = s.active ∧
      s'.epoch = s.epoch ∧ s'.resources = s.resources := by
  have hearly : ∀ {a b : Releaser}, a.pastReads = false → b.pastReads = false →
      ∀ c : Bool, (if c then a else b).pastReads = false := fun ha hb c => by
    cases c
    · exact hb
    · exact ha
  cases h with
  | gateReads h hreads => exact .inl (.clear h hreads)
  | bump h => exact .inl (.bump h)
  | mint h => exact .inl (.mint h)
  | close h => exact .inl (.close h)
  | notify h => exact .inl (.notify h)
  | halt h => exact .inl (.halt h)
  | demote h => exact .inl (.demote h)
  | take h => exact .inl (.take h)
  | unlock h => exact .inl (.unlock h)
  | start h | lock verified h | gateFlight h | gatePhase h =>
      exact .inr ⟨by rw [h]; rfl, rfl, rfl, rfl, rfl⟩
  | probeFlight h | probeRetry h | probeQueue pending h =>
      exact .inr ⟨by rw [h]; rfl, hearly rfl rfl _, rfl, rfl, rfl⟩
  | probePhase verified lost watch queue h =>
      exact .inr ⟨by rw [h]; rfl, hearly rfl rfl _, rfl, rfl, rfl⟩
  | probeReads h =>
      refine .inr ⟨by rw [h]; rfl, ?_, rfl, rfl, rfl⟩
      show (if s.activeReads = 0 then Releaser.probingQueue else .idle).pastReads = false
      split <;> rfl
  | busy h =>
      refine .inr ⟨?_, rfl, rfl, rfl, rfl⟩
      rcases h with ⟨h, -⟩ | ⟨h, -⟩ | ⟨h, -⟩ <;> rw [h] <;> rfl

theorem Releaser.pastReads_of_pastClose (h : r.pastClose = true) : r.pastReads = true := by
  cases r <;> first | rfl | cases h

theorem Releaser.pastReads_of_pastTake (h : r.pastTake = true) : r.pastReads = true := by
  cases r <;> first | rfl | cases h

theorem ReleaseStep.closed (h : ReleaseStep s s')
    (hs : s.releaser.pastClose = true → s.active = false)
    (hpast : s'.releaser.pastClose = true) : s'.active = false := by
  rcases h.cases with hlate | ⟨-, hearly, -⟩
  · cases hlate with
    | clear | bump | mint => cases hpast
    | close hr => rfl
    | notify hr | halt hr | demote hr | take hr | unlock hr => exact hs (by rw [hr]; rfl)
  · rw [Releaser.pastReads_of_pastClose hpast] at hearly; cases hearly

theorem ReleaseStep.taken (h : ReleaseStep s s')
    (hs : s.resources = false ↔ s.releaser.pastTake = true) :
    s'.resources = false ↔ s'.releaser.pastTake = true := by
  rcases h.cases with hlate | ⟨hearly, hearly', -, -, hresources⟩
  · cases hlate with
    | take hr => exact ⟨fun _ => rfl, fun _ => rfl⟩
    | clear hr | bump hr | mint hr | close hr | notify hr | halt hr | demote hr | unlock hr =>
        rw [hr] at hs; exact hs
  · rw [hresources]
    refine ⟨fun hfalse => ?_, fun hpast => ?_⟩
    · rw [Releaser.pastReads_of_pastTake (hs.mp hfalse)] at hearly; cases hearly
    · rw [Releaser.pastReads_of_pastTake hpast] at hearly'
      cases hearly'

/-- **Every step keeps what holds in every run.** -/
theorem Sound.step (hs : Sound s) (h : Step s who s') : Sound s' := by
  cases who with
  | call i =>
      have hstep : CallStep i s s' := h
      obtain ⟨hworker, hreleaser, hflight, hactive, -, hresources⟩ := hstep.frame
      refine ⟨hstep.locked hs.locked, hstep.reads hs.reads, ?_, ?_, ?_, ?_⟩
      · rw [hworker, hflight]; exact hs.flight
      · rw [hreleaser, hflight]; exact hs.gate
      · rw [hreleaser, hactive]; exact hs.closed
      · rw [hreleaser, hresources]; exact hs.taken
  | worker =>
      have hstep : WorkerStep s s' := h
      obtain ⟨-, hlive, hreads, hreleaser, hactive, -, hresources⟩ := hstep.frame
      refine ⟨hstep.locked hs.locked, ?_, hstep.flight hs.flight, ?_, ?_, ?_⟩
      · rw [hreads, hlive]; exact hs.reads
      · rw [hreleaser]; exact hstep.gate hs
      · rw [hreleaser, hactive]; exact hs.closed
      · rw [hreleaser, hresources]; exact hs.taken
  | release =>
      have hstep : ReleaseStep s s' := h
      obtain ⟨-, hlive, hreads, hworker, hflight⟩ := hstep.frame
      refine ⟨hstep.locked hs.locked, ?_, ?_, ?_, hstep.closed hs.closed, hstep.taken hs.taken⟩
      · rw [hreads, hlive]; exact hs.reads
      · rw [hworker, hflight]; exact hs.flight
      · rw [hflight]; exact hstep.gate hs.gate
  | other =>
      have hstep : OtherStep s s' := h
      cases hstep <;>
        exact ⟨hs.locked, hs.reads, hs.flight, hs.gate, hs.closed, hs.taken⟩

/-! ### What holds in every run that is clear -/

/-- Past its last check the release has no evidence alive, and past the next epoch none to come. -/
structure Waits (s : State) : Prop where
  sound : Sound s
  empty : s.releaser.pastReads = true → s.live = []
  fenced : s.releaser.pastEpoch = true → ∀ i, (s.calls i).Fenced s.epoch
  bounded : ∀ i, (s.calls i).Bounded s.epoch

theorem Initial.waits (h : Initial s) : Waits s where
  sound := h.sound
  empty := fun _ => h.live
  fenced := fun _ i => by rw [h.calls i]; exact trivial
  bounded := fun i => by rw [h.calls i]; exact trivial

theorem Releaser.pastFlight_of_pastReads (h : r.pastReads = true) : r.pastFlight = true := by
  cases r <;> first | rfl | cases h

theorem Releaser.pastReads_cases (h : r.pastReads = true) : r = .cleared ∨ r.pastEpoch = true := by
  cases r <;> first | exact .inl rfl | exact .inr rfl | cases h

/-- A call under the lock meets no release past its gate, unless it is done. -/
theorem Sound.callApart (hs : Sound s) (hheld : (s.calls i).holds = true)
    (hpast : s.releaser.pastFlight = true) : s.releaser = .done := by
  rcases Releaser.holds_of_pastFlight hpast with hholds | hdone
  · have hsame : Who.call i = Who.release := hs.locked.only hheld hholds
    cases hsame
  · exact hdone

theorem callAt_all {P : Call → Prop} {c : Call} (hc : P c) (hs : ∀ j, P (s.calls j)) :
    ∀ j, P ((s.callAt i c).calls j) := fun j => by
  by_cases hj : j = i
  · rw [hj, callAt_calls]; exact hc
  · rw [callAt_calls_of_ne hj]; exact hs j

theorem CallStep.empty (h : CallStep i s s') (hs : Waits s) (hclear : Clear s)
    (hpast : s.releaser.pastReads = true) : s'.live = [] := by
  have hempty := hs.empty hpast
  cases h with
  | count hi =>
      have hdone := hs.sound.callApart (by rw [hi]; rfl) (Releaser.pastFlight_of_pastReads hpast)
      have hfenced := hs.fenced (by rw [hdone]; rfl) i
      rw [hi] at hfenced
      exact hfenced.elim
  | countFree hi =>
      rcases Releaser.pastReads_cases hpast with hcleared | hepoch
      · exact absurd hi (hclear hcleared i)
      · have hfenced := hs.fenced hepoch i
        rw [hi] at hfenced
        exact hfenced.elim
  | drop hi hlive => rw [hempty] at hlive; cases hlive
  | _ => exact hempty

theorem CallStep.fenced (h : CallStep i s s') (hs : Sound s) (hpast : s.releaser.pastEpoch = true)
    (hfenced : ∀ j, (s.calls j).Fenced s.epoch) : ∀ j, (s'.calls j).Fenced s.epoch := by
  have hi := hfenced i
  cases h with
  | refresh verified h hactive hresources =>
      have hreads : s.releaser.pastReads = true := by
        revert hpast
        cases s.releaser <;> first | exact fun _ => rfl | exact fun hne => by cases hne
      have hdone := hs.callApart (by rw [h]; rfl) (Releaser.pastFlight_of_pastReads hreads)
      rw [hs.closed (by rw [hdone]; rfl)] at hactive
      cases hactive
  | enter | lock | released | decline | quit | inactive | changed | reenter | answer
  | countFree => exact callAt_all (P := Call.Fenced s.epoch) trivial hfenced
  | drop h => exact hfenced
  | allow h => rw [h] at hi; exact hi.elim
  | defer h => rw [h] at hi; exact hi.elim
  | count h => rw [h] at hi; exact hi.elim
  | active h => rw [h] at hi; exact callAt_all (P := Call.Fenced s.epoch) hi hfenced
  | current h => rw [h] at hi; exact callAt_all (P := Call.Fenced s.epoch) hi hfenced
  | grant h hrestricted he => rw [h] at hi; exact absurd he (Nat.ne_of_gt hi)

theorem CallStep.bounded (h : CallStep i s s') (hbounded : ∀ j, (s.calls j).Bounded s.epoch) :
    ∀ j, (s'.calls j).Bounded s.epoch := by
  have hi := hbounded i
  cases h with
  | defer h =>
      exact callAt_all (P := Call.Bounded s.epoch) (Nat.le_refl s.epoch) hbounded
  | active h | current h => rw [h] at hi; exact callAt_all (P := Call.Bounded s.epoch) hi hbounded
  | drop h => exact hbounded
  | _ => exact callAt_all (P := Call.Bounded s.epoch) trivial hbounded

/-- **The last check and the next epoch are reached with no evidence alive or to come.** -/
theorem Late.waits (h : Late s s') (hs : Waits s) (hclear : Clear s) :
    (s'.releaser.pastReads = true → s'.live = []) ∧
      (s'.releaser.pastEpoch = true → ∀ i, (s'.calls i).Fenced s'.epoch) ∧
      ∀ i, (s'.calls i).Bounded s'.epoch := by
  have hkeep : ∀ {b : Releaser}, s.releaser = b → b.pastEpoch = true → b.pastReads = true →
      s.live = [] ∧ ∀ i, (s.calls i).Fenced s.epoch := fun hb hepoch hreads =>
    ⟨hs.empty (by rw [hb]; exact hreads), hs.fenced (by rw [hb]; exact hepoch)⟩
  cases h with
  | clear h hreads =>
      refine ⟨fun _ => ?_, fun hne => (by cases hne), hs.bounded⟩
      have hlength := hs.sound.reads
      rw [hreads] at hlength
      exact List.length_eq_zero_iff.mp hlength.symm
  | bump h =>
      refine ⟨fun _ => hs.empty (by rw [h]; rfl), fun _ i => ?_, fun i => ?_⟩
      · have hbounded := hs.bounded i
        have hgranted := hclear h i
        have hheld : (s.calls i).holds ≠ true := fun hheld => by
          have hdone := hs.sound.callApart hheld (by rw [h]; rfl)
          rw [h] at hdone
          cases hdone
        show (s.calls i).Fenced (s.epoch + 1)
        revert hbounded hgranted hheld
        cases s.calls i with
        | waiting | checking | current => exact fun hb _ _ => Nat.lt_succ_of_le hb
        | granted => exact fun _ hg _ => hg rfl
        | reading | admitted | counted => exact fun _ _ hh => hh rfl
        | _ => exact fun _ _ _ => trivial
      · have hbounded := hs.bounded i
        show (s.calls i).Bounded (s.epoch + 1)
        revert hbounded
        cases s.calls i with
        | waiting | checking | current => exact Nat.le_succ_of_le
        | _ => exact fun _ => trivial
  | mint h | close h | notify h | halt h | demote h | take h | unlock h =>
      obtain ⟨hempty, hfenced⟩ := hkeep h rfl rfl
      exact ⟨fun _ => hempty, fun _ => hfenced, hs.bounded⟩

theorem Releaser.pastReads_of_pastEpoch (h : r.pastEpoch = true) : r.pastReads = true := by
  cases r <;> first | rfl | cases h

/-- **A step from a clear state keeps the release waiting.** -/
theorem Waits.step (hs : Waits s) (hclear : Clear s) (h : Step s who s') : Waits s' := by
  have hsound := hs.sound.step h
  cases who with
  | call i =>
      have hstep : CallStep i s s' := h
      obtain ⟨-, hreleaser, -, -, hepoch, -⟩ := hstep.frame
      refine ⟨hsound, fun hpast => ?_, fun hpast => ?_, ?_⟩
      · rw [hreleaser] at hpast; exact hstep.empty hs hclear hpast
      · rw [hreleaser] at hpast
        rw [hepoch]
        exact hstep.fenced hs.sound hpast (hs.fenced hpast)
      · rw [hepoch]; exact hstep.bounded hs.bounded
  | worker =>
      have hstep : WorkerStep s s' := h
      obtain ⟨hcalls, hlive, -, hreleaser, -, hepoch, -⟩ := hstep.frame
      refine ⟨hsound, ?_, ?_, ?_⟩
      · rw [hreleaser, hlive]; exact hs.empty
      · rw [hreleaser, hcalls, hepoch]; exact hs.fenced
      · rw [hcalls, hepoch]; exact hs.bounded
  | release =>
      have hstep : ReleaseStep s s' := h
      rcases hstep.cases with hlate | ⟨-, hearly, -, hepoch, -⟩
      · obtain ⟨hempty, hfenced, hbounded⟩ := hlate.waits hs hclear
        exact ⟨hsound, hempty, hfenced, hbounded⟩
      · obtain ⟨hcalls, -⟩ := hstep.frame
        refine ⟨hsound, fun hpast => ?_, fun hpast => ?_, ?_⟩
        · rw [hpast] at hearly; cases hearly
        · rw [Releaser.pastReads_of_pastEpoch hpast] at hearly; cases hearly
        · rw [hcalls, hepoch]; exact hs.bounded
  | other =>
      have hstep : OtherStep s s' := h
      cases hstep <;> exact ⟨hsound, hs.empty, hs.fenced, hs.bounded⟩

/-! ### Runs -/

section Runs

open Relation (ReflTransGen)

variable {a b c : State}

theorem run_call {i : Nat} (h : ReflTransGen Next a b) (hstep : CallStep i b c) :
    ReflTransGen Next a c := h.tail ⟨.call i, hstep⟩

theorem run_worker (h : ReflTransGen Next a b) (hstep : WorkerStep b c) :
    ReflTransGen Next a c := h.tail ⟨.worker, hstep⟩

theorem run_release (h : ReflTransGen Next a b) (hstep : ReleaseStep b c) :
    ReflTransGen Next a c := h.tail ⟨.release, hstep⟩

theorem run_other (h : ReflTransGen Next a b) (hstep : OtherStep b c) :
    ReflTransGen Next a c := h.tail ⟨.other, hstep⟩

theorem ends_retired (h : s.releaser = .cleared) :
    ∃ t, ReflTransGen Next s t ∧ t.resources = false ∧ t.live = s.live :=
  ⟨_, run_release (run_release (run_release (run_release (run_release (run_release
    (run_release .refl (.bump h)) (.mint rfl)) (.close rfl)) (.notify rfl)) (.halt rfl))
    (.demote rfl)) (.take rfl), rfl, rfl⟩

/-- **From a state that is not clear, evidence can outlive the resources.** -/
theorem outlives_of_not_clear (h : ¬ Clear s) :
    ∃ t, ReflTransGen Next s t ∧ t.resources = false ∧ t.live ≠ [] := by
  unfold Clear at h
  push Not at h
  obtain ⟨hcleared, i, hgranted⟩ := h
  have hcount := run_call (a := s) .refl (.countFree hgranted)
  obtain ⟨t, hrun, hresources, hlive⟩ := ends_retired (s := { s.callAt i .returned with
    activeReads := s.activeReads + 1, live := i :: s.live }) hcleared
  exact ⟨t, hcount.trans hrun, hresources, by rw [hlive]; exact List.cons_ne_nil _ _⟩

end Runs

theorem sound_of_reachable (h : Runs.Reachable Initial Next s) : Sound s :=
  h.keeps (fun _ h => h.sound) fun _ _ ⟨_, hstep⟩ hs => hs.step hstep

theorem waits_of_reachable (h : Runs.Reachable Initial ClearNext s) : Waits s :=
  h.keeps (fun _ h => h.waits) fun _ _ ⟨hclear, _, hstep⟩ hs => hs.step hclear hstep

/-- The resources are gone, and no attempt is in flight. -/
structure Quiet (s : State) : Prop where
  taken : s.resources = false
  flight : s.hInFlight = false
  worker : s.worker.inFlight = false

theorem Sound.quiet (hs : Sound s) (htaken : s.resources = false) : Quiet s := by
  have hpast := hs.taken.mp htaken
  have hflight := hs.gate (Releaser.pastFlight_of_pastReads (Releaser.pastReads_of_pastTake hpast))
  refine ⟨htaken, hflight, ?_⟩
  by_contra hne
  rw [Bool.not_eq_false] at hne
  rw [hs.flight hne] at hflight
  cases hflight

theorem Step.taken (h : Step s who s') (htaken : s.resources = false) : s'.resources = false := by
  cases who with
  | call i =>
      obtain ⟨-, -, -, -, -, hresources⟩ := CallStep.frame h
      rw [hresources]
      exact htaken
  | worker =>
      obtain ⟨-, -, -, -, -, -, hresources⟩ := WorkerStep.frame h
      rw [hresources]
      exact htaken
  | release =>
      rcases ReleaseStep.cases h with hlate | ⟨-, -, -, -, hresources⟩
      · cases hlate <;> first | exact htaken | rfl
      · rw [hresources]; exact htaken
  | other =>
      have hstep : OtherStep s s' := h
      cases hstep <;> exact htaken

theorem WorkerStep.installs (h : WorkerStep s s') (hworker : s.worker.inFlight = false) :
    s'.serving = s.serving ∧ s'.phase = s.phase := by
  cases h with
  | reattach owner h | demote h | retain h | ready h | retire h => rw [h] at hworker; cases hworker
  | _ => exact ⟨rfl, rfl⟩

/-- **A release waits for the worker in every run, and for the readers in every run that is
clear**; the evidence that is alive is counted in every run.  And from a state that is not clear
evidence can outlive the resources. -/
theorem release_waits (s : State) :
    (Runs.Reachable Initial Next s → s.activeReads = s.live.length ∧
      (s.resources = false → Quiet s ∧ ∀ who s', Step s who s' → Quiet s' ∧
        (who = .worker → s'.serving = s.serving ∧ s'.phase = s.phase))) ∧
    (Runs.Reachable Initial ClearNext s → s.resources = false → s.live = [] ∧
      ∀ who s', Step s who s' → s'.live = []) ∧
    (Runs.Reachable Initial Next s → ¬ Clear s →
      ∃ s', Relation.ReflTransGen Next s s' ∧ s'.resources = false ∧ s'.live ≠ []) := by
  refine ⟨fun h => ?_, fun h htaken => ?_, fun _ hclear => outlives_of_not_clear hclear⟩
  · have hsound := sound_of_reachable h
    refine ⟨hsound.reads, fun htaken => ⟨hsound.quiet htaken, fun who s' hstep => ?_⟩⟩
    refine ⟨(hsound.step hstep).quiet (hstep.taken htaken), fun hwho => ?_⟩
    rw [hwho] at hstep
    exact WorkerStep.installs hstep (hsound.quiet htaken).worker
  · have hwaits := waits_of_reachable h
    have hpast := hwaits.sound.taken.mp htaken
    have hclear : Clear s := fun hcleared => by
      rw [hcleared] at hpast
      cases hpast
    refine ⟨hwaits.empty (Releaser.pastReads_of_pastTake hpast), fun who s' hstep => ?_⟩
    have hwaits' := hwaits.step hclear hstep
    have hpast' := hwaits'.sound.taken.mp (hstep.taken htaken)
    exact hwaits'.empty (Releaser.pastReads_of_pastTake hpast')

/-! ### Evidence that outlives the resources -/

open Relation (ReflTransGen)

def staged (c : Call) (worker : Worker) (hInFlight retryWaiting restricted : Bool)
    (lock : Option Who) (releaser : Releaser) : State where
  active := true
  epoch := 1
  activeReads := 0
  hInFlight := hInFlight
  retryWaiting := retryWaiting
  resources := true
  phase := .reconciling
  lock := lock
  serving := none
  restricted := restricted
  permit := false
  live := []
  calls := Function.update (fun _ => .idle) 0 c
  worker := worker
  releaser := releaser

def started : State := staged .idle .launching true false false none .idle

theorem started_initial : Initial started := by
  refine ⟨rfl, rfl, rfl, rfl, rfl, rfl, rfl, rfl, rfl, fun i => ?_, rfl, rfl⟩
  show Function.update (fun _ => Call.idle) 0 Call.idle i = Call.idle
  rw [Function.update_eq_self 0 fun _ => Call.idle]

section Staged

variable {c : Call} {w : Worker} {flight retry restricted : Bool} {lock : Option Who}
  {r : Releaser}

theorem staged_callAt (c' : Call) : (staged c w flight retry restricted lock r).callAt 0 c' =
    staged c' w flight retry restricted lock r := by
  simp [State.callAt, staged]

theorem staged_call {c' : Call} {lock' : Option Who}
    (h : CallStep 0 (staged c w flight retry restricted lock r)
      { (staged c w flight retry restricted lock r).callAt 0 c' with lock := lock' }) :
    ReflTransGen Next (staged c w flight retry restricted lock r)
      (staged c' w flight retry restricted lock' r) := by
  rw [staged_callAt] at h
  exact .single ⟨.call 0, h⟩

/-- A call finds the index not ready, and is granted the predecessor of an owner. -/
theorem staged_granted : ReflTransGen Next started
    (staged .granted .launching true false true none .idle) := by
  have henter : ReflTransGen Next started
      (staged (.entering true) .launching true false false none .idle) :=
    staged_call (.enter rfl)
  have hlock := henter.trans (staged_call (.lock rfl rfl))
  have hrefresh := hlock.trans (staged_call (.refresh false rfl rfl rfl))
  have hdefer := hrefresh.trans (staged_call (.defer rfl))
  have hactive := hdefer.trans (staged_call (.active rfl rfl))
  have hcurrent := hactive.trans (staged_call (.current rfl rfl))
  have hassociate : ReflTransGen Next started
      (staged (.current 1) .launching true false true none .idle) :=
    run_other hcurrent (.associate true)
  exact hassociate.trans (staged_call (.grant rfl rfl rfl))

theorem staged_sleeping : ReflTransGen Next
    (staged c .launching true false restricted none .idle)
    (staged c .sleeping false true false none .idle) := by
  have hattempt : ReflTransGen Next (staged c .launching true false restricted none .idle)
      (staged c .attempting true false restricted none .idle) :=
    run_worker .refl (.launch rfl rfl)
  have hestablish : ReflTransGen Next (staged c .launching true false restricted none .idle)
      (staged c .establishing true false restricted none .idle) :=
    run_worker hattempt (.establish rfl rfl)
  have hfail : ReflTransGen Next (staged c .launching true false restricted none .idle)
      (staged c .failed true false restricted none .idle) :=
    run_worker hestablish (.fail (.inr (.inr rfl)))
  have hrevoke : ReflTransGen Next (staged c .launching true false restricted none .idle)
      (staged c .revoked true false false none .idle) :=
    run_worker hfail (.revoke rfl)
  have hpause : ReflTransGen Next (staged c .launching true false restricted none .idle)
      (staged c .pausing true false false none .idle) :=
    run_worker hrevoke (.pause rfl)
  have hawait : ReflTransGen Next (staged c .launching true false restricted none .idle)
      (staged c .paused true true false none .idle) :=
    run_worker hpause (.await rfl)
  exact run_worker hawait (.sleep rfl)

theorem staged_cleared : ReflTransGen Next (staged c .sleeping false true false none .idle)
    (staged c .sleeping false true false (some .release) .cleared) := by
  have hprobe : ReflTransGen Next (staged c .sleeping false true false none .idle)
      (staged c .sleeping false true false none .probing) :=
    run_release .refl (.start rfl rfl)
  have hflight : ReflTransGen Next (staged c .sleeping false true false none .idle)
      (staged c .sleeping false true false none .probingPhase) :=
    run_release hprobe (.probeFlight rfl)
  have hphase : ReflTransGen Next (staged c .sleeping false true false none .idle)
      (staged c .sleeping false true false none .probingRetry) :=
    run_release hflight (.probePhase true false false false rfl rfl)
  have hretry : ReflTransGen Next (staged c .sleeping false true false none .idle)
      (staged c .sleeping false true false none .probingReads) :=
    run_release hphase (.probeRetry rfl)
  have hreads : ReflTransGen Next (staged c .sleeping false true false none .idle)
      (staged c .sleeping false true false none .probingQueue) :=
    run_release hretry (.probeReads rfl)
  have hqueue : ReflTransGen Next (staged c .sleeping false true false none .idle)
      (staged c .sleeping false true false none .entering) :=
    run_release hreads (.probeQueue false rfl)
  have hlock : ReflTransGen Next (staged c .sleeping false true false none .idle)
      (staged c .sleeping false true false (some .release) .locked) :=
    run_release hqueue (.lock true rfl rfl)
  have hgate : ReflTransGen Next (staged c .sleeping false true false none .idle)
      (staged c .sleeping false true false (some .release) .gatePhase) :=
    run_release hlock (.gateFlight rfl rfl)
  have hgateReads : ReflTransGen Next (staged c .sleeping false true false none .idle)
      (staged c .sleeping false true false (some .release) .gateReads) :=
    run_release hgate (.gatePhase rfl fun _ => rfl)
  exact run_release hgateReads (.gateReads rfl rfl)

end Staged

/-- **A call that was granted a predecessor before the release counts its read after it.** -/
theorem release_waits_outlived :
    ¬ ∀ s, Runs.Reachable Initial Next s → s.resources = false → s.live = [] := by
  intro hall
  have hreached : ReflTransGen Next started
      (staged .granted .sleeping false true false (some .release) .cleared) :=
    (staged_granted.trans staged_sleeping).trans staged_cleared
  have hclear : ¬ Clear (staged .granted .sleeping false true false (some .release) .cleared) :=
    fun hclear => hclear rfl 0 rfl
  obtain ⟨t, hrun, hresources, hlive⟩ := outlives_of_not_clear hclear
  exact hlive (hall t ⟨started, started_initial, hreached.trans hrun⟩ hresources)

end Baleyg.Daemon.Release
