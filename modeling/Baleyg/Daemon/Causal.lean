/-
The stream of causal records.

Producers put events into a bounded queue and never wait; one writer takes them out and delivers
them, one after the other.  A producer that finds the queue full has lost its event and raises a
flag, and the writer stops where it sees the flag.  Finding the queue full and raising the flag
are two steps.

What the writer delivers is numbered in the order in which it takes it out, so numbers follow from
where the writer stands.  That an event which came into the queue behind the flag is not delivered
follows from the flag being raised for good: the writer looks at it after it has taken the event
out.  Between the two steps of a producer nothing holds the others back, and an event that comes
into the queue there is delivered although one before it was lost.
-/
import Mathlib.Algebra.Order.Ring.Nat
import Mathlib.Data.List.Basic
import Baleyg.Lib.Runs

namespace Baleyg.Daemon.Causal

open Function (update)
open Relation (ReflTransGen)

/-! ### Events and records -/

inductive EventKind where
  | hReady
  | watchPending
  | watchAck
  deriving DecidableEq, Repr

/-- A record is of an event, or tells of an error. -/
inductive Kind where
  | event (kind : EventKind)
  | error
  deriving DecidableEq, Repr

structure Lineage where
  ownerIncarnation : Nat
  watchEpoch : Nat
  ordinal : Nat
  deriving DecidableEq, Repr

structure IndexPin where
  indexGeneration : Nat
  indexRevision : Nat
  deriving DecidableEq, Repr

structure QueuedEvent where
  kind : EventKind
  lineage : Lineage
  watchGeneration : Option Nat
  pin : Option IndexPin
  queueEmpty : Option Bool
  deriving DecidableEq, Repr

/-- `Event`, without the names that are the same in every record of a stream. -/
structure Record where
  kind : Kind
  lineage : Lineage
  watchGeneration : Option Nat
  pin : Option IndexPin
  queueEmpty : Option Bool
  streamSeq : Nat
  deriving DecidableEq, Repr

inductive Call where
  | hReady (lineage : Lineage) (pin : IndexPin)
  | watchPending (lineage : Lineage) (generation : Nat)
  | watchAck (lineage : Lineage) (generation : Nat) (pin : IndexPin) (queueEmpty : Bool)

/-- The event a call sends; nothing is acknowledged of a queue that is not empty. -/
def Call.event : Call → Option QueuedEvent
  | .hReady lineage pin => some ⟨.hReady, lineage, none, some pin, none⟩
  | .watchPending lineage generation => some ⟨.watchPending, lineage, some generation, none, none⟩
  | .watchAck lineage generation pin queueEmpty =>
      if queueEmpty then some ⟨.watchAck, lineage, some generation, some pin, some true⟩ else none

def recordOf (e : QueuedEvent) (streamSeq : Nat) : Record :=
  ⟨.event e.kind, e.lineage, e.watchGeneration, e.pin, e.queueEmpty, streamSeq⟩

def errorRecord (lineage : Lineage) (streamSeq : Nat) : Record :=
  ⟨.error, lineage, none, none, none, streamSeq⟩

/-! ### The stream -/

def queueCapacity : Nat := 64

def maxSeq : Nat := 2 ^ 64 - 1

/-- An event in the queue, and what had happened when it came in: the flag had been raised, an
event had been lost. -/
structure Entry where
  event : QueuedEvent
  flagged : Bool
  gap : Bool
  deriving DecidableEq, Repr

/-- A record that was delivered, and what is known of its event. -/
structure Delivered where
  record : Record
  flagged : Bool
  gap : Bool
  deriving DecidableEq, Repr

/-- Where a call of `send` stands. -/
inductive Producer where
  | idle
  | checked (e : QueuedEvent)
  /-- `try_send` has failed, and the flag is still to be raised. -/
  | lost (e : QueuedEvent)
  deriving DecidableEq, Repr

/-- Where `write_events` stands. -/
inductive Writer where
  | receiving
  | taken (e : Entry)
  /-- The event has its number, and the flag is looked at again. -/
  | numbered (e : Entry)
  | writing (e : Entry)
  /-- The delivery has failed, and the flag is still to be raised. -/
  | broken (e : Entry)
  /-- `send_error` after so many records. -/
  | reporting (prior : Nat) (lineage : Lineage)
  | ended
  deriving DecidableEq, Repr

structure State (ι : Type*) where
  queue : List Entry
  failed : Bool
  producers : ι → Producer
  writer : Writer
  streamSeq : Nat
  delivered : List Delivered
  lost : Bool
  broke : Bool

section Stream

variable {ι : Type*} [DecidableEq ι]

def start : State ι := ⟨[], false, fun _ => .idle, .receiving, 0, [], false, false⟩

/-- `try_send` finds no room, or nobody who receives. -/
def State.full (s : State ι) : Prop := queueCapacity ≤ s.queue.length ∨ s.writer = .ended

inductive Step (s : State ι) : State ι → Prop where
  | check (i : ι) (call : Call) {e : QueuedEvent} (hcall : call.event = some e)
      (hi : s.producers i = .idle) (hflag : s.failed = false) :
      Step s { s with producers := update s.producers i (.checked e) }
  /-- The flag is raised, and the event is not sent. -/
  | refuse (i : ι) (call : Call) {e : QueuedEvent} (hcall : call.event = some e)
      (hi : s.producers i = .idle) (hflag : s.failed = true) : Step s { s with lost := true }
  | send (i : ι) {e : QueuedEvent} (hi : s.producers i = .checked e) (hroom : ¬ s.full) :
      Step s { s with
        queue := s.queue ++ [⟨e, s.failed, s.lost⟩]
        producers := update s.producers i .idle }
  | lose (i : ι) {e : QueuedEvent} (hi : s.producers i = .checked e) (hfull : s.full) :
      Step s { s with producers := update s.producers i (.lost e), lost := true }
  | raise (i : ι) {e : QueuedEvent} (hi : s.producers i = .lost e) :
      Step s { s with producers := update s.producers i .idle, failed := true }
  | recv {e : Entry} {rest : List Entry} (hwriter : s.writer = .receiving)
      (hqueue : s.queue = e :: rest) : Step s { s with queue := rest, writer := .taken e }
  | halt {e : Entry} (hwriter : s.writer = .taken e) (hflag : s.failed = true) :
      Step s { s with writer := .reporting s.streamSeq e.event.lineage }
  | number {e : Entry} (hwriter : s.writer = .taken e) (hflag : s.failed = false)
      (hseq : s.streamSeq < maxSeq) :
      Step s { s with writer := .numbered e, streamSeq := s.streamSeq + 1 }
  | exhaust {e : Entry} (hwriter : s.writer = .taken e) (hflag : s.failed = false)
      (hseq : ¬ s.streamSeq < maxSeq) : Step s { s with writer := .ended, failed := true }
  | haltNumbered {e : Entry} (hwriter : s.writer = .numbered e) (hflag : s.failed = true) :
      Step s { s with writer := .reporting (s.streamSeq - 1) e.event.lineage }
  | write {e : Entry} (hwriter : s.writer = .numbered e) (hflag : s.failed = false) :
      Step s { s with writer := .writing e }
  | deliver {e : Entry} (hwriter : s.writer = .writing e) :
      Step s { s with
        writer := .receiving
        delivered := s.delivered ++ [⟨recordOf e.event s.streamSeq, e.flagged, e.gap⟩] }
  | break {e : Entry} (hwriter : s.writer = .writing e) :
      Step s { s with writer := .broken e, lost := true, broke := true }
  | raiseBroken {e : Entry} (hwriter : s.writer = .broken e) :
      Step s { s with writer := .reporting s.streamSeq e.event.lineage, failed := true }
  | report {prior : Nat} {lineage : Lineage} (hwriter : s.writer = .reporting prior lineage)
      (hseq : prior < maxSeq) :
      Step s { s with
        writer := .ended
        delivered := s.delivered ++ [⟨errorRecord lineage (prior + 1), false, false⟩] }
  | unreported {prior : Nat} {lineage : Lineage} (hwriter : s.writer = .reporting prior lineage) :
      Step s { s with writer := .ended }

abbrev Reachable (s : State ι) : Prop := Runs.Reachable (fun s => s = start) Step s

/-- A step that puts nothing into the queue while a producer is still to raise the flag. -/
def CalmStep (s t : State ι) : Prop :=
  Step s t ∧ (s.queue.length < t.queue.length → ∀ i e, s.producers i ≠ .lost e)

variable {s t : State ι}

theorem Step.calm (h : Step s t) (hqueue : t.queue.length ≤ s.queue.length) : CalmStep s t :=
  ⟨h, fun hmore => absurd hmore (Nat.not_lt_of_le hqueue)⟩

theorem run_of_calm (h : ReflTransGen CalmStep s t) : ReflTransGen Step s t :=
  ReflTransGen.mono (fun _ _ hcalm => hcalm.1) _ _ h

/-! ### Numbers

An event has its number only after the flag was found down, so what is lost leaves no
gap in the numbers.
-/

/-- What the writer has numbered, after `n` records of events and what may be there of errors. -/
def Placed (s : State ι) (n : Nat) (errors : List Delivered) : Prop :=
  match s.writer with
  | .receiving => s.streamSeq = n ∧ errors = []
  | .taken _ => s.streamSeq = n ∧ errors = []
  | .numbered _ => s.streamSeq = n + 1 ∧ errors = []
  | .writing _ => s.streamSeq = n + 1 ∧ errors = []
  | .broken _ => s.streamSeq = n + 1 ∧ errors = [] ∧ s.broke = true
  | .reporting prior _ => errors = [] ∧ (prior = n ∨ s.broke = true ∧ prior = n + 1)
  | .ended => errors = [] ∨ ∃ r, errors = [r] ∧ r.record.kind = .error ∧
      (r.record.streamSeq = n + 1 ∨ s.broke = true ∧ r.record.streamSeq = n + 2)

/-- **The records of events come first and are numbered from one on.** -/
def Numbered (s : State ι) : Prop :=
  ∃ events errors, s.delivered = events ++ errors ∧ (∀ r ∈ events, r.record.kind ≠ .error) ∧
    events.map (fun r => r.record.streamSeq) = List.range' 1 events.length ∧
    Placed s events.length errors

omit [DecidableEq ι] in
theorem numbered_start : Numbered (start : State ι) := by
  refine ⟨[], [], rfl, ?_, rfl, rfl, rfl⟩
  intro r hr
  contradiction

theorem range_snoc {events : List Delivered} {r : Delivered}
    (h : events.map (fun r => r.record.streamSeq) = List.range' 1 events.length)
    (hr : r.record.streamSeq = events.length + 1) :
    (events ++ [r]).map (fun r => r.record.streamSeq) =
      List.range' 1 (events ++ [r]).length := by
  rw [List.map_append, h, List.length_append, List.map_singleton, hr, List.length_singleton,
    List.range'_1_concat, Nat.add_comm 1]

omit [DecidableEq ι] in
/-- What is numbered, where it is known what the writer does. -/
theorem Placed.at {n : Nat} {errors : List Delivered} (h : Placed s n errors) {w : Writer}
    (hwriter : s.writer = w) : Placed { s with writer := w } n errors := by
  subst hwriter
  exact h

theorem Numbered.step (h : Step s t) (hs : Numbered s) : Numbered t := by
  obtain ⟨events, errors, hdelivered, hkinds, hrange, hplaced⟩ := hs
  cases h with
  | check | refuse | send | lose | raise =>
      exact ⟨events, errors, hdelivered, hkinds, hrange, hplaced⟩
  | recv hwriter hqueue | write hwriter hflag =>
      replace hplaced := hplaced.at hwriter
      exact ⟨events, errors, hdelivered, hkinds, hrange, hplaced⟩
  | halt hwriter hflag =>
      replace hplaced := hplaced.at hwriter
      exact ⟨events, errors, hdelivered, hkinds, hrange, hplaced.2, .inl hplaced.1⟩
  | number hwriter hflag hseq =>
      replace hplaced := hplaced.at hwriter
      exact ⟨events, errors, hdelivered, hkinds, hrange, congrArg (· + 1) hplaced.1, hplaced.2⟩
  | exhaust hwriter hflag hseq =>
      replace hplaced := hplaced.at hwriter
      exact ⟨events, errors, hdelivered, hkinds, hrange, .inl hplaced.2⟩
  | haltNumbered hwriter hflag =>
      replace hplaced := hplaced.at hwriter
      refine ⟨events, errors, hdelivered, hkinds, hrange, hplaced.2, .inl ?_⟩
      rw [hplaced.1, Nat.add_sub_cancel]
  | @deliver e hwriter =>
      replace hplaced := hplaced.at hwriter
      obtain ⟨hseq, rfl⟩ := hplaced
      rw [List.append_nil] at hdelivered
      refine ⟨events ++ [⟨recordOf e.event s.streamSeq, e.flagged, e.gap⟩], [], ?_, ?_,
        range_snoc hrange hseq, ?_, rfl⟩
      · rw [List.append_nil, ← hdelivered]
      · intro r hr
        rcases List.mem_append.mp hr with hr | hr
        · exact hkinds r hr
        · rw [List.mem_singleton.mp hr]; exact Kind.noConfusion
      · rw [List.length_append]; exact hseq
  | «break» hwriter =>
      replace hplaced := hplaced.at hwriter
      exact ⟨events, errors, hdelivered, hkinds, hrange, hplaced.1, hplaced.2, rfl⟩
  | raiseBroken hwriter =>
      replace hplaced := hplaced.at hwriter
      obtain ⟨hseq, hnone, hbroke⟩ := hplaced
      exact ⟨events, errors, hdelivered, hkinds, hrange, hnone, .inr ⟨hbroke, hseq⟩⟩
  | @report prior lineage hwriter hseq =>
      replace hplaced := hplaced.at hwriter
      obtain ⟨rfl, hprior⟩ := hplaced
      rw [List.append_nil] at hdelivered
      refine ⟨events, [⟨errorRecord lineage (prior + 1), false, false⟩], ?_, hkinds, hrange,
        .inr ⟨_, rfl, rfl, ?_⟩⟩
      · rw [← hdelivered]
      · rcases hprior with heq | ⟨hbroke, heq⟩
        · exact .inl (congrArg (· + 1) heq)
        · exact .inr ⟨hbroke, congrArg (· + 1) heq⟩
  | unreported hwriter =>
      replace hplaced := hplaced.at hwriter
      exact ⟨events, errors, hdelivered, hkinds, hrange, .inl hplaced.1⟩

theorem Numbered.of_reachable (h : Reachable s) : Numbered s := by
  refine Runs.Reachable.keeps (I := Numbered) ?_ (fun _ _ => Numbered.step) h
  rintro _ rfl
  exact numbered_start

/-! ### Events that are not delivered any more

Which events come in behind a loss depends on the steps that are allowed, so the mark is
a parameter here.
-/

def Writer.stopping : Writer → Bool
  | .broken _ | .reporting _ _ | .ended => true
  | _ => false

/-- **No event with a mark is delivered**: one is taken out only to be dropped. -/
structure Barred (mark : Bool → Bool → Bool) (s : State ι) : Prop where
  queue : ∀ e ∈ s.queue, mark e.flagged e.gap = true →
    s.failed = true ∨ s.writer.stopping = true
  taken : ∀ e, s.writer = .taken e → mark e.flagged e.gap = true → s.failed = true
  numbered : ∀ e, s.writer = .numbered e ∨ s.writer = .writing e →
    mark e.flagged e.gap = false
  delivered : ∀ r ∈ s.delivered, mark r.flagged r.gap = false

omit [DecidableEq ι] in
theorem barred_start (mark : Bool → Bool → Bool) : Barred mark (start : State ι) := by
  refine ⟨?_, ?_, ?_, ?_⟩
  · intro e he; contradiction
  · intro e he; contradiction
  · rintro e (he | he)
    · contradiction
    · contradiction
  · intro r hr; contradiction

omit [DecidableEq ι] in
theorem Barred.of_stopping {mark : Bool → Bool → Bool} (hstop : s.writer.stopping = true)
    (hdelivered : ∀ r ∈ s.delivered, mark r.flagged r.gap = false) : Barred mark s := by
  refine ⟨fun _ _ _ => .inr hstop, ?_, ?_, hdelivered⟩
  · intro e he
    rw [he] at hstop
    contradiction
  · rintro e (he | he)
    · rw [he] at hstop; contradiction
    · rw [he] at hstop; contradiction

section Held

variable {mark : Bool → Bool → Bool} (hs : Barred mark s)

include hs
omit [DecidableEq ι]

/-- As long as the writer goes on, nothing marked waits before the flag is raised. -/
theorem Barred.flag {w : Writer} (hwriter : s.writer = w) (hgoing : w.stopping = false) :
    ∀ e ∈ s.queue, mark e.flagged e.gap = true → s.failed = true := by
  intro e he hmarked
  rcases hs.queue e he hmarked with hfailed | hstopping
  · exact hfailed
  · rw [hwriter, hgoing] at hstopping; contradiction

theorem Barred.delivered_snoc {r : Delivered} (hr : mark r.flagged r.gap = false) :
    ∀ r' ∈ s.delivered ++ [r], mark r'.flagged r'.gap = false := by
  intro r' hr'
  rcases List.mem_append.mp hr' with hr' | hr'
  · exact hs.delivered r' hr'
  · rw [List.mem_singleton.mp hr']; exact hr

end Held

/-- A step keeps it, where an event that comes in with the mark finds the flag raised or the
writer stopping. -/
theorem Barred.step {mark : Bool → Bool → Bool} (hmark : mark false false = false)
    (h : Step s t) (hnew : s.queue.length < t.queue.length → mark s.failed s.lost = true →
      s.failed = true ∨ s.writer.stopping = true) (hs : Barred mark s) : Barred mark t := by
  cases h with
  | check | refuse | lose => exact ⟨hs.queue, hs.taken, hs.numbered, hs.delivered⟩
  | send i hi hroom =>
      refine ⟨?_, hs.taken, hs.numbered, hs.delivered⟩
      intro e he hmarked
      rcases List.mem_append.mp he with he | he
      · exact hs.queue e he hmarked
      · rw [List.mem_singleton.mp he] at hmarked
        refine hnew ?_ hmarked
        show s.queue.length < (s.queue ++ [_]).length
        rw [List.length_append]
        exact Nat.lt_succ_self _
  | raise i hi =>
      exact ⟨fun _ _ _ => .inl rfl, fun _ _ _ => rfl, hs.numbered, hs.delivered⟩
  | @recv e rest hwriter hqueue =>
      have hflag := hs.flag hwriter rfl
      rw [hqueue] at hflag
      refine ⟨?_, ?_, ?_, hs.delivered⟩
      · intro e' he' hmarked; exact .inl (hflag e' (List.mem_cons_of_mem e he') hmarked)
      · intro e' he' hmarked
        cases he'
        exact hflag e List.mem_cons_self hmarked
      · rintro e' (he' | he')
        · contradiction
        · contradiction
  | halt | exhaust | haltNumbered | «break» | raiseBroken | unreported =>
      exact .of_stopping rfl hs.delivered
  | @number e hwriter hflag hseq =>
      refine ⟨?_, ?_, ?_, hs.delivered⟩
      · intro e' he' hmarked; exact .inl (hs.flag hwriter rfl e' he' hmarked)
      · intro e' he'; contradiction
      · rintro e' (he' | he')
        · cases he'
          by_contra hmarked
          have hfailed := hs.taken e hwriter (Bool.not_eq_false _ ▸ hmarked)
          rw [hflag] at hfailed
          contradiction
        · contradiction
  | @write e hwriter hflag =>
      refine ⟨?_, ?_, ?_, hs.delivered⟩
      · intro e' he' hmarked; exact .inl (hs.flag hwriter rfl e' he' hmarked)
      · intro e' he'; contradiction
      · rintro e' (he' | he')
        · contradiction
        · cases he'
          exact hs.numbered e (.inl hwriter)
  | @deliver e hwriter =>
      refine ⟨?_, ?_, ?_, ?_⟩
      · intro e' he' hmarked; exact .inl (hs.flag hwriter rfl e' he' hmarked)
      · intro e' he'; contradiction
      · rintro e' (he' | he')
        · contradiction
        · contradiction
      · exact hs.delivered_snoc (hs.numbered e (.inr hwriter))
  | report hwriter hseq => exact .of_stopping rfl (hs.delivered_snoc hmark)

/-! ### After the flag -/

def State.events (s : State ι) : List Delivered :=
  s.delivered.filter fun r => r.record.kind ≠ .error

/-- The writer has looked at the flag for the last time, and delivers. -/
def Writer.owes : Writer → Nat
  | .writing _ => 1
  | _ => 0

omit [DecidableEq ι] in
theorem events_append {r : Delivered} (h : t.delivered = s.delivered ++ [r]) :
    t.events.length = s.events.length + if r.record.kind ≠ .error then 1 else 0 := by
  unfold State.events
  rw [h, List.filter_append, List.length_append, List.filter_singleton]
  by_cases hkind : r.record.kind ≠ .error
  · rw [if_pos hkind, decide_eq_true hkind]; rfl
  · rw [if_neg hkind, decide_eq_false hkind]; rfl

/-- Once the flag is raised it stays so, and no more is delivered than the writer owes. -/
theorem events_step (h : Step s t) (hflag : s.failed = true) :
    t.failed = true ∧ t.events.length + t.writer.owes ≤ s.events.length + s.writer.owes := by
  cases h with
  | check | send | lose | refuse i call hcall hi _ => exact ⟨hflag, Nat.le_refl _⟩
  | raise i hi => exact ⟨rfl, Nat.le_refl _⟩
  | recv | «break» | unreported | halt hwriter _ | haltNumbered hwriter _ =>
      exact ⟨hflag, Nat.add_le_add_left (Nat.zero_le _) _⟩
  | number hwriter hclear hseq | write hwriter hclear => rw [hflag] at hclear; contradiction
  | exhaust | raiseBroken => exact ⟨rfl, Nat.add_le_add_left (Nat.zero_le _) _⟩
  | deliver hwriter =>
      refine ⟨hflag, ?_⟩
      rw [hwriter, events_append rfl]
      exact Nat.le_refl _
  | report hwriter hseq =>
      refine ⟨hflag, ?_⟩
      rw [events_append rfl]
      exact Nat.add_le_add_left (Nat.zero_le _) _

/-- **After the flag is raised one record is delivered at most**, the one the writer was at. -/
theorem events_run (hrun : ReflTransGen Step s t) (hflag : s.failed = true) :
    t.failed = true ∧ t.events.length + t.writer.owes ≤ s.events.length + s.writer.owes := by
  induction hrun with
  | refl => exact ⟨hflag, Nat.le_refl _⟩
  | tail _ hlast ih =>
      obtain ⟨hfailed, hle⟩ := events_step hlast ih.1
      exact ⟨hfailed, Nat.le_trans hle ih.2⟩

theorem stopping_step (h : Step s t) (hstop : s.writer.stopping = true) :
    t.writer.stopping = true ∧ t.events = s.events := by
  have hnot : ∀ w, s.writer = w → w.stopping = false → False := by
    intro w hw hfalse
    rw [← hw, hstop] at hfalse
    contradiction
  cases h with
  | check | refuse | send | lose | raise => exact ⟨hstop, rfl⟩
  | recv hwriter hqueue | halt hwriter _ | number hwriter hclear hseq
  | exhaust hwriter hclear hseq | haltNumbered hwriter _ | write hwriter hclear
  | deliver hwriter | «break» hwriter => exact (hnot _ hwriter rfl).elim
  | raiseBroken | unreported => exact ⟨rfl, rfl⟩
  | report hwriter hseq =>
      refine ⟨rfl, ?_⟩
      unfold State.events
      rw [List.filter_append]
      exact List.append_nil _

theorem stopping_of_broke (h : Reachable s) : s.broke = true → s.writer.stopping = true := by
  refine Runs.Reachable.keeps (I := fun s => s.broke = true → s.writer.stopping = true) ?_ ?_ h
  · rintro _ rfl hbroke
    contradiction
  · intro s t hstep hs hbroke
    by_cases hbefore : s.broke = true
    · exact (stopping_step hstep (hs hbefore)).1
    · cases hstep with
      | «break» hwriter => rfl
      | check | refuse | send | lose | raise | recv | halt | number | exhaust | haltNumbered
      | write | deliver | raiseBroken | report | unreported => exact absurd hbroke hbefore

theorem events_of_stopping (hrun : ReflTransGen Step s t) (hstop : s.writer.stopping = true) :
    t.events = s.events := by
  have h : t.writer.stopping = true ∧ t.events = s.events := by
    induction hrun with
    | refl => exact ⟨hstop, rfl⟩
    | tail _ hlast ih =>
        obtain ⟨hnext, heq⟩ := stopping_step hlast ih.1
        exact ⟨hnext, heq.trans ih.2⟩
  exact h.2

/-! ### Behind a lost event -/

/-- Where an event was lost, the flag is raised, or somebody is at it. -/
def Noticed (s : State ι) : Prop :=
  s.lost = true → s.failed = true ∨ s.writer.stopping = true ∨ ∃ i e, s.producers i = .lost e

theorem Noticed.step (h : Step s t) (hs : Noticed s) : Noticed t := by
  intro hlost
  by_cases hstopping : s.writer.stopping = true
  · exact .inr (.inl (stopping_step h hstopping).1)
  by_cases hflag : s.failed = true
  · exact .inl (events_step h hflag).1
  have hwindow : s.lost = true → ∃ i e, s.producers i = .lost e := by
    intro hbefore
    rcases hs hbefore with hfailed | hstop | hwindow
    · exact absurd hfailed hflag
    · exact absurd hstop hstopping
    · exact hwindow
  -- a producer in the window stays there but to raise the flag
  have hstays : ∀ j p, s.producers j ≠ p → (∀ e, s.producers j ≠ .lost e) →
      (∃ i e, s.producers i = .lost e) → ∃ i e, update s.producers j p i = .lost e := by
    rintro j p - hj ⟨i, e, hi⟩
    have hne : i ≠ j := by
      rintro rfl
      exact hj e hi
    refine ⟨i, e, ?_⟩
    rw [Function.update_of_ne hne]
    exact hi
  cases h with
  | @check i call e hcall hi hclear | send i hi hroom =>
      refine .inr (.inr (hstays i _ ?_ ?_ (hwindow hlost)))
      · rw [hi]; exact Producer.noConfusion
      · intro e'
        rw [hi]
        exact Producer.noConfusion
  | refuse i call hcall hi hraised | halt hwriter hraised | haltNumbered hwriter hraised =>
      exact .inl hraised
  | @lose i e hi hfull => exact .inr (.inr ⟨i, e, Function.update_self ..⟩)
  | raise | exhaust | raiseBroken => exact .inl rfl
  | recv | number | write | deliver => exact .inr (.inr (hwindow hlost))
  | «break» | report | unreported => exact .inr (.inl rfl)

/-- **In a calm run no event behind a lost one is delivered.** -/
theorem barred_of_calm (h : ReflTransGen CalmStep start s) :
    Noticed s ∧ Barred (fun _ gap => gap) s := by
  refine Runs.keeps_run (I := fun s => Noticed s ∧ Barred (fun _ gap => gap) s) ?_ h
    ⟨fun hlost => absurd hlost Bool.false_ne_true, barred_start _⟩
  intro s t hcalm hs
  refine ⟨hs.1.step hcalm.1, hs.2.step rfl hcalm.1 ?_⟩
  intro hmore hlost
  rcases hs.1 hlost with hfailed | hstopping | ⟨i, e, hi⟩
  · exact .inl hfailed
  · exact .inr hstopping
  · exact absurd hi (hcalm.2 hmore i e)

theorem barred_of_reachable (h : Reachable s) : Barred (fun flagged _ => flagged) s := by
  refine Runs.Reachable.keeps (I := Barred fun flagged _ => flagged) ?_ ?_ h
  · rintro _ rfl
    exact barred_start _
  · intro s t hstep hs; exact hs.step rfl hstep fun _ hflag => .inl hflag

omit [DecidableEq ι] in
theorem Placed.errors {n : Nat} {errors : List Delivered} (h : Placed s n errors) :
    errors = [] ∨ ∃ r, errors = [r] ∧ r.record.kind = .error ∧
      (r.record.streamSeq = n + 1 ∨ s.broke = true ∧ r.record.streamSeq = n + 2) := by
  unfold Placed at h
  cases hwriter : s.writer with
  | receiving | taken | numbered | writing => rw [hwriter] at h; exact .inl h.2
  | broken e => rw [hwriter] at h; exact .inl h.2.1
  | reporting prior lineage => rw [hwriter] at h; exact .inl h.1
  | ended => rw [hwriter] at h; exact h

/-! ### Some runs -/

/-- The state after the event in front was delivered. -/
def State.next (s : State ι) (e : Entry) (rest : List Entry) : State ι :=
  { s with
    queue := rest
    writer := .receiving
    streamSeq := s.streamSeq + 1
    delivered := s.delivered ++ [⟨recordOf e.event (s.streamSeq + 1), e.flagged, e.gap⟩] }

theorem run_next {e : Entry} {rest : List Entry} (hwriter : s.writer = .receiving)
    (hqueue : s.queue = e :: rest) (hflag : s.failed = false) (hseq : s.streamSeq < maxSeq) :
    ReflTransGen CalmStep s (s.next e rest) := by
  let s₁ : State ι := { s with queue := rest, writer := .taken e }
  let s₂ : State ι := { s₁ with writer := .numbered e, streamSeq := s.streamSeq + 1 }
  have hrecv : Step s s₁ := .recv hwriter hqueue
  have hshorter : s₁.queue.length ≤ s.queue.length := hqueue ▸ Nat.le_succ _
  have hnumber : Step s₁ s₂ := .number rfl hflag hseq
  have hwrite : Step s₂ { s₂ with writer := .writing e } := .write rfl hflag
  have hdeliver : Step { s₂ with writer := .writing e } (s.next e rest) := .deliver rfl
  exact (((ReflTransGen.single (hrecv.calm hshorter)).tail (hnumber.calm (Nat.le_refl _))).tail
    (hwrite.calm (Nat.le_refl _))).tail (hdeliver.calm (Nat.le_refl _))

theorem run_queue : ∀ {queue : List Entry} {s : State ι}, s.queue = queue →
    s.writer = .receiving → s.failed = false → s.streamSeq + queue.length ≤ maxSeq →
    ∃ t, ReflTransGen Step s t ∧ (∀ r ∈ s.delivered, r ∈ t.delivered) ∧
      ∀ e ∈ queue, ∃ r ∈ t.delivered, r.record.kind = .event e.event.kind ∧ r.gap = e.gap
  | [], s, _, _, _, _ => by
      refine ⟨s, .refl, fun r hr => hr, ?_⟩
      intro e he
      contradiction
  | e :: rest, s, hqueue, hwriter, hflag, hseq => by
      rw [List.length_cons] at hseq
      have hnext := run_next hwriter hqueue hflag (by omega)
      obtain ⟨t, hrun, hkept, hall⟩ := run_queue (s := s.next e rest) rfl rfl hflag
        (show s.streamSeq + 1 + rest.length ≤ maxSeq by omega)
      refine ⟨t, (run_of_calm hnext).trans hrun, ?_, ?_⟩
      · intro r hr; exact hkept r (List.mem_append_left _ hr)
      · intro e' he'
        rcases List.mem_cons.mp he' with rfl | he'
        · exact ⟨_, hkept _ (List.mem_append_right _ (List.mem_singleton.mpr rfl)), rfl, rfl⟩
        · exact hall e' he'

def quiet (queue : List Entry) : State ι := { (start : State ι) with queue := queue }

def lineage : Lineage := ⟨0, 0, 1⟩

def pending : QueuedEvent := ⟨.watchPending, lineage, some 1, none, none⟩

theorem run_send (i : ι) (queue : List Entry) (h : queue.length < queueCapacity) :
    ReflTransGen CalmStep (quiet queue : State ι) (quiet (queue ++ [⟨pending, false, false⟩])) := by
  let s : State ι :=
    { (quiet queue : State ι) with producers := update (fun _ => .idle) i (.checked pending) }
  have hcheck : Step (quiet queue) s := .check i (.watchPending lineage 1) rfl rfl rfl
  have hi : s.producers i = .checked pending := by
    show update (fun _ => Producer.idle) i (Producer.checked pending) i = _
    exact Function.update_self ..
  have hroom : ¬ s.full := by
    rintro (hfull | hended)
    · exact absurd h (Nat.not_lt_of_le hfull)
    · contradiction
  have hidle : update s.producers i .idle = fun _ => .idle := by
    show update (update (fun _ : ι => Producer.idle) i (.checked pending)) i .idle = _
    rw [Function.update_idem]
    exact Function.update_eq_self i _
  have hsend := Step.send i hi hroom
  rw [hidle] at hsend
  refine (ReflTransGen.single (hcheck.calm (Nat.le_refl _))).tail ⟨hsend, fun _ j e => ?_⟩
  show update (fun _ => Producer.idle) i (Producer.checked pending) j ≠ .lost e
  rw [Function.update_apply]
  split <;> exact Producer.noConfusion

theorem run_fill (i : ι) : ∀ n ≤ queueCapacity,
    ReflTransGen CalmStep (start : State ι) (quiet (List.replicate n ⟨pending, false, false⟩))
  | 0, _ => .refl
  | n + 1, h => by
      have hlength : (List.replicate n (⟨pending, false, false⟩ : Entry)).length <
          queueCapacity := by
        rw [List.length_replicate]
        exact h
      rw [List.replicate_succ']
      exact (run_fill i n (Nat.le_of_succ_le h)).trans (run_send i _ hlength)

/-- **What a stream certifies.**  Records of events are numbered from one on, and at most one error
comes behind them; it leaves a number out only where a delivery has failed.  No event that came into
the queue behind the flag is delivered, and once the flag is raised at most the record that the writer
was at; after a delivery has failed, none.  And in a run in which nothing comes into the queue
between a loss and the flag, no event behind a lost one is delivered. -/
theorem delivered_sound {s : State ι} (h : Reachable s) :
    (∃ events errors, s.delivered = events ++ errors ∧ (∀ r ∈ events, r.record.kind ≠ .error) ∧
      events.map (fun r => r.record.streamSeq) = List.range' 1 events.length ∧
      (errors = [] ∨ ∃ r, errors = [r] ∧ r.record.kind = .error ∧
        (r.record.streamSeq = events.length + 1 ∨
          s.broke = true ∧ r.record.streamSeq = events.length + 2))) ∧
    (∀ r ∈ s.delivered, r.flagged = false) ∧
    (s.failed = true → ∀ t, ReflTransGen Step s t →
      t.events.length ≤ s.events.length + s.writer.owes) ∧
    (s.broke = true → ∀ t, ReflTransGen Step s t → t.events = s.events) ∧
    (ReflTransGen CalmStep start s → ∀ r ∈ s.delivered, r.gap = false) := by
  obtain ⟨events, errors, hdelivered, hkinds, hrange, hplaced⟩ := Numbered.of_reachable h
  refine ⟨⟨events, errors, hdelivered, hkinds, hrange, hplaced.errors⟩,
    (barred_of_reachable h).delivered, ?_, ?_, ?_⟩
  · intro hflag t hrun
    exact Nat.le_trans (Nat.le_add_right _ _) (events_run hrun hflag).2
  · intro hbroke t hrun; exact events_of_stopping hrun (stopping_of_broke h hbroke)
  · intro hcalm; exact (barred_of_calm hcalm).2.delivered

end Stream

/-- A producer has found the queue full, and the writer has delivered the first event since. -/
def overrun : State Bool :=
  State.next { (quiet (List.replicate queueCapacity ⟨pending, false, false⟩) : State Bool) with
      producers := update (fun _ => .idle) true (.lost pending)
      lost := true } ⟨pending, false, false⟩ (List.replicate 63 ⟨pending, false, false⟩)

theorem run_overrun : ReflTransGen CalmStep start overrun := by
  let s₀ : State Bool := quiet (List.replicate queueCapacity ⟨pending, false, false⟩)
  let s₁ : State Bool := { s₀ with producers := update s₀.producers true (.checked pending) }
  have hcheck : Step s₀ s₁ := .check true (.watchPending lineage 1) rfl rfl rfl
  have hlose := Step.lose (s := s₁) true rfl (.inl (Nat.le_refl _))
  rw [Function.update_idem] at hlose
  exact ((((run_fill false queueCapacity (Nat.le_refl _)).tail (hcheck.calm (Nat.le_refl _))).tail
    (hlose.calm (Nat.le_refl _))).trans (run_next rfl rfl rfl (by decide)))

/-- The producer raises the flag, and the writer reports at the second event. -/
theorem delivered_sound_lost : ∃ s : State Bool, s.lost = true ∧ s.failed = true ∧
    s.delivered.map (fun r => (r.record.kind, r.record.streamSeq)) =
      [(.event .watchPending, 1), (.error, 2)] ∧
    (∀ r ∈ s.delivered, r.flagged = false ∧ r.gap = false) ∧
    ∀ t, ReflTransGen Step s t → t.events.length ≤ s.events.length + s.writer.owes := by
  let e : Entry := ⟨pending, false, false⟩
  let s₁ : State Bool := { overrun with
    producers := update overrun.producers true .idle, failed := true }
  let s₂ : State Bool := { s₁ with queue := List.replicate 62 e, writer := .taken e }
  let s₃ : State Bool := { s₂ with writer := .reporting 1 lineage }
  let s₄ : State Bool := { s₃ with
    writer := .ended
    delivered := s₃.delivered ++ [⟨errorRecord lineage 2, false, false⟩] }
  have hraise : Step overrun s₁ := .raise true rfl
  have hrecv : Step s₁ s₂ := .recv rfl rfl
  have hhalt : Step s₂ s₃ := .halt (e := e) rfl rfl
  have hreport : Step s₃ s₄ := .report rfl (by decide)
  have hcalm : ReflTransGen CalmStep start s₄ :=
    (((run_overrun.tail (hraise.calm (Nat.le_refl _))).tail (hrecv.calm (by decide))).tail
      (hhalt.calm (Nat.le_refl _))).tail (hreport.calm (Nat.le_refl _))
  obtain ⟨-, hflagged, howes, -, hgap⟩ := delivered_sound ⟨start, rfl, run_of_calm hcalm⟩
  exact ⟨s₄, rfl, rfl, rfl, fun r hr => ⟨hflagged r hr, hgap hcalm r hr⟩, howes rfl⟩

def ack : QueuedEvent := ⟨.watchAck, lineage, some 1, some ⟨0, 1⟩, some true⟩

/-- An error can leave a number out, and an acknowledgement can be delivered behind a lost event:
one producer finds the queue full, the writer makes room, and another one acknowledges before the
first has raised the flag. -/
theorem delivered_gap :
    (∃ s : State Bool, Reachable s ∧ s.delivered.map (fun r => r.record.streamSeq) = [2]) ∧
    ∃ s : State Bool, Reachable s ∧
      ∃ r ∈ s.delivered, r.record.kind = .event .watchAck ∧ r.gap = true := by
  constructor
  · have hsend := run_of_calm (run_send true [] (by decide))
    let e : Entry := ⟨pending, false, false⟩
    let s₁ : State Bool := { quiet [] with writer := .taken e }
    let s₂ : State Bool := { s₁ with writer := .numbered e, streamSeq := 1 }
    let s₃ : State Bool := { s₂ with writer := .writing e }
    let s₄ : State Bool := { s₃ with writer := .broken e, lost := true, broke := true }
    let s₅ : State Bool := { s₄ with writer := .reporting 1 lineage, failed := true }
    have hrecv : Step (quiet [e]) s₁ := .recv rfl rfl
    have hnumber : Step s₁ s₂ := .number rfl rfl (by decide)
    have hwrite : Step s₂ s₃ := .write rfl rfl
    have hbreak : Step s₃ s₄ := .break rfl
    have hraise : Step s₄ s₅ := .raiseBroken (e := e) rfl
    let s₆ : State Bool :=
      { s₅ with writer := .ended, delivered := [⟨errorRecord lineage 2, false, false⟩] }
    have hreport : Step s₅ s₆ := .report rfl (by decide)
    refine ⟨s₆, ⟨start, rfl, ?_⟩, rfl⟩
    exact (((((hsend.tail hrecv).tail hnumber).tail hwrite).tail hbreak).tail hraise).tail hreport
  · let e : Entry := ⟨pending, false, false⟩
    let s₁ : State Bool := { overrun with
      producers := update overrun.producers false (.checked ack) }
    let s₂ : State Bool := { s₁ with
      queue := List.replicate 63 e ++ [⟨ack, false, true⟩]
      producers := update s₁.producers false .idle }
    have hack : Step overrun s₁ := .check false (.watchAck lineage 1 ⟨0, 1⟩ true) rfl rfl rfl
    have hroom : ¬ s₁.full := by
      rintro (hfull | hended)
      · exact absurd hfull (by decide)
      · contradiction
    have hsend : Step s₁ s₂ := .send false rfl hroom
    obtain ⟨t, hrun, -, hall⟩ := run_queue (s := s₂) rfl rfl rfl (by decide)
    have hmem : (⟨ack, false, true⟩ : Entry) ∈ s₂.queue :=
      List.mem_append_right _ (List.mem_singleton.mpr rfl)
    refine ⟨t, ⟨start, rfl, ?_⟩, hall _ hmem⟩
    exact (((run_of_calm run_overrun).tail hack).tail hsend).trans hrun

end Baleyg.Daemon.Causal
