/-
What the leader's stream makes of the signals.

A reconciliation drains the signals, captures the whole checkout, and either finds the
selected head in the capture or publishes it; in between it drains again and gives up
when the counter moved.  Only then does it acknowledge the batch it began with.

Callbacks run beside all of this, so a step here is one access to what they share: a
reception, the swap of the overflow flag, a load of the counter.  `Place` says before
which access the leader stands.

The history records what happened in order.  A batch whose count is still the counter's
was drained after everything accepted so far, and so was all that followed it; that is
`Accounts`, and it passes from the drain to the capture, from there to the publication
and from there to the acknowledgement.
-/
import Baleyg.Lib.Runs
import Baleyg.Watch.Signals

namespace Baleyg.Watch

inductive Scope where
  | checkout
  | paths (listed : List Path)
  deriving DecidableEq, Repr

/-- The scope takes in whatever the event may have changed. -/
def Scope.Covers (scope : Scope) (event : Option Event) : Prop :=
  match scope, event with
  | .checkout, _ => True
  | .paths listed, some event => ∀ path ∈ event.paths, path ∈ listed
  | .paths _, none => False

inductive Outcome where
  | unchanged
  | published
  deriving DecidableEq, Repr

/-- What happens in a run, as far as it is told. -/
inductive Occurrence where
  | accepted (event : Option Event)
  | drained (batch : DirtyBatch)
  | captured (scope : Scope)
  | settled (outcome : Outcome)
  deriving DecidableEq

def Occurrence.isAccepted : Occurrence → Bool
  | .accepted _ => true
  | _ => false

inductive Callback where
  | counted (event : Option Event)
  /-- The channel was full, and nobody knows yet. -/
  | dropped
  deriving DecidableEq, Repr

inductive Purpose where
  | alone
  | opening (force : Bool) (now : Nat)
  | cutoff (batch : DirtyBatch) (final : Option Outcome)
  | acknowledging (batch : DirtyBatch) (outcome : Outcome)
  deriving DecidableEq

/-- Why a full inventory is required. -/
inductive Reason where
  | cutoffChanged
  | failed
  | unaccounted
  deriving DecidableEq, Repr

/-- Before which access the leader's stream stands. -/
inductive Place where
  | idle
  | draining (left : Nat) (purpose : Purpose)
  | swapping (purpose : Purpose)
  | loading (purpose : Purpose)
  | opened (batch : DirtyBatch) (force : Bool) (now : Nat)
  | admitting (batch : DirtyBatch)
  | cut (batch : DirtyBatch) (final : Option Outcome)
  | passed (batch : DirtyBatch) (final : Option Outcome)
  | accounted (batch : DirtyBatch) (outcome : Outcome)
  | comparing (batch : DirtyBatch) (outcome : Outcome)
  | cleared (batch : DirtyBatch) (outcome : Outcome)
  | requiring (reason : Reason)
  deriving DecidableEq

structure Options where
  workspaceRoot : Path
  scipPath : Option Path
  manifestPath : Option Path
  maxFileBytes : Nat
  deriving DecidableEq, Repr

/-- `LeaderWork`, with the stream's place in it, the callbacks beside it and the history. -/
structure World where
  watch : WatchSignals
  options : Options
  lastInventory : Nat
  retryAfter : Option Nat
  lastAccountedGeneration : Option Nat
  place : Place
  callbacks : List Callback
  history : List Occurrence
  deriving DecidableEq

/-- What the rest of the system answers while the stream takes one step. -/
structure Answers where
  files : Files
  now : Nat
  /-- The publication permit and the capture of the checkout. -/
  admits : Bool
  /-- The leader's session and the root, at a cutoff. -/
  verifies : Bool
  /-- The baseline, the comparison with the selected head, and what a publication
  prepares. -/
  measures : Bool
  /-- `selected_capture_unchanged`. -/
  unchanged : Bool
  commits : Bool
  attests : Bool

namespace World

/-- The watcher is new, and the daemon has done nothing yet. -/
def Starts (w : World) : Prop :=
  (∃ root scipPath manifestPath executable native registered,
    w.watch = .construct root scipPath manifestPath executable native registered) ∧
  w.place = .idle ∧ w.callbacks = [] ∧ w.history = []

/-! ### The ingress -/

/-- A callback, or the injection of an event, counts it. -/
def accept (w : World) (event : Option Event) : World :=
  { w with
    watch := w.watch.count
    callbacks := w.callbacks ++ [.counted event]
    history := w.history ++ [.accepted event] }

/-- `observe_event`, of an event that is kept. -/
def observe (w : World) (files : Files) (event : Event) (now : Nat) : World :=
  { w with
    watch := w.watch.observeEvent files event now
    history := w.history ++ [.accepted (some event)] }

/-! ### A reconciliation -/

/-- The options the watcher was made for are no longer the ones in force. -/
def renews (w : World) (options : Options) : Prop := w.options ≠ options

instance (w : World) (options : Options) : Decidable (w.renews options) :=
  inferInstanceAs (Decidable (_ ≠ _))

/-- A watcher for new options, which begins as if just woken.  What still runs for the
old one reaches only a channel that nobody receives from. -/
def renew (w : World) (options : Options) (executable : Option Path) (registered : Bool) : World :=
  { w with
    watch := .construct options.workspaceRoot options.scipPath options.manifestPath executable
      true registered
    options := options
    lastAccountedGeneration := none
    callbacks := [] }

/-- `reconcile_due_with_cutoffs` up to its drain. -/
def reconcile (w : World) (options : Options) (executable : Option Path) (registered : Bool)
    (force : Bool) (now : Nat) : World :=
  { (if w.renews options then w.renew options executable registered else w) with
    place := .draining maxDirtyPaths (.opening force now) }

/-- An inventory is due whatever the signals say. -/
def periodic (w : World) (now : Nat) : Prop := 60000 ≤ now - w.lastInventory

/-- A failed inventory is not to be retried yet. -/
def delayed (w : World) (now : Nat) : Prop := ∃ deadline ∈ w.retryAfter, now < deadline

/-- The signals call for no inventory at this time. -/
def waits (w : World) (batch : DirtyBatch) (now : Nat) : Prop :=
  (w.watch.degraded = true ∧ w.lastAccountedGeneration = some batch.generation) ∨
    w.watch.batchReadyAt now = false

instance (w : World) (now : Nat) : Decidable (w.periodic now) :=
  inferInstanceAs (Decidable (_ ≤ _))

instance (w : World) (now : Nat) : Decidable (w.delayed now) :=
  inferInstanceAs (Decidable (∃ deadline ∈ w.retryAfter, now < deadline))

instance (w : World) (batch : DirtyBatch) (now : Nat) : Decidable (w.waits batch now) :=
  inferInstanceAs (Decidable (_ ∨ _))

/-- The stream goes to a place, and nothing else happens. -/
def goto (w : World) (place : Place) : World := { w with place := place }

/-- The stream goes to a place with something to tell. -/
def tell (w : World) (occurrence : Occurrence) (place : Place) : World :=
  { w with history := w.history ++ [occurrence], place := place }

/-- The signals become `watch` by the stream's doing, which goes to a place. -/
def become (w : World) (watch : WatchSignals) (place : Place) : World :=
  { w with watch := watch, place := place }

def returns (batch : DirtyBatch) : Purpose → Place
  | .alone => .idle
  | .opening force now => .opened batch force now
  | .cutoff begun final => .cut begun final
  | .acknowledging begun outcome => .comparing begun outcome

def receive (w : World) (files : Files) (left : Nat) (purpose : Purpose) : World :=
  match w.watch.channel with
  | [] => w.goto (.swapping purpose)
  | signal :: rest =>
      w.become (w.watch.receive files signal rest) (.draining left purpose)

def load (w : World) (purpose : Purpose) : World :=
  let watch := w.watch.loadGeneration
  { w.tell (.drained watch.pending) (returns watch.pending purpose) with watch := watch }

def openBatch (w : World) (batch : DirtyBatch) (force : Bool) (now : Nat) : World :=
  if force = false ∧ w.delayed now then w.goto .idle
  else if force = false ∧ ¬ w.periodic now ∧ w.waits batch now then w.goto .idle
  else w.goto (.admitting batch)

/-- The permit and the capture, which is always of the whole checkout: the paths of the
batch choose nothing. -/
def admitCapture (w : World) (answers : Answers) (batch : DirtyBatch) : World :=
  if answers.admits then
    w.tell (.captured .checkout) (.draining maxDirtyPaths (.cutoff batch none))
  else w.goto (.requiring .failed)

def cutoff (w : World) (answers : Answers) (batch : DirtyBatch) (final : Option Outcome) : World :=
  if w.watch.pending.generation ≠ batch.generation then w.goto (.requiring .cutoffChanged)
  else if answers.verifies then w.goto (.passed batch final)
  else w.goto (.requiring .failed)

/-- The comparison with the selected head, and the way to the last cutoff. -/
def compare (w : World) (answers : Answers) (batch : DirtyBatch) : World :=
  if answers.measures then
    w.goto (.draining maxDirtyPaths
      (.cutoff batch (some (if answers.unchanged then .unchanged else .published))))
  else w.goto (.requiring .failed)

/-- Past the last cutoff: an unchanged capture is settled, another one is published. -/
def finish (w : World) (answers : Answers) (batch : DirtyBatch) : Outcome → World
  | .unchanged => w.tell (.settled .unchanged) (.accounted batch .unchanged)
  | .published =>
      if answers.commits then
        w.tell (.settled .published)
          (if answers.attests then .accounted batch .published else .requiring .failed)
      else w.goto (.requiring .failed)

/-- `acknowledge` after its drain. -/
def acknowledge (w : World) (batch : DirtyBatch) (outcome : Outcome) : World :=
  if w.watch.accounts batch then w.become w.watch.clear (.cleared batch outcome)
  else w.goto (.requiring .unaccounted)

/-- `acknowledge` after its clearing. -/
def reload (w : World) (now : Nat) (batch : DirtyBatch) : World :=
  if w.watch.generation ≠ batch.generation then
    w.become w.watch.markUrgent (.requiring .unaccounted)
  else
    { w.become (w.watch.settle batch) .idle with
      lastAccountedGeneration := some batch.generation
      lastInventory := now
      retryAfter := none }

/-- The end of a reconciliation that did not account for its batch. -/
def requireFull (w : World) (now : Nat) : Reason → World
  | .cutoffChanged => { w.become w.watch.requireFull .idle with retryAfter := none }
  | .failed => { w.become w.watch.requireFull .idle with retryAfter := some (now + 250) }
  | .unaccounted =>
      { w.become w.watch.requireFull .idle with lastInventory := now, retryAfter := none }

def turn (w : World) (answers : Answers) : World :=
  match w.place with
  | .idle => w
  | .draining 0 purpose => w.goto (.swapping purpose)
  | .draining (left + 1) purpose => w.receive answers.files left purpose
  | .swapping purpose => w.become w.watch.takeOverflow (.loading purpose)
  | .loading purpose => w.load purpose
  | .opened batch force now => w.openBatch batch force now
  | .admitting batch => w.admitCapture answers batch
  | .cut batch final => w.cutoff answers batch final
  | .passed batch none => w.compare answers batch
  | .passed batch (some outcome) => w.finish answers batch outcome
  | .accounted batch outcome => w.goto (.draining maxDirtyPaths (.acknowledging batch outcome))
  | .comparing batch outcome => w.acknowledge batch outcome
  | .cleared batch _ => w.reload answers.now batch
  | .requiring reason => w.requireFull answers.now reason

inductive Step : World → World → Prop where
  | accept {w : World} {event : Option Event} (files : Files)
      (haccepts : w.watch.accepts files event = true) : Step w (w.accept event)
  | send {w : World} {event : Option Event} (before after : List Callback) (now : Nat)
      (hflight : w.callbacks = before ++ .counted event :: after) (hroom : w.watch.hasRoom) :
      Step w { w with watch := w.watch.send ⟨event, now⟩, callbacks := before ++ after }
  | drop {w : World} {event : Option Event} (before after : List Callback)
      (hflight : w.callbacks = before ++ .counted event :: after) (hfull : ¬ w.watch.hasRoom) :
      Step w { w with callbacks := before ++ .dropped :: after }
  | raise {w : World} (before after : List Callback)
      (hflight : w.callbacks = before ++ .dropped :: after) :
      Step w { w with watch := w.watch.raise, callbacks := before ++ after }
  | observe {w : World} {event : Event} (files : Files) (now : Nat) (hidle : w.place = .idle)
      (haccepts : w.watch.accepts files (some event) = true) : Step w (w.observe files event now)
  | require {w : World} (hidle : w.place = .idle) :
      Step w (w.become w.watch.requireFull .idle)
  | drain {w : World} (hidle : w.place = .idle) :
      Step w (w.goto (.draining maxDirtyPaths .alone))
  | reconcile {w : World} (options : Options) (executable : Option Path) (registered : Bool)
      (force : Bool) (now : Nat) (hidle : w.place = .idle) :
      Step w (w.reconcile options executable registered force now)
  | turn {w : World} (answers : Answers) : Step w (w.turn answers)

end World

/-! ### What the history says -/

/-- Everything accepted stands before a last part of the history, in which what `trace`
tells follows in order. -/
def Precedes (history trace : List Occurrence) : Prop :=
  ∃ before after, history = before ++ after ∧ (∀ o ∈ after, o.isAccepted = false) ∧
    trace.Sublist after

namespace Precedes

variable {history trace : List Occurrence} {o : Occurrence}

theorem start (ho : o.isAccepted = false) : Precedes (history ++ [o]) [o] := by
  refine ⟨history, [o], rfl, ?_, List.Sublist.refl _⟩
  intro o' ho'
  rw [List.mem_singleton] at ho'
  rw [ho']
  exact ho

theorem later (h : Precedes history trace) (ho : o.isAccepted = false) :
    Precedes (history ++ [o]) (trace ++ [o]) := by
  obtain ⟨before, after, rfl, hquiet, hsub⟩ := h
  refine ⟨before, after ++ [o], List.append_assoc _ _ _, ?_, hsub.append (List.Sublist.refl _)⟩
  intro o' ho'
  rcases List.mem_append.mp ho' with ho' | ho'
  · exact hquiet o' ho'
  · rw [List.mem_singleton] at ho'
    rw [ho']
    exact ho

theorem sublist {trace' : List Occurrence} (h : Precedes history trace)
    (hsub : trace'.Sublist trace) : Precedes history trace' := by
  obtain ⟨before, after, heq, hquiet, hsub'⟩ := h
  exact ⟨before, after, heq, hquiet, hsub.trans hsub'⟩

end Precedes

namespace World

/-- A count of the ingress that was read before all `trace` tells; while it is the count,
nothing was accepted since. -/
structure Accounts (w : World) (generation : Nat) (trace : List Occurrence) : Prop where
  le : generation ≤ w.watch.generation
  precedes : generation = w.watch.generation → Precedes w.history trace

/-- The history goes on, and tells of an acceptance only where the counter moved. -/
def Counts (w v : World) : Prop :=
  w.watch.generation < v.watch.generation ∨
    (v.watch.generation = w.watch.generation ∧
      (v.history = w.history ∨ ∃ o, o.isAccepted = false ∧ v.history = w.history ++ [o]))

theorem Accounts.goes {w v : World} {generation : Nat} {trace : List Occurrence}
    (h : w.Accounts generation trace) (hgoes : w.Counts v) : v.Accounts generation trace := by
  rcases hgoes with hlt | ⟨hgen, hhist⟩
  · have hle := h.le
    refine ⟨by omega, ?_⟩
    intro heq
    omega
  · refine ⟨by rw [hgen]; exact h.le, ?_⟩
    intro heq
    have hold := h.precedes (heq.trans hgen)
    rcases hhist with hhist | ⟨o, ho, hhist⟩
    · rw [hhist]; exact hold
    · rw [hhist]; exact (hold.later ho).sublist (List.sublist_append_left _ _)

theorem Accounts.tells {w v : World} {generation : Nat} {trace : List Occurrence}
    {o : Occurrence} (h : w.Accounts generation trace)
    (hgen : v.watch.generation = w.watch.generation) (hhist : v.history = w.history ++ [o])
    (ho : o.isAccepted = false) : v.Accounts generation (trace ++ [o]) := by
  refine ⟨by rw [hgen]; exact h.le, ?_⟩
  intro heq
  rw [hhist]
  exact (h.precedes (heq.trans hgen)).later ho

end World

/-! ### What each place knows -/

def Purpose.told : Purpose → Option (DirtyBatch × List Occurrence)
  | .alone => none
  | .opening _ _ => none
  | .cutoff batch _ => some (batch, [.drained batch, .captured .checkout])
  | .acknowledging batch outcome =>
      some (batch, [.drained batch, .captured .checkout, .settled outcome])

def Place.told : Place → Option (DirtyBatch × List Occurrence)
  | .idle => none
  | .draining _ purpose => purpose.told
  | .swapping purpose => purpose.told
  | .loading purpose => purpose.told
  | .opened batch _ _ => some (batch, [.drained batch])
  | .admitting batch => some (batch, [.drained batch])
  | .cut batch _ => some (batch, [.drained batch, .captured .checkout])
  | .passed batch _ => some (batch, [.drained batch, .captured .checkout])
  | .accounted batch outcome =>
      some (batch, [.drained batch, .captured .checkout, .settled outcome])
  | .comparing batch outcome =>
      some (batch, [.drained batch, .captured .checkout, .settled outcome])
  | .cleared batch outcome =>
      some (batch, [.drained batch, .captured .checkout, .settled outcome])
  | .requiring _ => none

namespace World

def Stands (w : World) : Prop :=
  ∀ batch trace, w.place.told = some (batch, trace) → w.Accounts batch.generation trace

/-- **The batch under way and the batch last acknowledged were both drained after
whatever their count includes.** -/
structure Held (w : World) : Prop where
  counted : 0 < w.watch.generation
  stands : w.Stands
  acknowledged : w.watch.acknowledgedGeneration = 0 ∨ ∃ batch outcome,
    w.Accounts w.watch.acknowledgedGeneration
      [.drained batch, .captured .checkout, .settled outcome]

variable {v w : World} {place : Place} {batch : DirtyBatch}

theorem Held.of_starts (h : w.Starts) : w.Held := by
  obtain ⟨⟨root, scipPath, manifestPath, executable, native, registered, hwatch⟩, hplace, -, -⟩ := h
  refine ⟨?_, ?_, Or.inl ?_⟩
  · rw [hwatch]; exact Nat.one_pos
  · intro batch trace htold
    rw [hplace] at htold
    cases htold
  · rw [hwatch]; rfl

theorem Stands.of_none (h : w.place.told = none) : w.Stands := by
  intro batch trace htold
  rw [h] at htold
  cases htold

theorem Stands.goes (h : w.Stands) (hgoes : w.Counts v) (hplace : v.place.told = w.place.told) :
    v.Stands := by
  intro batch trace htold
  rw [hplace] at htold
  exact (h batch trace htold).goes hgoes

theorem Held.goes (h : w.Held) (hgoes : w.Counts v)
    (hack : v.watch.acknowledgedGeneration = w.watch.acknowledgedGeneration) (hstands : v.Stands) :
    v.Held := by
  refine ⟨?_, hstands, ?_⟩
  · have hpos := h.counted
    rcases hgoes with hlt | ⟨hgen, -⟩
    · omega
    · omega
  · rw [hack]
    rcases h.acknowledged with hzero | ⟨batch, outcome, hacc⟩
    · exact Or.inl hzero
    · exact Or.inr ⟨batch, outcome, hacc.goes hgoes⟩

/-! ### The stream's accesses -/

theorem goto_counts (w : World) (place : Place) : w.Counts (w.goto place) :=
  Or.inr ⟨rfl, Or.inl rfl⟩

theorem become_counts {watch : WatchSignals} (h : w.watch.SameCount watch) (place : Place) :
    w.Counts (w.become watch place) := Or.inr ⟨h.generation, Or.inl rfl⟩

theorem tell_counts (w : World) {o : Occurrence} (ho : o.isAccepted = false) (place : Place) :
    w.Counts (w.tell o place) := Or.inr ⟨rfl, Or.inr ⟨o, ho, rfl⟩⟩

theorem Held.goto (h : w.Held) (hplace : place.told = w.place.told ∨ place.told = none) :
    (w.goto place).Held := by
  refine h.goes (w.goto_counts place) rfl ?_
  rcases hplace with hsame | hnone
  · exact h.stands.goes (w.goto_counts place) hsame
  · exact Stands.of_none hnone

/-- The stream changes its own fields and goes to a place that knows no more. -/
theorem Held.become (h : w.Held) {watch : WatchSignals} (hwatch : w.watch.SameCount watch)
    (hplace : place.told = w.place.told ∨ place.told = none) : (w.become watch place).Held := by
  refine h.goes (become_counts hwatch place) hwatch.acknowledged ?_
  rcases hplace with hsame | hnone
  · exact h.stands.goes (become_counts hwatch place) hsame
  · exact Stands.of_none hnone

theorem Held.tell (h : w.Held) {o : Occurrence} (ho : o.isAccepted = false)
    {trace : List Occurrence} (hold : w.place.told = some (batch, trace))
    (hplace : place.told = some (batch, trace ++ [o]) ∨ place.told = none) :
    (w.tell o place).Held := by
  refine h.goes (w.tell_counts ho place) rfl ?_
  rcases hplace with hnext | hnone
  · intro batch' trace' htold
    have heq : some (batch', trace') = some (batch, trace ++ [o]) := htold.symm.trans hnext
    obtain ⟨rfl, rfl⟩ := Prod.mk.inj (Option.some.inj heq)
    exact (h.stands batch' trace hold).tells rfl rfl ho
  · exact Stands.of_none hnone

theorem Held.receive (h : w.Held) (files : Files) {left : Nat} {purpose : Purpose}
    (htold : w.place.told = purpose.told) : (w.receive files left purpose).Held := by
  unfold World.receive
  cases w.watch.channel with
  | nil => exact h.goto (Or.inl htold.symm)
  | cons signal rest =>
      exact h.become (w.watch.receive_same files signal rest) (Or.inl htold.symm)

/-- The drain that opens a reconciliation is where its batch begins; to the others it is
one more thing told. -/
theorem Held.load (h : w.Held) {purpose : Purpose} (htold : w.place.told = purpose.told) :
    (w.load purpose).Held := by
  have hsame := w.watch.loadGeneration_same
  have hdrained : Occurrence.isAccepted (.drained w.watch.loadGeneration.pending) = false := rfl
  have hgoes : w.Counts (w.load purpose) := Or.inr ⟨hsame.generation, Or.inr ⟨_, hdrained, rfl⟩⟩
  refine h.goes hgoes hsame.acknowledged ?_
  cases purpose with
  | alone => exact Stands.of_none rfl
  | opening force now =>
      intro batch trace heq
      obtain ⟨rfl, rfl⟩ := Prod.mk.inj (Option.some.inj heq)
      refine ⟨?_, ?_⟩
      · show w.watch.loadGeneration.pending.generation ≤ w.watch.loadGeneration.generation
        rw [w.watch.loadGeneration_pending, hsame.generation]
      · intro _; exact Precedes.start hdrained
  | cutoff | acknowledging => exact h.stands.goes hgoes htold.symm

theorem Held.openBatch (h : w.Held) {force : Bool} {now : Nat}
    (htold : w.place.told = some (batch, [.drained batch])) :
    (w.openBatch batch force now).Held := by
  unfold World.openBatch
  split
  · exact h.goto (Or.inr rfl)
  · split
    · exact h.goto (Or.inr rfl)
    · exact h.goto (Or.inl htold.symm)

theorem Held.admitCapture (h : w.Held) (answers : Answers)
    (htold : w.place.told = some (batch, [.drained batch])) :
    (w.admitCapture answers batch).Held := by
  unfold World.admitCapture
  split
  · exact h.tell rfl htold (Or.inl rfl)
  · exact h.goto (Or.inr rfl)

theorem Held.cutoff (h : w.Held) (answers : Answers) {final : Option Outcome}
    (htold : w.place.told = some (batch, [.drained batch, .captured .checkout])) :
    (w.cutoff answers batch final).Held := by
  unfold World.cutoff
  split
  · exact h.goto (Or.inr rfl)
  · split
    · exact h.goto (Or.inl htold.symm)
    · exact h.goto (Or.inr rfl)

theorem Held.compare (h : w.Held) (answers : Answers)
    (htold : w.place.told = some (batch, [.drained batch, .captured .checkout])) :
    (w.compare answers batch).Held := by
  unfold World.compare
  split
  · exact h.goto (Or.inl htold.symm)
  · exact h.goto (Or.inr rfl)

theorem Held.finish (h : w.Held) (answers : Answers)
    (htold : w.place.told = some (batch, [.drained batch, .captured .checkout])) (outcome : Outcome) :
    (w.finish answers batch outcome).Held := by
  cases outcome with
  | unchanged => exact h.tell rfl htold (Or.inl rfl)
  | published =>
      show (if answers.commits = true then _ else _ : World).Held
      split
      · refine h.tell rfl htold ?_
        split
        · exact Or.inl rfl
        · exact Or.inr rfl
      · exact h.goto (Or.inr rfl)

theorem Held.acknowledge (h : w.Held) {outcome : Outcome}
    (htold : w.place.told =
      some (batch, [.drained batch, .captured .checkout, .settled outcome])) :
    (w.acknowledge batch outcome).Held := by
  unfold World.acknowledge
  split
  · exact h.become w.watch.clear_same (Or.inl htold.symm)
  · exact h.goto (Or.inr rfl)

/-- The last load of an acknowledgement makes its batch the one acknowledged. -/
theorem Held.reload (h : w.Held) (now : Nat) {outcome : Outcome}
    (htold : w.place.told =
      some (batch, [.drained batch, .captured .checkout, .settled outcome])) :
    (w.reload now batch).Held := by
  unfold World.reload
  split
  · exact h.become w.watch.markUrgent_same (Or.inr rfl)
  · have hacc := h.stands batch _ htold
    refine ⟨h.counted, Stands.of_none rfl, Or.inr ⟨batch, outcome, hacc.le, ?_⟩⟩
    exact hacc.precedes

theorem requireFull_counts (w : World) (now : Nat) (reason : Reason) :
    w.Counts (w.requireFull now reason) := by
  cases reason <;> exact Or.inl (Nat.lt_succ_self _)

theorem Held.requireFull (h : w.Held) (now : Nat) (reason : Reason) :
    (w.requireFull now reason).Held := by
  refine h.goes (w.requireFull_counts now reason) ?_ (Stands.of_none ?_)
  · cases reason <;> rfl
  · cases reason <;> rfl

/-- **An access of the stream keeps what is held.** -/
theorem Held.turn (h : w.Held) (answers : Answers) : (w.turn answers).Held := by
  unfold World.turn
  cases hplace : w.place with
  | idle => exact h
  | draining left purpose =>
      have htold : w.place.told = purpose.told := by rw [hplace]; rfl
      cases left with
      | zero => exact h.goto (Or.inl htold.symm)
      | succ left => exact h.receive answers.files htold
  | swapping purpose =>
      have htold : w.place.told = purpose.told := by rw [hplace]; rfl
      exact h.become w.watch.takeOverflow_same (Or.inl htold.symm)
  | loading purpose => exact h.load (by rw [hplace]; rfl)
  | opened batch force now => exact h.openBatch (by rw [hplace]; rfl)
  | admitting batch => exact h.admitCapture answers (by rw [hplace]; rfl)
  | cut batch final => exact h.cutoff answers (by rw [hplace]; rfl)
  | passed batch final =>
      cases final with
      | none => exact h.compare answers (by rw [hplace]; rfl)
      | some outcome => exact h.finish answers (by rw [hplace]; rfl) outcome
  | accounted batch outcome => exact h.goto (Or.inl (by rw [hplace]; rfl))
  | comparing batch outcome => exact h.acknowledge (by rw [hplace]; rfl)
  | cleared batch outcome => exact h.reload answers.now (by rw [hplace]; rfl)
  | requiring reason => exact h.requireFull answers.now reason

/-! ### A run -/

theorem Held.reconcile (h : w.Held) (options : Options) (executable : Option Path)
    (registered force : Bool) (now : Nat) :
    (w.reconcile options executable registered force now).Held := by
  unfold World.reconcile
  by_cases hrenews : w.renews options
  · rw [if_pos hrenews]; exact ⟨Nat.one_pos, Stands.of_none rfl, Or.inl rfl⟩
  · rw [if_neg hrenews]; exact h.goto (Or.inr rfl)

/-- **One access keeps what is held.** -/
theorem Held.step (hstep : w.Step v) (h : w.Held) : v.Held := by
  cases hstep with
  | @accept event files haccepts =>
      have hgoes : w.Counts (w.accept event) := Or.inl (Nat.lt_succ_self _)
      exact h.goes hgoes rfl (h.stands.goes hgoes rfl)
  | @send event before after now hflight hroom =>
      have hgoes : w.Counts { w with
        watch := w.watch.send ⟨event, now⟩, callbacks := before ++ after } :=
        Or.inr ⟨rfl, Or.inl rfl⟩
      exact h.goes hgoes rfl (h.stands.goes hgoes rfl)
  | drop before after hflight hfull =>
      have hgoes : w.Counts { w with callbacks := before ++ .dropped :: after } :=
        Or.inr ⟨rfl, Or.inl rfl⟩
      exact h.goes hgoes rfl (h.stands.goes hgoes rfl)
  | raise before after hflight =>
      have hgoes : w.Counts { w with watch := w.watch.raise, callbacks := before ++ after } :=
        Or.inr ⟨rfl, Or.inl rfl⟩
      exact h.goes hgoes rfl (h.stands.goes hgoes rfl)
  | @observe event files now hidle haccepts =>
      have hsame := (w.watch.count).record_same files event now
      have hgoes : w.Counts (w.observe files event now) := by
        refine Or.inl ?_
        show w.watch.generation < (w.watch.count.record files event now).generation
        rw [hsame.generation]
        exact Nat.lt_succ_self _
      refine h.goes hgoes hsame.acknowledged (Stands.of_none ?_)
      show w.place.told = none
      rw [hidle]
      rfl
  | require hidle =>
      have hgoes : w.Counts (w.become w.watch.requireFull .idle) := Or.inl (Nat.lt_succ_self _)
      exact h.goes hgoes rfl (Stands.of_none rfl)
  | drain hidle => exact h.goto (Or.inr rfl)
  | reconcile options executable registered force now hidle =>
      exact h.reconcile options executable registered force now
  | turn answers => exact h.turn answers

/-- **No signal is lost.**  Whenever `accepted_unacked` denies it, everything accepted so
far was accepted before a drain that a capture followed which took in whatever the event
may have changed, and which was then published or found unchanged. -/
theorem no_signal_lost (w : World) (h : Runs.Reachable Starts Step w)
    (hdenied : w.watch.acceptedUnacked = false) :
    ∃ before after batch scope outcome, w.history = before ++ after ∧
      [.drained batch, .captured scope, .settled outcome].Sublist after ∧
      ∀ event, .accepted event ∈ w.history →
        .accepted event ∈ before ∧ .accepted event ∉ after ∧ scope.Covers event := by
  have hheld : w.Held :=
    Runs.Reachable.keeps (I := Held) (fun _ => Held.of_starts) (fun _ _ => Held.step) h
  have hgen := WatchSignals.settled_of_not_unacked hdenied
  rcases hheld.acknowledged with hzero | ⟨batch, outcome, hacc⟩
  · have hpos := hheld.counted
    omega
  · obtain ⟨before, after, hhist, hquiet, hsub⟩ := hacc.precedes hgen.symm
    refine ⟨before, after, batch, .checkout, outcome, hhist, hsub, ?_⟩
    intro event hevent
    have hafter : .accepted event ∉ after := by
      intro hmem
      have := hquiet _ hmem
      cases this
    rw [hhist] at hevent
    rcases List.mem_append.mp hevent with hbefore | hmem
    · exact ⟨hbefore, hafter, trivial⟩
    · exact absurd hmem hafter

/-! ### A sample run -/

namespace Sample

def files : Files := ⟨fun _ => none, fun _ => none⟩

def answers : Answers := ⟨files, 1000, true, true, true, true, true, true⟩

def fresh : World :=
  ⟨.construct [.root] none none none true true, ⟨[.root], none, none, 1024⟩, 0, none, none, .idle,
    [], []⟩

def turns : Nat → World → World
  | 0, w => w
  | n + 1, w => turns n (w.turn answers)

theorem reachable_turns {w : World} (h : Runs.Reachable Starts Step w) (n : Nat) :
    Runs.Reachable Starts Step (turns n w) := by
  induction n generalizing w with
  | zero => exact h
  | succ n ih => exact ih (h.then (.single (Step.turn answers)))

def event : Event := ⟨.any, []⟩

/-- An event is counted, and a reconciliation drains it after it was sent. -/
def reconciled : World :=
  let counted := fresh.accept (some event)
  let sent := { counted with
    watch := counted.watch.send ⟨some event, 5⟩, callbacks := [] }
  turns 24 (sent.reconcile fresh.options none true true 1000)

theorem reconciled_reachable : Runs.Reachable Starts Step reconciled := by
  have hstart : Runs.Reachable Starts Step fresh :=
    Runs.Reachable.start ⟨⟨[.root], none, none, none, true, true, rfl⟩, rfl, rfl, rfl⟩
  have hcounted := hstart.then (.single (@Step.accept _ (some event) files (by decide)))
  have hsent := hcounted.then (.single (Step.send [] [] 5 rfl (by decide)))
  exact reachable_turns (hsent.then (.single (Step.reconcile _ none true true 1000 rfl))) 24

end Sample

/-- A reconciliation takes in the event that came before it, and no more is denied. -/
theorem no_signal_lost_sample :
    ∃ before after batch scope outcome, Sample.reconciled.history = before ++ after ∧
      [.drained batch, .captured scope, .settled outcome].Sublist after ∧
      ∀ event, .accepted event ∈ Sample.reconciled.history →
        .accepted event ∈ before ∧ .accepted event ∉ after ∧ scope.Covers event :=
  no_signal_lost Sample.reconciled Sample.reconciled_reachable (by decide)

end World

end Baleyg.Watch
