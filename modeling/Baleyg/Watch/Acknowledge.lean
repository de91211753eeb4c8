/-
What an acknowledgement clears.

A drain takes a bounded number of signals from the channel and reads the counter last, so the
count of the batch it returns includes signals that are still in the channel, or in the hands of
a callback.  An acknowledgement drains once more before it compares, and what that drain finds
joins the paths that are cleared without having been in the batch.

So a batch covers what its acknowledgement clears exactly when it is full or names every path of
the signals that were outstanding when its drain read the counter.
-/
import Baleyg.Lib.Runs
import Baleyg.Watch.Signals

namespace Baleyg.Watch.Acknowledge

structure Accepted where
  count : Nat
  event : Option Event
  deriving DecidableEq, Repr

/-- A callback between two of its accesses. -/
inductive Callback where
  | counted (a : Accepted)
  /-- The channel was full, and the flag is still to be raised. -/
  | dropped (a : Accepted)
  deriving DecidableEq, Repr

def Callback.accepted : Callback → Accepted
  | counted a => a
  | dropped a => a

/-- Where the owner of the signals stands; a drain may be made for an acknowledgement. -/
inductive Place where
  | idle
  | draining (left : Nat) (purpose : Option DirtyBatch)
  | swapping (purpose : Option DirtyBatch)
  | loading (purpose : Option DirtyBatch)
  | comparing (batch : DirtyBatch)
  /-- The signals are cleared, and the counter is to be read once more. -/
  | cleared (batch : DirtyBatch)
  deriving DecidableEq

/-- A batch, and the signals that were outstanding when its drain read the counter. -/
structure Drained where
  batch : DirtyBatch
  outstanding : List Accepted
  deriving DecidableEq

structure Stream where
  watch : WatchSignals
  callbacks : List Callback
  queued : List Accepted
  /-- The signals that found no room, since the flag was last swapped. -/
  unseen : List Accepted
  accepted : List Accepted
  batches : List Drained
  place : Place
  deriving DecidableEq

namespace Stream

def outstanding (s : Stream) : List Accepted :=
  s.callbacks.map Callback.accepted ++ s.queued ++ s.unseen

def next (s : Stream) (event : Option Event) : Accepted := ⟨s.watch.generation + 1, event⟩

def Starts (s : Stream) : Prop :=
  (∃ root scipPath manifestPath executable native registered,
    s.watch = .construct root scipPath manifestPath executable native registered) ∧
  s.callbacks = [] ∧ s.queued = [] ∧ s.unseen = [] ∧ s.accepted = [] ∧ s.batches = [] ∧
  s.place = .idle

inductive Step : Stream → Stream → Prop where
  | accept {s : Stream} {event : Option Event} (files : Files)
      (haccepts : s.watch.accepts files event = true) :
      Step s { s with
        watch := s.watch.count
        callbacks := s.callbacks ++ [.counted (s.next event)]
        accepted := s.next event :: s.accepted }
  | send {s : Stream} {a : Accepted} (before after : List Callback) (now : Nat)
      (hflight : s.callbacks = before ++ .counted a :: after) (hroom : s.watch.hasRoom) :
      Step s { s with
        watch := s.watch.send ⟨a.event, now⟩
        callbacks := before ++ after
        queued := s.queued ++ [a] }
  | drop {s : Stream} {a : Accepted} (before after : List Callback)
      (hflight : s.callbacks = before ++ .counted a :: after) (hfull : ¬ s.watch.hasRoom) :
      Step s { s with callbacks := before ++ .dropped a :: after }
  | raise {s : Stream} {a : Accepted} (before after : List Callback)
      (hflight : s.callbacks = before ++ .dropped a :: after) :
      Step s { s with
        watch := s.watch.raise
        callbacks := before ++ after
        unseen := a :: s.unseen }
  /-- `observe_event`, of an event that is kept. -/
  | observe {s : Stream} {event : Event} (files : Files) (now : Nat) (hidle : s.place = .idle)
      (haccepts : s.watch.accepts files (some event) = true) :
      Step s { s with
        watch := s.watch.observeEvent files event now
        accepted := s.next (some event) :: s.accepted }
  | require {s : Stream} (hidle : s.place = .idle) :
      Step s { s with watch := s.watch.requireFull }
  | drain {s : Stream} (hidle : s.place = .idle) :
      Step s { s with place := .draining maxDirtyPaths none }
  /-- `acknowledge`, of a batch some drain returned. -/
  | acknowledge {s : Stream} {d : Drained} (hidle : s.place = .idle) (hd : d ∈ s.batches) :
      Step s { s with place := .draining maxDirtyPaths (some d.batch) }
  | receive {s : Stream} {left : Nat} {purpose : Option DirtyBatch} {signal : Signal}
      {rest : List Signal} (files : Files) (hplace : s.place = .draining (left + 1) purpose)
      (hchannel : s.watch.channel = signal :: rest) :
      Step s { s with
        watch := s.watch.receive files signal rest
        queued := s.queued.tail
        place := .draining left purpose }
  /-- The channel is empty, or enough was taken from it. -/
  | drained {s : Stream} {left : Nat} {purpose : Option DirtyBatch}
      (hplace : s.place = .draining left purpose) (hend : left = 0 ∨ s.watch.channel = []) :
      Step s { s with place := .swapping purpose }
  | swap {s : Stream} {purpose : Option DirtyBatch} (hplace : s.place = .swapping purpose) :
      Step s { s with watch := s.watch.takeOverflow, unseen := [], place := .loading purpose }
  /-- A drain returns its batch. -/
  | load {s : Stream} (hplace : s.place = .loading none) :
      Step s { s with
        watch := s.watch.loadGeneration
        batches := ⟨s.watch.loadGeneration.pending, s.outstanding⟩ :: s.batches
        place := .idle }
  | loadFor {s : Stream} {batch : DirtyBatch} (hplace : s.place = .loading (some batch)) :
      Step s { s with watch := s.watch.loadGeneration, place := .comparing batch }
  /-- `acknowledge` returns `false`. -/
  | refuse {s : Stream} {batch : DirtyBatch} (hplace : s.place = .comparing batch)
      (haccounts : ¬ s.watch.accounts batch) : Step s { s with place := .idle }
  | clear {s : Stream} {batch : DirtyBatch} (hplace : s.place = .comparing batch)
      (haccounts : s.watch.accounts batch) :
      Step s { s with watch := s.watch.clear, place := .cleared batch }
  /-- A signal raced the clearing, and `acknowledge` returns `false`. -/
  | race {s : Stream} {batch : DirtyBatch} (hplace : s.place = .cleared batch)
      (hmoved : s.watch.generation ≠ batch.generation) :
      Step s { s with watch := s.watch.markUrgent, place := .idle }
  /-- `acknowledge` returns `true`. -/
  | settle {s : Stream} {batch : DirtyBatch} (hplace : s.place = .cleared batch)
      (hstands : s.watch.generation = batch.generation) :
      Step s { s with watch := s.watch.settle batch, place := .idle }

/-- The acknowledgement of the batch is about to return `true`. -/
def Settles (s : Stream) (batch : DirtyBatch) : Prop :=
  s.place = .cleared batch ∧ s.watch.generation = batch.generation

/-- The acknowledgement of the batch clears the signal, which was not cleared before. -/
def Clears (s : Stream) (batch : DirtyBatch) (a : Accepted) : Prop :=
  s.watch.acknowledgedGeneration < a.count ∧ a.count ≤ batch.generation

end Stream

/-- The batch is full, or it has each path of the signal. -/
def Covers (root : Path) (batch : DirtyBatch) (a : Accepted) : Prop :=
  batch.full = true ∨ ∃ event, a.event = some event ∧
    ∀ path ∈ event.paths, ∃ relative, root.below (root.join path) = some relative ∧
      relative ∈ batch.paths

/-! ### What recording adds -/

/-- A batch that covers whatever another one covers. -/
def Grows (b b' : DirtyBatch) : Prop :=
  b'.full = true ∨ b.full = false ∧ b.paths ⊆ b'.paths

theorem Grows.refl (b : DirtyBatch) : Grows b b := by
  cases hfull : b.full with
  | true => exact .inl hfull
  | false => exact .inr ⟨hfull, Finset.Subset.refl _⟩

theorem Grows.trans {a b c : DirtyBatch} (h : Grows a b) (h' : Grows b c) : Grows a c := by
  rcases h' with hfull | ⟨hfull, hsub⟩
  · exact .inl hfull
  · rcases h with hfull' | ⟨hfull', hsub'⟩
    · rw [hfull'] at hfull; cases hfull
    · exact .inr ⟨hfull', hsub'.trans hsub⟩

theorem Grows.full {b b' : DirtyBatch} (h : Grows b b') (hfull : b.full = true) :
    b'.full = true := by
  rcases h with h | ⟨h, -⟩
  · exact h
  · rw [hfull] at h; cases h

theorem Covers.grows {root : Path} {b b' : DirtyBatch} {a : Accepted} (h : Covers root b a)
    (hgrows : Grows b b') : Covers root b' a := by
  rcases h with hfull | ⟨event, hevent, hpaths⟩
  · exact .inl (hgrows.full hfull)
  · rcases hgrows with hfull | ⟨-, hsub⟩
    · exact .inl hfull
    · refine .inr ⟨event, hevent, fun path hpath => ?_⟩
      obtain ⟨relative, hbelow, hmem⟩ := hpaths path hpath
      exact ⟨relative, hbelow, hsub hmem⟩

section Recording

variable {w : WatchSignals} {files : Files}

/-- The owner's own step: the ingress stays as it is, and the batch grows. -/
structure Extends (w v : WatchSignals) : Prop where
  root : v.root = w.root
  channel : v.channel = w.channel
  overflow : v.overflow = w.overflow
  grows : Grows w.pending v.pending

theorem Extends.refl (w : WatchSignals) : Extends w w := ⟨rfl, rfl, rfl, .refl _⟩

theorem Extends.trans {u v w : WatchSignals} (h : Extends u v) (h' : Extends v w) : Extends u w :=
  ⟨h'.root.trans h.root, h'.channel.trans h.channel, h'.overflow.trans h.overflow,
    h.grows.trans h'.grows⟩

theorem Extends.ite {u v w : WatchSignals} {p : Prop} [Decidable p] (h : Extends u v)
    (h' : Extends u w) : Extends u (if p then v else w) := by
  split
  · exact h
  · exact h'

theorem extends_markFull (w : WatchSignals) : Extends w w.markFull := ⟨rfl, rfl, rfl, .inl rfl⟩

theorem extends_markUrgent (w : WatchSignals) : Extends w w.markUrgent := ⟨rfl, rfl, rfl, .inl rfl⟩

theorem extends_addPath (w : WatchSignals) (relative : Path) : Extends w (w.addPath relative) := by
  refine Extends.ite ⟨rfl, rfl, rfl, .inl rfl⟩ ⟨rfl, rfl, rfl, ?_⟩
  cases hfull : w.pending.full with
  | true => exact .inl hfull
  | false => exact .inr ⟨hfull, Finset.subset_insert _ _⟩

theorem addPath_covers (w : WatchSignals) (relative : Path) :
    (w.addPath relative).pending.full = true ∨ relative ∈ (w.addPath relative).pending.paths := by
  unfold WatchSignals.addPath
  simp only
  split
  · exact .inl rfl
  · exact .inr (Finset.mem_insert_self _ _)

theorem extends_recordRelative (w : WatchSignals) (relative : Option Path) :
    Extends w (WatchSignals.recordRelative files w relative) := by
  cases relative with
  | none => exact extends_markFull w
  | some relative =>
      refine Extends.ite (extends_markFull w) ?_
      exact (Extends.ite (extends_markFull w) (Extends.refl w)).trans (extends_addPath _ _)

theorem extends_recordPath (w : WatchSignals) (path : Path) :
    Extends w (WatchSignals.recordPath files w path) :=
  (Extends.ite (extends_markFull w) (Extends.refl w)).trans (extends_recordRelative _ _)

theorem recordRelative_covers (w : WatchSignals) (relative : Option Path) :
    (WatchSignals.recordRelative files w relative).pending.full = true ∨
      ∃ r, relative = some r ∧ r ∈ (WatchSignals.recordRelative files w relative).pending.paths := by
  cases relative with
  | none => exact .inl rfl
  | some r =>
      unfold WatchSignals.recordRelative
      simp only
      split
      · exact .inl rfl
      · rcases addPath_covers _ r with hfull | hmem
        · exact .inl hfull
        · exact .inr ⟨r, rfl, hmem⟩

theorem recordPath_covers (w : WatchSignals) (path : Path) :
    (WatchSignals.recordPath files w path).pending.full = true ∨
      ∃ r, w.root.below (w.root.join path) = some r ∧
        r ∈ (WatchSignals.recordPath files w path).pending.paths :=
  recordRelative_covers _ _

theorem extends_foldl (paths : List Path) (w : WatchSignals) :
    Extends w (paths.foldl (WatchSignals.recordPath files) w) := by
  induction paths generalizing w with
  | nil => exact .refl w
  | cons path rest ih => exact (extends_recordPath w path).trans (ih _)

theorem foldl_covers (paths : List Path) (w : WatchSignals) :
    ∀ path ∈ paths, (paths.foldl (WatchSignals.recordPath files) w).pending.full = true ∨
      ∃ r, w.root.below (w.root.join path) = some r ∧
        r ∈ (paths.foldl (WatchSignals.recordPath files) w).pending.paths := by
  induction paths generalizing w with
  | nil => exact fun path hpath => absurd hpath List.not_mem_nil
  | cons first rest ih =>
      intro path hpath
      have hrest : Extends (WatchSignals.recordPath files w first)
          (rest.foldl (WatchSignals.recordPath files) (WatchSignals.recordPath files w first)) :=
        extends_foldl rest _
      rcases List.mem_cons.mp hpath with rfl | hpath
      · have hcovers : (WatchSignals.recordPath files w path).pending.full = true ∨
            ∃ r, w.root.below (w.root.join path) = some r ∧
              r ∈ (WatchSignals.recordPath files w path).pending.paths := recordPath_covers w path
        rcases hcovers with hfull | ⟨r, hr, hmem⟩
        · exact .inl (hrest.grows.full hfull)
        · rcases hrest.grows with hfull | ⟨-, hsub⟩
          · exact .inl hfull
          · exact .inr ⟨r, hr, hsub hmem⟩
      · have hfirst : Extends w (WatchSignals.recordPath files w first) := extends_recordPath w first
        have hroot := hfirst.root
        rw [← hroot]
        exact ih _ path hpath

/-- What `record` does before it looks at the paths. -/
theorem record_eq (w : WatchSignals) (event : Event) (receivedAt : Nat) :
    ∃ v, Extends w v ∧
      w.record files event receivedAt = event.paths.foldl (WatchSignals.recordPath files) v := by
  refine ⟨_, ?_, rfl⟩
  have htimed : Extends w { w with
    firstSignal := some (w.firstSignal.getD receivedAt), lastSignal := some receivedAt } :=
    ⟨rfl, rfl, rfl, .refl _⟩
  have hvague := Extends.ite
    (p := (event.paths.isEmpty || event.kind == .any || event.kind == .other) = true)
    (htimed.trans (extends_markUrgent _)) htimed
  have hrename := Extends.ite
    (p := (event.kind == .modify .name && event.paths.length != 2) = true)
    (hvague.trans (extends_markFull _)) hvague
  exact Extends.ite (hrename.trans (extends_markFull _)) hrename

theorem extends_record (w : WatchSignals) (event : Event) (receivedAt : Nat) :
    Extends w (w.record files event receivedAt) := by
  have hrecord : ∃ v, Extends w v ∧
      w.record files event receivedAt = event.paths.foldl (WatchSignals.recordPath files) v :=
    record_eq w event receivedAt
  obtain ⟨v, hv, heq⟩ := hrecord
  rw [heq]
  exact hv.trans (extends_foldl _ _)

/-- **What is recorded is covered.** -/
theorem record_covers (w : WatchSignals) (event : Event) (receivedAt : Nat) {a : Accepted}
    (ha : a.event = some event) :
    Covers w.root (w.record files event receivedAt).pending a := by
  have hrecord : ∃ v, Extends w v ∧
      w.record files event receivedAt = event.paths.foldl (WatchSignals.recordPath files) v :=
    record_eq w event receivedAt
  obtain ⟨v, hv, heq⟩ := hrecord
  rw [heq, ← hv.root]
  by_cases hfull : (event.paths.foldl (WatchSignals.recordPath files) v).pending.full = true
  · exact .inl hfull
  · refine .inr ⟨event, ha, fun path hpath => ?_⟩
    exact (foldl_covers event.paths v path hpath).resolve_left hfull

theorem extends_fail (w : WatchSignals) : Extends w w.fail := ⟨rfl, rfl, rfl, .inl rfl⟩

theorem extends_receive (w : WatchSignals) (signal : Signal) (rest : List Signal) :
    Extends { w with channel := rest } (w.receive files signal rest) := by
  unfold WatchSignals.receive
  cases signal.event with
  | some event => exact extends_record _ _ _
  | none => exact extends_fail _

theorem receive_covers (w : WatchSignals) (signal : Signal) (rest : List Signal) {a : Accepted}
    (ha : a.event = signal.event) : Covers w.root (w.receive files signal rest).pending a := by
  unfold WatchSignals.receive
  cases hevent : signal.event with
  | some event => exact record_covers { w with channel := rest } event _ (ha.trans hevent)
  | none => exact .inl rfl

theorem extends_takeOverflow (w : WatchSignals) :
    Extends { w with overflow := false } w.takeOverflow :=
  Extends.ite ⟨rfl, rfl, rfl, .inl rfl⟩ ⟨rfl, rfl, rfl, .refl w.pending⟩

theorem takeOverflow_full {w : WatchSignals} (h : w.overflow = true) :
    w.takeOverflow.pending.full = true := by
  unfold WatchSignals.takeOverflow
  simp only
  rw [if_pos h]
  rfl

theorem extends_loadGeneration (w : WatchSignals) : Extends w w.loadGeneration :=
  Extends.ite ⟨rfl, rfl, rfl, .inl rfl⟩ ⟨rfl, rfl, rfl, .refl w.pending⟩

end Recording

/-! ### The invariant -/

/-- A signal that is not acknowledged is outstanding or covered. -/
def Held (root : Path) (acknowledged : Nat) (batch : DirtyBatch) (outstanding : List Accepted)
    (accepted : List Accepted) : Prop :=
  ∀ a ∈ accepted, acknowledged < a.count → a ∈ outstanding ∨ Covers root batch a

/-- What a drain returned covered all that was accepted and not outstanding by then. -/
structure Kept (root : Path) (acknowledged generation : Nat) (accepted : List Accepted)
    (d : Drained) : Prop where
  le : d.batch.generation ≤ generation
  counted : ∀ a ∈ d.outstanding, a ∈ accepted ∧ a.count ≤ d.batch.generation
  held : ∀ a ∈ accepted, a.count ≤ d.batch.generation → acknowledged < a.count →
    a ∈ d.outstanding ∨ Covers root d.batch a

/-- **What holds between any two accesses.** -/
structure Sound (s : Stream) : Prop where
  behind : s.watch.acknowledgedGeneration ≤ s.watch.generation
  counted : ∀ a ∈ s.accepted, a.count ≤ s.watch.generation
  known : ∀ a ∈ s.outstanding, a ∈ s.accepted
  carried : s.queued.map Accepted.event = s.watch.channel.map Signal.event
  unseen : s.unseen ≠ [] → s.watch.overflow = true
  held : (∀ batch, s.place ≠ .cleared batch) → Held s.watch.root
    s.watch.acknowledgedGeneration s.watch.pending s.outstanding s.accepted
  batches : ∀ d ∈ s.batches,
    Kept s.watch.root s.watch.acknowledgedGeneration s.watch.generation s.accepted d

theorem Stream.Starts.sound {s : Stream} (h : s.Starts) : Sound s := by
  obtain ⟨⟨root, scipPath, manifestPath, executable, native, registered, hwatch⟩, hcallbacks,
    hqueued, hunseen, haccepted, hbatches, -⟩ := h
  refine ⟨?_, ?_, ?_, ?_, ?_, ?_, ?_⟩
  · rw [hwatch]; exact Nat.zero_le _
  · rw [haccepted]; exact fun a ha => absurd ha List.not_mem_nil
  · intro a ha
    unfold Stream.outstanding at ha
    rw [hcallbacks, hqueued, hunseen] at ha
    cases ha
  · rw [hqueued, hwatch]; rfl
  · exact fun hne => absurd hunseen hne
  · intro _ a ha
    rw [haccepted] at ha
    cases ha
  · rw [hbatches]; exact fun d hd => absurd hd List.not_mem_nil

section Keeping

variable {root : Path} {acknowledged generation : Nat} {accepted : List Accepted} {d : Drained}

theorem Kept.accept (h : Kept root acknowledged generation accepted d) (event : Option Event) :
    Kept root acknowledged (generation + 1) (⟨generation + 1, event⟩ :: accepted) d where
  le := Nat.le_succ_of_le h.le
  counted := fun a ha => ⟨List.mem_cons_of_mem _ (h.counted a ha).1, (h.counted a ha).2⟩
  held := fun a ha hle hlt => by
    rcases List.mem_cons.mp ha with rfl | ha
    · have hover : generation + 1 ≤ d.batch.generation := hle
      have := h.le
      omega
    · exact h.held a ha hle hlt

theorem Kept.later (h : Kept root acknowledged generation accepted d) {acknowledged' generation' : Nat}
    (hgen : generation ≤ generation') (hack : acknowledged ≤ acknowledged') :
    Kept root acknowledged' generation' accepted d where
  le := h.le.trans hgen
  counted := h.counted
  held := fun a ha hle hlt => h.held a ha hle (by omega)

end Keeping

section Stepping

variable {s s' : Stream}

theorem Sound.extend (h : Sound s) (hroot : s'.watch.root = s.watch.root)
    (hgrows : Grows s.watch.pending s'.watch.pending)
    (hgen : s.watch.generation ≤ s'.watch.generation)
    (hack : s'.watch.acknowledgedGeneration = s.watch.acknowledgedGeneration)
    (haccepted : s'.accepted = s.accepted) (hbatches : s'.batches = s.batches)
    (hknown : ∀ a ∈ s'.outstanding, a ∈ s.outstanding)
    (hheld : ∀ a ∈ s.outstanding,
      a ∈ s'.outstanding ∨ Covers s'.watch.root s'.watch.pending a)
    (hcarried : s'.queued.map Accepted.event = s'.watch.channel.map Signal.event)
    (hunseen : s'.unseen ≠ [] → s'.watch.overflow = true)
    (hplace : (∀ batch, s'.place ≠ .cleared batch) → ∀ batch, s.place ≠ .cleared batch) :
    Sound s' where
  behind := by
    rw [hack]
    exact h.behind.trans hgen
  counted := by
    rw [haccepted]
    exact fun a ha => (h.counted a ha).trans hgen
  known := fun a ha => by
    rw [haccepted]
    exact h.known a (hknown a ha)
  carried := hcarried
  unseen := hunseen
  held := fun hcleared a ha hlt => by
    rw [haccepted] at ha
    rw [hack] at hlt
    rcases h.held (hplace hcleared) a ha hlt with hout | hcovers
    · exact hheld a hout
    · rw [hroot]; exact .inr (hcovers.grows hgrows)
  batches := fun d hd => by
    rw [hbatches] at hd
    rw [hroot, hack, haccepted]
    exact (h.batches d hd).later hgen (Nat.le_refl _)

variable {place : Place} {a : Accepted} {after before : List Callback}

theorem Sound.goTo (h : Sound s) (hplace : ∀ batch, s.place ≠ .cleared batch) :
    Sound { s with place := place } :=
  h.extend rfl (.refl _) (Nat.le_refl _) rfl rfl rfl (fun _ ha => ha) (fun _ ha => .inl ha)
    h.carried h.unseen fun _ => hplace

theorem Sound.accept (h : Sound s) (event : Option Event) : Sound { s with
    watch := s.watch.count
    callbacks := s.callbacks ++ [.counted (s.next event)]
    accepted := s.next event :: s.accepted } where
  behind := Nat.le_succ_of_le h.behind
  counted := fun a ha => by
    rcases List.mem_cons.mp ha with rfl | ha
    · exact Nat.le_refl _
    · exact Nat.le_succ_of_le (h.counted a ha)
  known := fun a ha => by
    by_cases hnew : a = s.next event
    · exact List.mem_cons.mpr (.inl hnew)
    · refine List.mem_cons_of_mem _ (h.known a ?_)
      simp only [Stream.outstanding, List.map_append, List.mem_append, List.map_cons,
        List.map_nil, List.mem_singleton] at ha ⊢
      rcases ha with ((ha | ha) | ha) | ha
      · exact .inl (.inl ha)
      · exact absurd ha hnew
      · exact .inl (.inr ha)
      · exact .inr ha
  carried := h.carried
  unseen := h.unseen
  held := fun hplace a ha hlt => by
    rcases List.mem_cons.mp ha with rfl | ha
    · left
      simp [Stream.outstanding, Callback.accepted]
    · rcases h.held hplace a ha hlt with hout | hcovers
      · left
        simp only [Stream.outstanding, List.map_append, List.mem_append] at hout ⊢
        rcases hout with (hout | hout) | hout
        · exact .inl (.inl (.inl hout))
        · exact .inl (.inr hout)
        · exact .inr hout
      · exact .inr hcovers
  batches := fun d hd => (h.batches d hd).accept event

theorem Sound.observe (h : Sound s) (files : Files) (event : Event) (now : Nat)
    (hidle : s.place = .idle) : Sound { s with
      watch := s.watch.observeEvent files event now
      accepted := s.next (some event) :: s.accepted } := by
  have hext : Extends s.watch.count (s.watch.observeEvent files event now) :=
    extends_record s.watch.count event now
  have hsame := s.watch.count.record_same files event now
  have hgen : (s.watch.observeEvent files event now).generation = s.watch.generation + 1 :=
    hsame.generation
  have hack : (s.watch.observeEvent files event now).acknowledgedGeneration =
      s.watch.acknowledgedGeneration := hsame.acknowledged
  refine ⟨?_, ?_, ?_, ?_, ?_, ?_, ?_⟩
  · show (s.watch.observeEvent files event now).acknowledgedGeneration ≤
      (s.watch.observeEvent files event now).generation
    rw [hack, hgen]
    exact Nat.le_succ_of_le h.behind
  · intro a ha
    show a.count ≤ (s.watch.observeEvent files event now).generation
    rw [hgen]
    rcases List.mem_cons.mp ha with rfl | ha
    · exact Nat.le_refl _
    · exact Nat.le_succ_of_le (h.counted a ha)
  · exact fun a ha => List.mem_cons_of_mem _ (h.known a ha)
  · exact h.carried.trans (congrArg (List.map Signal.event) hext.channel.symm)
  · exact fun hne => hext.overflow.trans (h.unseen hne)
  · intro _ a ha hlt
    have hlt' : s.watch.acknowledgedGeneration < a.count := by
      rw [← hack]
      exact hlt
    show a ∈ s.outstanding ∨ Covers (s.watch.observeEvent files event now).root
      (s.watch.observeEvent files event now).pending a
    rw [hext.root]
    rcases List.mem_cons.mp ha with rfl | ha
    · exact .inr (record_covers s.watch.count event now rfl)
    · rcases h.held (fun batch hne => by rw [hidle] at hne; cases hne) a ha hlt' with hout | hcovers
      · exact .inl hout
      · exact .inr (hcovers.grows hext.grows)
  · intro d hd
    show Kept (s.watch.observeEvent files event now).root
      (s.watch.observeEvent files event now).acknowledgedGeneration
      (s.watch.observeEvent files event now).generation _ d
    rw [hext.root, hack, hgen]
    exact (h.batches d hd).accept (some event)

theorem outstanding_send (hflight : s.callbacks = before ++ .counted a :: after) (b : Accepted) :
    b ∈ (before ++ after).map Callback.accepted ++ (s.queued ++ [a]) ++ s.unseen ↔
      b ∈ s.outstanding := by
  unfold Stream.outstanding
  rw [hflight]
  simp only [List.map_append, List.map_cons, List.mem_append, List.mem_cons, List.not_mem_nil,
    or_false, Callback.accepted]
  tauto

theorem outstanding_raise (hflight : s.callbacks = before ++ .dropped a :: after) (b : Accepted) :
    b ∈ (before ++ after).map Callback.accepted ++ s.queued ++ (a :: s.unseen) ↔
      b ∈ s.outstanding := by
  unfold Stream.outstanding
  rw [hflight]
  simp only [List.map_append, List.map_cons, List.mem_append, List.mem_cons, Callback.accepted]
  tauto

theorem outstanding_drop (hflight : s.callbacks = before ++ .counted a :: after) (b : Accepted) :
    b ∈ (before ++ .dropped a :: after).map Callback.accepted ++ s.queued ++ s.unseen ↔
      b ∈ s.outstanding := by
  unfold Stream.outstanding
  rw [hflight]
  simp only [List.map_append, List.map_cons, Callback.accepted]

theorem Sound.receive (h : Sound s) (files : Files) {signal : Signal} {rest : List Signal}
    (hchannel : s.watch.channel = signal :: rest) (hplace : ∀ batch, s.place ≠ .cleared batch) :
    Sound { s with
      watch := s.watch.receive files signal rest
      queued := s.queued.tail
      place := place } := by
  have hext : Extends { s.watch with channel := rest } (s.watch.receive files signal rest) :=
    extends_receive s.watch signal rest
  have hsame := s.watch.receive_same files signal rest
  have hcarried := h.carried
  rw [hchannel] at hcarried
  cases hqueued : s.queued with
  | nil => rw [hqueued] at hcarried; cases hcarried
  | cons a queue =>
      rw [hqueued, List.map_cons, List.map_cons] at hcarried
      obtain ⟨hevent, hrest⟩ := List.cons.inj hcarried
      refine h.extend hext.root hext.grows (Nat.le_of_eq hsame.generation.symm) hsame.acknowledged
        rfl rfl (fun b hb => ?_) (fun b hb => ?_) ?_ (fun hne => ?_) (fun _ => hplace)
      · simp only [Stream.outstanding, hqueued, List.mem_append, List.tail_cons,
          List.mem_cons] at hb ⊢
        tauto
      · by_cases hba : b = a
        · right
          rw [hba, hext.root]
          exact receive_covers s.watch signal rest hevent
        · left
          simp only [Stream.outstanding, hqueued, List.mem_append, List.tail_cons,
            List.mem_cons] at hb ⊢
          tauto
      · show (a :: queue).tail.map Accepted.event = (s.watch.receive files signal rest).channel.map _
        rw [hext.channel]
        exact hrest
      · exact hext.overflow.trans (h.unseen hne)

theorem Sound.swap (h : Sound s) (hplace : ∀ batch, s.place ≠ .cleared batch) :
    Sound { s with watch := s.watch.takeOverflow, unseen := [], place := place } := by
  have hext := extends_takeOverflow s.watch
  have hsame := s.watch.takeOverflow_same
  refine h.extend hext.root hext.grows (Nat.le_of_eq hsame.generation.symm) hsame.acknowledged
    rfl rfl (fun b hb => ?_) (fun b hb => ?_) ?_ (fun hne => absurd rfl hne) (fun _ => hplace)
  · simp only [Stream.outstanding, List.append_nil, List.mem_append] at hb ⊢
    exact .inl hb
  · by_cases hunseen : s.unseen = []
    · left
      simp only [Stream.outstanding, hunseen, List.append_nil] at hb ⊢
      exact hb
    · exact .inr (.inl (takeOverflow_full (h.unseen hunseen)))
  · show s.queued.map Accepted.event = s.watch.takeOverflow.channel.map _
    rw [hext.channel]
    exact h.carried

theorem Sound.load (h : Sound s) (hplace : ∀ batch, s.place ≠ .cleared batch) :
    Sound { s with watch := s.watch.loadGeneration, place := place } := by
  have hext := extends_loadGeneration s.watch
  have hsame := s.watch.loadGeneration_same
  refine h.extend hext.root hext.grows (Nat.le_of_eq hsame.generation.symm) hsame.acknowledged
    rfl rfl (fun _ hb => hb) (fun _ hb => .inl hb) ?_ (fun hne => ?_) (fun _ => hplace)
  · show s.queued.map Accepted.event = s.watch.loadGeneration.channel.map _
    rw [hext.channel]
    exact h.carried
  · exact hext.overflow.trans (h.unseen hne)

/-- **What a drain returns covers all that is accepted and not outstanding.** -/
theorem Sound.drained (h : Sound s) (hplace : ∀ batch, s.place ≠ .cleared batch) :
    Kept s.watch.root s.watch.acknowledgedGeneration s.watch.generation s.accepted
      ⟨s.watch.loadGeneration.pending, s.outstanding⟩ where
  le := Nat.le_of_eq s.watch.loadGeneration_pending
  counted := fun a ha => by
    refine ⟨h.known a ha, ?_⟩
    show a.count ≤ s.watch.loadGeneration.pending.generation
    rw [s.watch.loadGeneration_pending]
    exact h.counted a (h.known a ha)
  held := fun a ha _ hlt => by
    rcases h.held hplace a ha hlt with hout | hcovers
    · exact .inl hout
    · exact .inr (hcovers.grows (extends_loadGeneration s.watch).grows)

theorem Sound.clear (h : Sound s) (batch : DirtyBatch) :
    Sound { s with watch := s.watch.clear, place := .cleared batch } where
  behind := h.behind
  counted := h.counted
  known := h.known
  carried := h.carried
  unseen := h.unseen
  held := fun hplace => absurd rfl (hplace batch)
  batches := h.batches

theorem Sound.race (h : Sound s) :
    Sound { s with watch := s.watch.markUrgent, place := .idle } where
  behind := h.behind
  counted := h.counted
  known := h.known
  carried := h.carried
  unseen := h.unseen
  held := fun _ _ _ _ => .inr (.inl rfl)
  batches := h.batches

theorem Sound.settle (h : Sound s) {batch : DirtyBatch}
    (hstands : s.watch.generation = batch.generation) :
    Sound { s with watch := s.watch.settle batch, place := .idle } where
  behind := Nat.le_of_eq hstands.symm
  counted := h.counted
  known := h.known
  carried := h.carried
  unseen := h.unseen
  held := fun _ a ha hlt => by
    have hcount := h.counted a ha
    have hlt' : batch.generation < a.count := hlt
    omega
  batches := fun d hd => by
    refine (h.batches d hd).later (Nat.le_refl _) ?_
    show s.watch.acknowledgedGeneration ≤ batch.generation
    rw [← hstands]
    exact h.behind

/-- **Every access keeps the invariant.** -/
theorem Sound.step (h : Sound s) (hstep : s.Step s') : Sound s' := by
  have hnot : ∀ {place : Place}, s.place = place → (∀ batch, place ≠ .cleared batch) →
      ∀ batch, s.place ≠ .cleared batch := fun hp hne batch => by
    rw [hp]
    exact hne batch
  cases hstep with
  | accept files haccepts => exact h.accept _
  | @send a before after now hflight hroom =>
      refine h.extend rfl (.refl _) (Nat.le_refl _) rfl rfl rfl
        (fun b hb => (outstanding_send hflight b).mp hb)
        (fun b hb => .inl ((outstanding_send hflight b).mpr hb)) ?_ h.unseen fun hplace => hplace
      show (s.queued ++ [a]).map Accepted.event = (s.watch.channel ++ [_]).map Signal.event
      rw [List.map_append, List.map_append, h.carried]
      rfl
  | drop before after hflight hfull =>
      exact h.extend rfl (.refl _) (Nat.le_refl _) rfl rfl rfl
        (fun b hb => (outstanding_drop hflight b).mp hb)
        (fun b hb => .inl ((outstanding_drop hflight b).mpr hb)) h.carried h.unseen
        fun hplace => hplace
  | raise before after hflight =>
      exact h.extend rfl (.refl _) (Nat.le_refl _) rfl rfl rfl
        (fun b hb => (outstanding_raise hflight b).mp hb)
        (fun b hb => .inl ((outstanding_raise hflight b).mpr hb)) h.carried (fun _ => rfl)
        fun hplace => hplace
  | observe files now hidle haccepts => exact h.observe files _ now hidle
  | require hidle =>
      exact h.extend rfl (.inl rfl) (Nat.le_succ _) rfl rfl rfl (fun _ hb => hb)
        (fun _ hb => .inl hb) h.carried h.unseen fun hplace => hplace
  | drain hidle | acknowledge hidle hd => exact h.goTo (hnot hidle fun batch hne => by cases hne)
  | receive files hplace hchannel =>
      exact h.receive files hchannel (hnot hplace fun batch hne => by cases hne)
  | drained hplace hend | refuse hplace haccounts =>
      exact h.goTo (hnot hplace fun batch hne => by cases hne)
  | swap hplace => exact h.swap (hnot hplace fun batch hne => by cases hne)
  | load hplace =>
      have hloading : ∀ batch, s.place ≠ .cleared batch :=
        hnot hplace fun batch hne => by cases hne
      have hsame := s.watch.loadGeneration_same
      have hloaded : Sound { s with watch := s.watch.loadGeneration, place := .idle } :=
        h.load hloading
      refine ⟨hloaded.behind, hloaded.counted, hloaded.known, hloaded.carried, hloaded.unseen,
        hloaded.held, fun d hd => ?_⟩
      rcases List.mem_cons.mp hd with rfl | hd
      · show Kept s.watch.loadGeneration.root s.watch.loadGeneration.acknowledgedGeneration
          s.watch.loadGeneration.generation s.accepted _
        rw [(extends_loadGeneration s.watch).root, hsame.acknowledged, hsame.generation]
        exact h.drained hloading
      · exact hloaded.batches d hd
  | loadFor hplace => exact h.load (hnot hplace fun batch hne => by cases hne)
  | clear hplace haccounts => exact h.clear _
  | race hplace hmoved => exact h.race
  | settle hplace hstands => exact h.settle hstands

end Stepping

theorem sound_of_reachable {s : Stream} (h : Runs.Reachable Stream.Starts Stream.Step s) :
    Sound s := h.keeps (fun _ h => h.sound) fun _ _ hstep hs => hs.step hstep

/-- **A batch covers what its acknowledgement clears exactly when it is full or names every path
of the signals that were outstanding when its drain read the counter**, but for those that an
earlier acknowledgement had cleared; and it clears whatever was accepted. -/
theorem acknowledgement_covers (s : Stream) (h : Runs.Reachable Stream.Starts Stream.Step s)
    (d : Drained) (hd : d ∈ s.batches) (hsettles : s.Settles d.batch) :
    (∀ a ∈ s.accepted, a.count ≤ d.batch.generation) ∧
    ((∀ a ∈ s.accepted, s.Clears d.batch a → Covers s.watch.root d.batch a) ↔
      d.batch.full = true ∨ ∀ a ∈ d.outstanding,
        s.watch.acknowledgedGeneration < a.count → Covers s.watch.root d.batch a) := by
  have hsound := sound_of_reachable h
  have hkept := hsound.batches d hd
  refine ⟨fun a ha => ?_, fun hall => .inr fun a ha hlt => ?_, fun hcond a ha hclears => ?_⟩
  · rw [← hsettles.2]; exact hsound.counted a ha
  · obtain ⟨haccepted, hle⟩ := hkept.counted a ha
    exact hall a haccepted ⟨hlt, hle⟩
  · rcases hcond with hfull | hout
    · exact .inl hfull
    · rcases hkept.held a ha hclears.2 hclears.1 with houtstanding | hcovers
      · exact hout a houtstanding hclears.1
      · exact hcovers

/-! ### Sample runs -/

namespace Sample

def files : Files := ⟨some, fun _ => some .file⟩

def turn (s : Stream) : Stream :=
  match s.place with
  | .idle => s
  | .draining 0 purpose => { s with place := .swapping purpose }
  | .draining (left + 1) purpose =>
      match s.watch.channel with
      | [] => { s with place := .swapping purpose }
      | signal :: rest => { s with
          watch := s.watch.receive files signal rest
          queued := s.queued.tail
          place := .draining left purpose }
  | .swapping purpose =>
      { s with watch := s.watch.takeOverflow, unseen := [], place := .loading purpose }
  | .loading none => { s with
      watch := s.watch.loadGeneration
      batches := ⟨s.watch.loadGeneration.pending, s.outstanding⟩ :: s.batches
      place := .idle }
  | .loading (some batch) => { s with watch := s.watch.loadGeneration, place := .comparing batch }
  | .comparing batch =>
      if s.watch.accounts batch then { s with watch := s.watch.clear, place := .cleared batch }
      else { s with place := .idle }
  | .cleared batch =>
      if s.watch.generation = batch.generation then
        { s with watch := s.watch.settle batch, place := .idle }
      else { s with watch := s.watch.markUrgent, place := .idle }

open Relation (ReflTransGen)

theorem turn_run (s : Stream) : ReflTransGen Stream.Step s (turn s) := by
  unfold turn
  split
  · exact .refl
  · rename_i purpose hplace
    exact .single (.drained hplace (.inl rfl))
  · rename_i left purpose hplace
    split
    · rename_i hchannel
      exact .single (.drained hplace (.inr hchannel))
    · rename_i signal rest hchannel
      exact .single (.receive files hplace hchannel)
  · rename_i purpose hplace
    exact .single (.swap hplace)
  · rename_i hplace
    exact .single (.load hplace)
  · rename_i batch hplace
    exact .single (.loadFor hplace)
  · rename_i batch hplace
    split
    · rename_i haccounts
      exact .single (.clear hplace haccounts)
    · rename_i haccounts
      exact .single (.refuse hplace haccounts)
  · rename_i batch hplace
    split
    · rename_i hstands
      exact .single (.settle hplace hstands)
    · rename_i hmoved
      exact .single (.race hplace hmoved)

def turns : Nat → Stream → Stream
  | 0, s => s
  | n + 1, s => turns n (turn s)

theorem turns_run (n : Nat) (s : Stream) : ReflTransGen Stream.Step s (turns n s) := by
  induction n generalizing s with
  | zero => exact .refl
  | succ n ih => exact (turn_run s).trans (ih (turn s))

def fresh : Stream :=
  ⟨.construct [.root] none none none true true, [], [], [], [], [], .idle⟩

theorem fresh_starts : fresh.Starts :=
  ⟨⟨[.root], none, none, none, true, true, rfl⟩, rfl, rfl, rfl, rfl, rfl, rfl⟩

def drained (s : Stream) : Stream := turns 4 { s with place := .draining maxDirtyPaths none }

theorem drained_run {s : Stream} (hidle : s.place = .idle) :
    ReflTransGen Stream.Step s (drained s) :=
  (ReflTransGen.single (.drain hidle)).trans (turns_run 4 _)

def first : DirtyBatch := ⟨1, true, ∅⟩

def acknowledged : Stream :=
  turns 5 { drained fresh with place := .draining maxDirtyPaths (some first) }

/-- A source file changes, and the callback has counted the signal. -/
def signal : Event := ⟨.modify .data, [[.root, .normal "a.rs"]]⟩

def counted : Stream := { acknowledged with
  watch := acknowledged.watch.count
  callbacks := [.counted ⟨2, some signal⟩]
  accepted := [⟨2, some signal⟩] }

/-- A drain finds nothing, and the callback sends the signal. -/
def sent : Stream := { drained counted with
  watch := (drained counted).watch.send ⟨some signal, 5⟩
  callbacks := []
  queued := [⟨2, some signal⟩] }

def second : DirtyBatch := ⟨2, false, ∅⟩

theorem splitOn_signal : "a.rs".splitOn "." = ["a", "rs"] := by
  simp +decide [String.splitOn, String.splitOnAux]

theorem source_signal : source [.normal "a.rs"] = true := by
  have hname : Path.fileName [.normal "a.rs"] = some "a.rs" := rfl
  unfold source Path.extension
  rw [hname, Option.bind_some, splitOn_signal]
  decide

/-- The signals once the drain of the acknowledgement has taken the signal. -/
def received : WatchSignals := { sent.watch with
  channel := [], firstSignal := some 5, lastSignal := some 5,
  pending := ⟨2, false, {[.normal "a.rs"]}⟩ }

theorem recordPath_signal (w : WatchSignals) (hroot : w.root = [.root])
    (hinputs : w.capturedInputs = []) : WatchSignals.recordPath files w [.root, .normal "a.rs"]
      = w.addPath [.normal "a.rs"] := by
  have hbelow : Path.below [.root] (Path.join [.root] [.root, .normal "a.rs"]) =
      some [.normal "a.rs"] := by decide
  have hplain : (relevantInput [.normal "a.rs"] || !source [.normal "a.rs"] ||
      !safeRegular files [.root] [.normal "a.rs"]) = false := by
    rw [source_signal]
    decide
  unfold WatchSignals.recordPath
  rw [hinputs, hroot, hbelow]
  unfold WatchSignals.recordRelative
  rw [if_neg (by decide)]
  simp only
  rw [if_neg (by decide), hroot, hplain, if_neg (by decide)]

theorem receive_signal : sent.watch.receive files ⟨some signal, 5⟩ [] = received := by
  show List.foldl _ _ _ = _
  rw [show signal.paths = [[.root, .normal "a.rs"]] from rfl, List.foldl_cons, List.foldl_nil,
    recordPath_signal _ (by decide) (by decide)]
  decide

def cleared : Stream := turns 4 { sent with
  watch := received, queued := [], place := .draining 255 (some second) }

theorem cleared_reachable : Runs.Reachable Stream.Starts Stream.Step cleared := by
  have hstart : Runs.Reachable Stream.Starts Stream.Step fresh := .start fresh_starts
  have hfirst := hstart.then (drained_run rfl)
  have hacknowledge := hfirst.then (.single (Stream.Step.acknowledge
    (d := ⟨first, []⟩) (by decide) (by decide)))
  have hacknowledged : Runs.Reachable Stream.Starts Stream.Step acknowledged :=
    hacknowledge.then (turns_run 5 _)
  have hcounted : Runs.Reachable Stream.Starts Stream.Step counted :=
    hacknowledged.then (.single (@Stream.Step.accept _ (some signal) files (by decide)))
  have hsecond := hcounted.then (drained_run (by decide))
  have hsent : Runs.Reachable Stream.Starts Stream.Step sent :=
    hsecond.then (.single (@Stream.Step.send _ ⟨2, some signal⟩ [] [] 5 (by decide) (by decide)))
  have hdraining := hsent.then (.single (Stream.Step.acknowledge
    (d := ⟨second, [⟨2, some signal⟩]⟩) (by decide) (by decide)))
  have hreceive := hdraining.then (.single (@Stream.Step.receive
    { sent with place := .draining 256 (some second) } 255 (some second) ⟨some signal, 5⟩ []
    files rfl (by decide)))
  have hreceived := hreceive
  simp only [receive_signal] at hreceived
  exact hreceived.then (turns_run 4 _)

end Sample

/-- The acknowledgement clears the signal, whose path is not one of the batch's. -/
theorem acknowledgement_covers_sample :
    (∀ a ∈ Sample.cleared.accepted, a.count ≤ 2) ∧
    ((∀ a ∈ Sample.cleared.accepted, Sample.cleared.Clears Sample.second a →
        Covers Sample.cleared.watch.root Sample.second a) ↔
      Sample.second.full = true ∨ ∀ a ∈ [(⟨2, some Sample.signal⟩ : Accepted)],
        Sample.cleared.watch.acknowledgedGeneration < a.count →
          Covers Sample.cleared.watch.root Sample.second a) :=
  acknowledgement_covers Sample.cleared Sample.cleared_reachable
    ⟨Sample.second, [⟨2, some Sample.signal⟩]⟩ (by decide) ⟨by decide, by decide⟩

/-- **An acknowledgement clears a signal that its own drain found**, and the batch names none of
its paths. -/
theorem acknowledgement_uncovered :
    ¬ ∀ s, Runs.Reachable Stream.Starts Stream.Step s → ∀ d ∈ s.batches, s.Settles d.batch →
      ∀ a ∈ s.accepted, s.Clears d.batch a → Covers s.watch.root d.batch a := by
  intro hall
  have hcovers := hall Sample.cleared Sample.cleared_reachable
    ⟨Sample.second, [⟨2, some Sample.signal⟩]⟩ (by decide) ⟨by decide, by decide⟩
    ⟨2, some Sample.signal⟩ (by decide) ⟨by decide, by decide⟩
  rcases hcovers with hfull | ⟨event, hevent, hpaths⟩
  · cases hfull
  · cases hevent
    obtain ⟨relative, -, hmem⟩ := hpaths [.root, .normal "a.rs"] (by decide)
    exact absurd hmem (Finset.notMem_empty relative)

end Baleyg.Watch.Acknowledge
