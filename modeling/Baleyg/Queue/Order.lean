/-
Results come in the order the requests were accepted.

A done row carries the pin that was the head when it was finished, and the head only
moves up within a generation.  So rows finished in sequence order have their pins in
sequence order too, and it is left to see that they are: a done row has no unfinished
row before it.  That is stronger than saying that the head of the queue runs alone.  A
requeue returns the head to the queue and a claim takes it again, a root change fails
rows anywhere in the queue, and neither makes a row before a done one unfinished.

A step here is one transaction, by whichever leader, so an operation that stops
half-way is one that took fewer steps.  The head moves as the store lets it: to the
next revision, or to a generation no row has a result of.
-/
import Baleyg.Queue.Safety

namespace Baleyg

open Fallible Relation

/-! ### One transaction -/

namespace World

/-- The store's head counter: it stays, moves to the next revision, or begins a
generation that is new to every row. -/
def HeadMoves (w w' : World) : Prop :=
  w'.head = w.head ∨ w'.head = some (w.nextPin none)
    ∨ ∃ generation, w'.head = some (w.nextPin (some generation))
      ∧ ∀ r ∈ w.requests.rows, ∀ pin ∈ r.state.revision, pin.indexGeneration ≠ generation

/-- Leadership changes hands, and the completion slot goes with the process. -/
def led (w : World) (leader : Option Incarnation) (newest : Incarnation)
    (reconciled : Option Incarnation) (serving : Option LeaderSession)
    (slot : Option PendingCompletion) : World :=
  { w with
    leader := leader
    newest := newest
    reconciled := reconciled
    serving := serving
    slot := slot }

end World

/-- **One transaction on the queue or the store**, or something beside them. -/
inductive Transaction : World → World → Prop where
  | queue {w w' : World} (identity : RootId) (session : LeaderSession)
      (h : Change identity session w w') (hhead : w.HeadMoves w') : Transaction w w'
  | led (w : World) (leader : Option Incarnation) (newest : Incarnation)
      (reconciled : Option Incarnation) (serving : Option LeaderSession)
      (slot : Option PendingCompletion) :
      Transaction w (w.led leader newest reconciled serving slot)

/-! ### What a transaction writes on a row -/

namespace Requests

/-- The results of `db'` are those of `db`, but for rows that ran and now have `head`. -/
def Results (head : Option IndexPin) (db db' : Requests) : Prop :=
  ∀ r' ∈ db'.rows, ∀ pin ∈ r'.state.revision,
    (∃ r ∈ db.rows, r.seq = r'.seq ∧ r.state.revision = some pin)
      ∨ (head = some pin ∧ ∃ r ∈ db.rows, r.seq = r'.seq ∧ r.state.isRunning)

/-- What is unfinished was unfinished, or was accepted after all the rows there were. -/
def Remains (db db' : Requests) : Prop :=
  ∀ r' ∈ db'.rows, r'.state.unfinished →
    (∃ r ∈ db.rows, r.seq = r'.seq ∧ r.state.unfinished) ∨ ∀ r ∈ db.rows, r.seq < r'.seq

theorem Arrived.results {db db' : Requests} (h : db.Arrived db') (head : Option IndexPin) :
    db.Results head db' := by
  obtain ⟨new, hrows, hnew⟩ := h
  intro r' hr' pin hpin
  rw [hrows] at hr'
  rcases List.mem_append.mp hr' with hold | hadded
  · exact Or.inl ⟨r', hold, rfl, hpin⟩
  · rw [hnew r' hadded] at hpin; cases hpin

theorem Arrived.remains {db db' : Requests} (h : db.Arrived db') : db.Remains db' := by
  obtain ⟨new, hrows, -⟩ := h
  have hord := db'.ordered
  rw [hrows] at hord
  intro r' hr' hun
  rw [hrows] at hr'
  rcases List.mem_append.mp hr' with hold | hadded
  · exact Or.inl ⟨r', hold, rfl, hun⟩
  · exact Or.inr fun r hr => (List.pairwise_append.mp hord).2.2 r hr r' hadded

theorem results_update {db : Requests} {p : Request → Bool} {f : RowState → RowState}
    {head : Option IndexPin}
    (h : ∀ r ∈ db.rows, p r → ∀ pin ∈ (f r.state).revision, head = some pin ∧ r.state.isRunning) :
    db.Results head (db.update p f) := by
  intro r' hr' pin hpin
  obtain ⟨r, hr, rfl⟩ := mem_update.mp hr'
  by_cases hsel : p r
  · rw [if_pos hsel] at hpin ⊢
    obtain ⟨hhead, hrun⟩ := h r hr hsel pin hpin
    exact Or.inr ⟨hhead, r, hr, rfl, hrun⟩
  · rw [if_neg hsel] at hpin ⊢
    exact Or.inl ⟨r, hr, rfl, hpin⟩

theorem remains_update {db : Requests} {p : Request → Bool} {f : RowState → RowState}
    (h : ∀ r ∈ db.rows, p r → r.state.unfinished) : db.Remains (db.update p f) := by
  intro r' hr' hun
  obtain ⟨r, hr, rfl⟩ := mem_update.mp hr'
  refine Or.inl ⟨r, hr, ?_⟩
  by_cases hsel : p r
  · rw [if_pos hsel]; exact ⟨rfl, h r hr hsel⟩
  · rw [if_neg hsel] at hun ⊢
    exact ⟨rfl, hun⟩

end Requests

variable {identity : RootId} {w w' : World}

theorem change_remains {session : LeaderSession} (h : Change identity session w w') :
    w.requests.Remains w'.requests := by
  cases h with
  | outside h => exact h.requests.remains
  | enqueued h =>
      obtain ⟨hid, hrequests⟩ := enqueue_ok h
      rw [World.commit, hrequests]
      exact (w.requests.arrived_insert _ _ _ _ _ hid).remains
  | rootFailed h =>
      obtain rfl := failChangedRoot_ok h
      refine Requests.remains_update fun r _ hr => ?_
      simp only [changedRoot, Bool.and_eq_true] at hr
      exact hr.1
  | claimed h =>
      rcases claim_ok h with rfl | ⟨row, -, -, hrequests, -⟩
      · exact (Requests.Arrived.refl _).remains
      · rw [World.commit, hrequests]
        refine Requests.remains_update fun r _ hr => ?_
        simp only [Bool.and_eq_true] at hr
        exact hr.2
  | finished h =>
      obtain ⟨rfl, -, -⟩ := finish_ok h
      exact Requests.remains_update fun r _ hr =>
        RowState.unfinished_of_isRunning (finishes_running hr)
  | requeued h =>
      obtain ⟨rfl, -⟩ := requeue_ok h
      exact Requests.remains_update fun r _ hr =>
        RowState.unfinished_of_isRunning (requeues_running hr)
  | noted => exact (Requests.Arrived.refl _).remains

theorem not_unfinished_of_revision {state : RowState} {pin : IndexPin}
    (h : pin ∈ state.revision) : state.unfinished = false := by
  cases state with
  | done claim startedAt finishedAt pin' => rfl
  | queued | running | failed => cases h

theorem revision_terminal {outcome : CompletionOutcome} {now : Nat} {state : RowState}
    (h : state.isRunning) {pin : IndexPin} (hpin : pin ∈ (outcome.terminal now state).revision) :
    outcome = .done pin := by
  cases state with
  | running claim startedAt =>
      cases outcome with
      | done pin' =>
          obtain rfl := Option.some.inj hpin
          rfl
      | failed code => cases hpin
  | queued | done | failed => cases h

/-- **A result is only ever written by a terminal write**, on a row that ran, and it is
the head that transaction found. -/
theorem change_results {session : LeaderSession} (h : Change identity session w w') :
    w.requests.Results w.head w'.requests := by
  cases h with
  | outside h => exact h.requests.results _
  | enqueued h =>
      obtain ⟨hid, hrequests⟩ := enqueue_ok h
      rw [World.commit, hrequests]
      exact (w.requests.arrived_insert _ _ _ _ _ hid).results _
  | rootFailed h =>
      obtain rfl := failChangedRoot_ok h
      refine Requests.results_update fun r _ _ pin hpin => ?_
      cases hpin
  | claimed h =>
      rcases claim_ok h with rfl | ⟨row, -, -, hrequests, -⟩
      · exact (Requests.Arrived.refl _).results _
      · rw [World.commit, hrequests]
        refine Requests.results_update fun r _ _ pin hpin => ?_
        cases hpin
  | finished h =>
      obtain ⟨rfl, -, hhead⟩ := finish_ok h
      refine Requests.results_update fun r _ hr pin hpin => ?_
      have hrun := finishes_running hr
      exact ⟨hhead pin (revision_terminal hrun hpin), hrun⟩
  | requeued h =>
      obtain ⟨rfl, -⟩ := requeue_ok h
      refine Requests.results_update fun r _ _ pin hpin => ?_
      cases hpin
  | noted => exact (Requests.Arrived.refl _).results _

theorem change_results_head {session : LeaderSession} (h : Change identity session w w') :
    w.requests.Results none w'.requests ∨ w'.head = w.head := by
  cases h with
  | outside h => exact Or.inr h.head
  | noted => exact Or.inl ((Requests.Arrived.refl _).results _)
  | _ => exact Or.inr rfl

/-! ### The order of results -/

/-- **Nothing unfinished is before a done row**, no result is past the head of its
generation, and results are in sequence order. -/
structure InOrder (w : World) : Prop where
  fifo : w.requests.Fifo
  settled : ∀ b ∈ w.requests.rows, b.state.revision.isSome →
    ∀ r ∈ w.requests.rows, r.state.unfinished → b.seq < r.seq
  behind : ∀ b ∈ w.requests.rows, ∀ pin ∈ b.state.revision, ∃ head ∈ w.head,
    pin.indexGeneration = head.indexGeneration → pin.indexRevision ≤ head.indexRevision
  ordered : ∀ a ∈ w.requests.rows, ∀ b ∈ w.requests.rows, a.seq < b.seq →
    ∀ pinA ∈ a.state.revision, ∀ pinB ∈ b.state.revision,
      pinA.indexGeneration = pinB.indexGeneration → pinA.indexRevision ≤ pinB.indexRevision

namespace InOrder

theorem of_fresh {w : World} (h : w.Fresh) : InOrder w := by
  obtain ⟨hrows, -, -⟩ := h
  refine ⟨?_, ?_, ?_, ?_⟩
  · intro r hr
    rw [hrows] at hr
    cases hr
  · intro b hb
    rw [hrows] at hb
    cases hb
  · intro b hb
    rw [hrows] at hb
    cases hb
  · intro a ha
    rw [hrows] at ha
    cases ha

theorem behind_moves {w w' : World} (h : InOrder w) (hhead : w.HeadMoves w') {b : Request}
    (hb : b ∈ w.requests.rows) {pin : IndexPin} (hpin : pin ∈ b.state.revision) : ∃ head ∈ w'.head,
      pin.indexGeneration = head.indexGeneration → pin.indexRevision ≤ head.indexRevision := by
  obtain ⟨head, hold, hle⟩ := h.behind b hb pin hpin
  rcases hhead with hsame | hnext | ⟨generation, hnext, hfresh⟩
  · exact ⟨head, hsame ▸ hold, hle⟩
  · have hpinNext : w.nextPin none = ⟨head.indexGeneration, head.indexRevision + 1⟩ := by
      unfold World.nextPin
      rw [Option.mem_def.mp hold]
    refine ⟨_, Option.mem_def.mpr hnext, fun hgen => ?_⟩
    rw [hpinNext] at hgen ⊢
    exact Nat.le_succ_of_le (hle hgen)
  · refine ⟨_, Option.mem_def.mpr hnext, fun hgen => ?_⟩
    exact absurd hgen (hfresh b hb pin hpin)

/-- **One transaction keeps the results in order.** -/
theorem change {w w' : World} {identity : RootId} {session : LeaderSession} (h : InOrder w)
    (hchange : Change identity session w w') (hhead : w.HeadMoves w') : InOrder w' := by
  have hresults := change_results hchange
  have hremains := change_remains hchange
  -- a row that has a result now had it before, or ran and has the head's
  have hcases : ∀ b ∈ w'.requests.rows, ∀ pin ∈ b.state.revision,
      (∃ r ∈ w.requests.rows, r.seq = b.seq ∧ r.state.revision = some pin)
        ∨ (w'.head = w.head ∧ w.head = some pin
          ∧ ∃ r ∈ w.requests.rows, r.seq = b.seq ∧ r.state.isRunning) := by
    intro b hb pin hpin
    rcases hresults b hb pin hpin with hold | ⟨hnow, hran⟩
    · exact Or.inl hold
    · rcases change_results_head hchange with hnone | hkept
      · rcases hnone b hb pin hpin with hold | ⟨hfalse, -⟩
        · exact Or.inl hold
        · cases hfalse
      · exact Or.inr ⟨hkept, hnow, hran⟩
  refine ⟨change_fifo hchange h.fifo, ?_, ?_, ?_⟩
  · intro b hb hsome r hr hun
    obtain ⟨pin, hpin⟩ := Option.isSome_iff_exists.mp hsome
    have hne : b.seq ≠ r.seq := by
      intro hseq
      have hdone := not_unfinished_of_revision hpin
      rw [Requests.eq_of_seq hb hr hseq, hun] at hdone
      cases hdone
    rcases hcases b hb pin hpin with ⟨b₀, hb₀, hbseq, hbpin⟩ | ⟨-, -, b₀, hb₀, hbseq, hbrun⟩
    · rcases hremains r hr hun with ⟨r₀, hr₀, hrseq, hrun₀⟩ | hnew
      · have hlt := h.settled b₀ hb₀ (by rw [hbpin]; rfl) r₀ hr₀ hrun₀
        rwa [hbseq, hrseq] at hlt
      · exact hbseq ▸ hnew b₀ hb₀
    · rcases hremains r hr hun with ⟨r₀, hr₀, hrseq, hrun₀⟩ | hnew
      · have hle := h.fifo b₀ hb₀ hbrun r₀ hr₀ hrun₀
        rw [hbseq, hrseq] at hle
        exact Nat.lt_of_le_of_ne hle hne
      · exact hbseq ▸ hnew b₀ hb₀
  · intro b hb pin hpin
    rcases hcases b hb pin hpin with ⟨r, hr, -, hrpin⟩ | ⟨hkept, hnow, -⟩
    · exact h.behind_moves hhead hr (Option.mem_def.mpr hrpin)
    · exact ⟨pin, Option.mem_def.mpr (hkept.trans hnow), fun _ => Nat.le_refl _⟩
  · intro a ha b hb hlt pinA hpinA pinB hpinB hgen
    rcases hcases a ha pinA hpinA with ⟨a₀, ha₀, haseq, hapin⟩ | ⟨-, hnowA, a₀, ha₀, haseq, harun⟩
    · rcases hcases b hb pinB hpinB with ⟨b₀, hb₀, hbseq, hbpin⟩ | ⟨-, hnowB, -⟩
      · exact h.ordered a₀ ha₀ b₀ hb₀ (by omega) pinA hapin pinB hbpin hgen
      · obtain ⟨head, hhead', hle⟩ := h.behind a₀ ha₀ pinA hapin
        rw [hnowB] at hhead'
        obtain rfl := Option.some.inj hhead'
        exact hle hgen
    · rcases hcases b hb pinB hpinB with ⟨b₀, hb₀, hbseq, hbpin⟩ | ⟨-, hnowB, -⟩
      · -- a row that still ran is not before a done one
        have hback := h.settled b₀ hb₀ (by rw [hbpin]; rfl) a₀ ha₀
          (RowState.unfinished_of_isRunning harun)
        omega
      · rw [hnowA] at hnowB
        obtain rfl := Option.some.inj hnowB
        exact Nat.le_refl _

theorem transaction {w w' : World} (hstep : Transaction w w') (h : InOrder w) : InOrder w' := by
  cases hstep with
  | queue identity session hchange hhead => exact h.change hchange hhead
  | led leader newest reconciled serving slot => exact ⟨h.fifo, h.settled, h.behind, h.ordered⟩

end InOrder

theorem transaction_results (h : Transaction w w') : w.requests.Results w.head w'.requests := by
  cases h with
  | queue identity session hchange hhead => exact change_results hchange
  | led leader newest reconciled serving slot => exact (Requests.Arrived.refl _).results _

/-- **Results follow the order of acceptance**, in every reachable world: of two done rows
with results in one generation, the row accepted first has the result that is no later.  And
the transaction that makes a row done writes the head it finds. -/
theorem done_pins_fifo {w : World} (h : Runs.Reachable World.Fresh Transaction w) :
    (∀ a ∈ w.requests.rows, ∀ b ∈ w.requests.rows, a.seq < b.seq →
      ∀ pinA ∈ a.state.revision, ∀ pinB ∈ b.state.revision,
        pinA.indexGeneration = pinB.indexGeneration → pinA.indexRevision ≤ pinB.indexRevision)
    ∧ ∀ w', Transaction w w' → ∀ r' ∈ w'.requests.rows, ∀ pin ∈ r'.state.revision,
      (∃ r ∈ w.requests.rows, r.seq = r'.seq ∧ r.state.revision = some pin)
        ∨ (w.head = some pin ∧ ∃ r ∈ w.requests.rows, r.seq = r'.seq ∧ r.state.isRunning) := by
  have hinv : InOrder w :=
    Runs.Reachable.keeps (I := InOrder) (fun _ => InOrder.of_fresh) (fun _ _ => InOrder.transaction) h
  exact ⟨hinv.ordered, fun w' hstep => transaction_results hstep⟩

/-! ### A sample run -/

namespace TwoRequests

def root : RootId := ⟨1, 2⟩

def session : LeaderSession := ⟨1, root⟩

/-- The world after a transaction, whether it committed or not. -/
def after {α : Type} (body : World → Except Failure (Written α)) (w : World) : World :=
  match body w with
  | .ok done => w.commit done
  | .error _ => w

theorem run_after {α : Type} {body : World → Except Failure (Written α)}
    (hbody : ∀ w done, body w = .ok done → Change root session w (w.commit done)) (w : World) :
    ReflTransGen Transaction w (after body w) := by
  unfold after
  cases h : body w with
  | ok done => exact .single (.queue root session (hbody w done h) (Or.inl rfl))
  | error e => exact .refl

def published (w : World) : World := { w with head := some (w.nextPin none) }

theorem run_published (w : World) : ReflTransGen Transaction w (published w) :=
  .single (.queue root session (.noted w w.slot w.log _) (Or.inr (Or.inl rfl)))

def accepted : World :=
  (after (enqueue root 8 ⟨1, 4096, none, none⟩ none)
    (after (enqueue root 7 ⟨1, 4096, none, none⟩ none) (World.start root))).led
      (some 1) 1 (some 1) none none

theorem accepted_reachable : Runs.Reachable World.Fresh Transaction accepted := by
  have hstart : Runs.Reachable World.Fresh Transaction (World.start root) :=
    Runs.Reachable.start ⟨rfl, rfl, rfl⟩
  have henqueue : ∀ id w,
      ReflTransGen Transaction w (after (enqueue root id ⟨1, 4096, none, none⟩ none) w) :=
    fun _ w => run_after (fun _ _ h => .enqueued h) w
  have hfirst := hstart.then (henqueue 7 _)
  have hsecond := hfirst.then (henqueue 8 _)
  exact hsecond.then (.single (.led _ (some 1) 1 (some 1) none none))

/-- The head of the queue is claimed, published for and finished. -/
def served (seq : Nat) (w : World) : World :=
  let publishedAt := published (after (claim root session) w)
  after (finish root session ⟨seq, 0, root, ⟨1, 4096, none, none⟩, none, 0, .queued⟩
    (.done (publishedAt.head.getD ⟨0, 0⟩))) publishedAt

theorem run_served (seq : Nat) (w : World) : ReflTransGen Transaction w (served seq w) :=
  ((run_after (fun _ _ h => .claimed h) w).trans (run_published _)).trans
    (run_after (fun _ _ h => .finished h) _)

def finished : World := served 2 (served 1 accepted)

theorem finished_reachable : Runs.Reachable World.Fresh Transaction finished :=
  accepted_reachable.then ((run_served 1 accepted).trans (run_served 2 _))

end TwoRequests

theorem done_pins_fifo_sample :
    TwoRequests.finished.requests.rows.map (·.state.revision) = [some ⟨0, 1⟩, some ⟨0, 2⟩]
    ∧ ∀ a ∈ TwoRequests.finished.requests.rows, ∀ b ∈ TwoRequests.finished.requests.rows,
      a.seq < b.seq → ∀ pinA ∈ a.state.revision, ∀ pinB ∈ b.state.revision,
        pinA.indexGeneration = pinB.indexGeneration → pinA.indexRevision ≤ pinB.indexRevision :=
  ⟨by decide, (done_pins_fifo TwoRequests.finished_reachable).1⟩

end Baleyg
