/-
A recorded completion is resolved once, and first.

Between the moment a publication's outcome is recorded and the moment the row's
terminal write commits, three places hold a piece of the story: the slot in
memory, the row in the table, and the committed head.  The slot is written first,
the row last, and every failure in between must lead back to the same outcome.

The specification is an automaton over the log, `Ledger.step`: after `recorded`
the only things that may happen are rows failing for a lost root and the terminal
write of that very outcome.  `Books` ties its state to the slot, the row and the
head, and is what every effect of a drain keeps.
-/
import Baleyg.Queue.Safety

namespace Baleyg

open Fallible Relation

/-! ### The ledger -/

namespace Ledger

/-- What is owed: a sequence and the outcome recorded for it. -/
abbrev Owed := Option (Nat × CompletionOutcome)

/-- **What may happen next**; `none` is a breach. -/
def step : Owed → Event → Option Owed
  | none, .recorded seq outcome => some (some (seq, outcome))
  | none, .finished _ _ => none
  | none, _ => some none
  | some (seq, outcome), .finished seq' outcome' =>
      if seq' = seq ∧ outcome' = outcome then some none else none
  | some owed, .rootChanged _ => some (some owed)
  | some _, _ => none

/-- What is owed after a log. -/
def run (log : List Event) : Option Owed :=
  log.foldlM step none

theorem run_append {log : List Event} {owed owed' : Owed} {e : Event} (h : run log = some owed)
    (hstep : step owed e = some owed') : run (log ++ [e]) = some owed' := by
  unfold run at h ⊢
  rw [List.foldlM_append, h]
  simpa using hstep

/-- From an owed completion, only root changes happen up to its terminal write. -/
theorem owed_split {seq : Nat} {outcome : CompletionOutcome} {log : List Event} {owed : Owed}
    (h : log.foldlM step (some (seq, outcome)) = some owed) :
    (owed = some (seq, outcome) ∧ ∀ e ∈ log, ∃ seqs, e = .rootChanged seqs)
      ∨ ∃ before after, log = before ++ .finished seq outcome :: after
        ∧ ∀ e ∈ before, ∃ seqs, e = .rootChanged seqs := by
  induction log with
  | nil =>
      left
      exact ⟨by simpa using h.symm, by simp⟩
  | cons e log ih =>
      rw [List.foldlM_cons] at h
      cases e with
      | rootChanged seqs =>
          have hrest : log.foldlM step (some (seq, outcome)) = some owed := h
          rcases ih hrest with ⟨howed, hall⟩ | ⟨before, after, hlog, hall⟩
          · left
            refine ⟨howed, fun e he => ?_⟩
            rcases List.mem_cons.mp he with rfl | he
            · exact ⟨seqs, rfl⟩
            · exact hall e he
          · right
            refine ⟨.rootChanged seqs :: before, after, by rw [hlog, List.cons_append], ?_⟩
            intro e he
            rcases List.mem_cons.mp he with rfl | he
            · exact ⟨seqs, rfl⟩
            · exact hall e he
      | finished seq' outcome' =>
          by_cases hsame : seq' = seq ∧ outcome' = outcome
          · obtain ⟨rfl, rfl⟩ := hsame
            right
            exact ⟨[], log, rfl, by simp⟩
          · simp [step, hsame] at h
      | claimed | captured | requeued | recorded => simp [step] at h

/-- **What an accepted log says after a `recorded`.** -/
theorem recorded_split {before after : List Event} {seq : Nat} {outcome : CompletionOutcome}
    {owed : Owed} (h : run (before ++ .recorded seq outcome :: after) = some owed) :
    (owed = some (seq, outcome) ∧ ∀ e ∈ after, ∃ seqs, e = .rootChanged seqs)
      ∨ ∃ mid rest, after = mid ++ .finished seq outcome :: rest
        ∧ ∀ e ∈ mid, ∃ seqs, e = .rootChanged seqs := by
  unfold run at h
  rw [List.foldlM_append] at h
  cases hbefore : before.foldlM step none with
  | none => simp [hbefore] at h
  | some owed₀ =>
      rw [hbefore] at h
      have h' : (step owed₀ (.recorded seq outcome)).bind (fun o => after.foldlM step o)
          = some owed := h
      cases owed₀ with
      | none => exact owed_split h'
      | some pending => simp [step] at h'

end Ledger

/-! ### The books -/

/-- The completion this incarnation owes, if the slot holds one of its own. -/
def World.owedBy (w : World) (session : LeaderSession) : Option PendingCompletion :=
  w.slot.filter fun pending => pending.incarnation = session.incarnation

inductive Standing (w : World) (pending : PendingCompletion) (row : Request) :
    Ledger.Owed → Prop
  /-- Still running, and the head is still what the outcome says it is. -/
  | running (hrun : row.state.isRunning)
      (hhead : ∀ pin, pending.outcome = .done pin → w.head = some pin) :
      Standing w pending row (some (pending.request.seq, pending.outcome))
  | rootLost (hcode : row.state.errorCode = some .rootChanged) :
      Standing w pending row (some (pending.request.seq, pending.outcome))
  /-- Written: a COMMIT reported an error, and the slot does not know yet. -/
  | written (hmatch : pending.outcome.matchesTerminal row.state) : Standing w pending row none

/-- What holds while a completion of this incarnation is owed. -/
structure Pending (identity : RootId) (w : World) (pending : PendingCompletion)
    (owed : Ledger.Owed) : Prop where
  outcome : pending.outcome ≠ .failed .rootChanged
  row : ∃ row ∈ w.requests.rows, pending.sameClaim row ∧ row.root = identity
    ∧ Standing w pending row owed
  alone : ∀ r ∈ w.requests.rows, r.state.isRunning → r.seq = pending.request.seq

/-- **The slot, the table, the head and the log agree.** -/
structure Books (identity : RootId) (session : LeaderSession) (w : World) : Prop where
  fifo : w.requests.Fifo
  ledger : ∃ owed, Ledger.run w.log = some owed
    ∧ (w.owedBy session = none → owed = none)
    ∧ ∀ pending, w.owedBy session = some pending → Pending identity w pending owed
  /-- Every terminal write the log records is in the table. -/
  written : ∀ seq outcome, Event.finished seq outcome ∈ w.log →
    ∃ row ∈ w.requests.rows, row.seq = seq ∧ outcome.matchesTerminal row.state

variable {identity : RootId} {session : LeaderSession}

variable {w w' : World} {pending : PendingCompletion} {request : Request} {cutoffSeq : Option Nat}

theorem owedBy_some (h : w.owedBy session = some pending) :
    w.slot = some pending ∧ pending.incarnation = session.incarnation := by
  simpa [World.owedBy, Option.filter_eq_some_iff] using h

theorem written_evolves {db db' : Requests} (h : db.Evolves db') {seq : Nat}
    {outcome : CompletionOutcome}
    (hw : ∃ row ∈ db.rows, row.seq = seq ∧ outcome.matchesTerminal row.state) :
    ∃ row ∈ db'.rows, row.seq = seq ∧ outcome.matchesTerminal row.state := by
  obtain ⟨row, hrow, hseq, hmatch⟩ := hw
  obtain ⟨row', hrow', -, hsame⟩ := h row hrow
  have heq := hsame (CompletionOutcome.terminal_of_matchesTerminal hmatch)
  subst heq
  exact ⟨row', hrow', hseq, hmatch⟩

theorem Standing.of_head {row : Request} {owed : Ledger.Owed} (h : Standing w pending row owed)
    (hhead : w'.head = w.head) : Standing w' pending row owed := by
  cases h with
  | running hrun hpin => exact .running hrun fun pin hp => hhead.trans (hpin pin hp)
  | rootLost hcode => exact .rootLost hcode
  | written hmatch => exact .written hmatch

/-! ### Each effect keeps the books -/

theorem Books.moved (h : Books identity session w) (hmoved : Moved w w') :
    Books identity session w' := by
  obtain ⟨owed, hrun, hnone, hsome⟩ := h.ledger
  have howed : w'.owedBy session = w.owedBy session := by
    unfold World.owedBy
    rw [hmoved.slot]
  refine ⟨hmoved.requests.fifo h.fifo, ⟨owed, by rw [hmoved.log, hrun], ?_, ?_⟩, ?_⟩
  · rw [howed]; exact hnone
  · intro pending hp
    rw [howed] at hp
    obtain ⟨houtcome, ⟨row, hrow, hsame, hroot, hstands⟩, halone⟩ := hsome pending hp
    refine ⟨houtcome, ⟨row, hmoved.requests.mem hrow, hsame, hroot,
      hstands.of_head hmoved.head⟩, ?_⟩
    intro r hr hrunning
    obtain ⟨new, hrows, hnew⟩ := hmoved.requests
    rw [hrows] at hr
    rcases List.mem_append.mp hr with hr | hr
    · exact halone r hr hrunning
    · rw [hnew r hr] at hrunning; cases hrunning
  · intro seq outcome hmem
    rw [hmoved.log] at hmem
    exact written_evolves hmoved.requests.evolves (h.written seq outcome hmem)

/-- A change of root fails the row of an owed completion, and the debt stands. -/
theorem Books.rootFailed {oldRoot : Bool} {done : Written (List Request)}
    (h : Books identity session w) (hdone : failChangedRoot identity session oldRoot w = .ok done) :
    Books identity session (w.commit done) := by
  have hfifo := change_fifo (.rootFailed hdone) h.fifo
  have hevolves := change_evolves (.rootFailed hdone)
  obtain rfl := failChangedRoot_ok hdone
  obtain ⟨owed, hrun, hnone, hsome⟩ := h.ledger
  have hstep : Ledger.step owed
      (.rootChanged ((w.requests.select (changedRoot identity oldRoot)).map (·.seq)))
        = some owed := by
    cases owed <;> rfl
  refine ⟨hfifo, ⟨owed, Ledger.run_append hrun hstep, hnone, ?_⟩, ?_⟩
  · intro pending hp
    obtain ⟨houtcome, ⟨row, hrow, hsame, hroot, hstands⟩, halone⟩ := hsome pending hp
    obtain ⟨-, hinc⟩ := owedBy_some hp
    refine ⟨houtcome, ?_, ?_⟩
    · by_cases hchanged : changedRoot identity oldRoot row
      · refine ⟨_, Requests.mem_update_of hrow hchanged,
          ⟨hsame.1, hsame.2.1, hsame.2.2.1, ?_⟩, hroot, ?_⟩
        · show some session.incarnation = _
          rw [hinc]
        · simp only [changedRoot, Bool.and_eq_true] at hchanged
          cases hstands with
          | running | rootLost => exact .rootLost rfl
          | written hmatch =>
              have hterminal := CompletionOutcome.terminal_of_matchesTerminal hmatch
              simp [RowState.terminal, hchanged.1] at hterminal
      · have hkept := Requests.mem_update_of_not (f := rootChanged session w.clock) hrow
          (by simpa using hchanged)
        exact ⟨row, hkept, hsame, hroot, hstands.of_head rfl⟩
    · intro r hr hrunning
      obtain ⟨r₀, hr₀, rfl⟩ := Requests.mem_update.mp hr
      by_cases hchanged : changedRoot identity oldRoot r₀
      · simp [hchanged, rootChanged, RowState.isRunning] at hrunning
      · simp only [hchanged, if_false, Bool.false_eq_true] at hrunning ⊢
        exact halone r₀ hr₀ hrunning
  · intro seq outcome hmem
    have hmem' : Event.finished seq outcome ∈ w.log := by
      rcases List.mem_append.mp hmem with hmem | hmem
      · exact hmem
      · simp at hmem
    exact written_evolves hevolves (h.written seq outcome hmem')

/-- While nothing is owed, any event but a terminal write may be logged, the head
may move, and the table may move on. -/
theorem Books.unowed (h : Books identity session w) (hfree : w.owedBy session = none)
    (hslot : w'.slot = w.slot) (hfifo : w'.requests.Fifo)
    (hevolves : w.requests.Evolves w'.requests)
    (hlog : w'.log = w.log ∨ ∃ e, w'.log = w.log ++ [e] ∧ Ledger.step none e = some none) :
    Books identity session w' := by
  obtain ⟨owed, hrun, hnone, -⟩ := h.ledger
  obtain rfl := hnone hfree
  have hfree' : w'.owedBy session = none := by
    unfold World.owedBy at hfree ⊢
    rw [hslot]
    exact hfree
  refine ⟨hfifo, ⟨none, ?_, fun _ => rfl, fun pending hp => ?_⟩, fun seq outcome hmem => ?_⟩
  · rcases hlog with hlog | ⟨e, hlog, hstep⟩
    · rw [hlog, hrun]
    · rw [hlog]; exact Ledger.run_append hrun hstep
  · rw [hfree'] at hp; cases hp
  · refine written_evolves hevolves (h.written seq outcome ?_)
    rcases hlog with hlog | ⟨e, hlog, hstep⟩
    · rwa [hlog] at hmem
    · rw [hlog] at hmem
      rcases List.mem_append.mp hmem with hmem | hmem
      · exact hmem
      · obtain rfl := List.mem_singleton.mp hmem
        cases hstep

theorem Books.claimed {done : Written (Option Request)} (h : Books identity session w)
    (hfree : w.owedBy session = none) (hdone : claim identity session w = .ok done) :
    Books identity session (w.commit done) := by
  refine h.unowed hfree rfl (change_fifo (.claimed hdone) h.fifo)
    (change_evolves (.claimed hdone)) ?_
  rcases claim_ok hdone with rfl | ⟨row, -, -, -, -, hevents⟩
  · left
    simp [World.commit]
  · right
    exact ⟨.claimed row.seq, by simp [World.commit, hevents], rfl⟩

theorem Books.requeued {observed : Request} {done : Written Unit} (h : Books identity session w)
    (hfree : w.owedBy session = none)
    (hdone : requeue identity session request observed w = .ok done) :
    Books identity session (w.commit done) := by
  refine h.unowed hfree rfl (change_fifo (.requeued hdone) h.fifo)
    (change_evolves (.requeued hdone)) ?_
  obtain ⟨rfl, -⟩ := requeue_ok hdone
  right
  exact ⟨.requeued request.seq, rfl, rfl⟩

/-- A row claimed here and now: it runs, under this incarnation and this root. -/
def Claimed (identity : RootId) (session : LeaderSession) (w : World) (request : Request) : Prop :=
  request ∈ w.requests.rows ∧ request.root = identity
    ∧ ∃ startedAt, request.state = .running session.incarnation startedAt

theorem Claimed.moved (h : Claimed identity session w request) (hmoved : Moved w w') :
    Claimed identity session w' request :=
  ⟨hmoved.requests.mem h.1, h.2⟩

theorem claim_claimed {done : Written (Option Request)}
    (hdone : claim identity session w = .ok done) (hvalue : done.value = some request) :
    Claimed identity session (w.commit done) request := by
  rcases claim_ok hdone with rfl | ⟨row, hhead, hroot, hrequests, hrow, -⟩
  · cases hvalue
  · obtain ⟨hmem, hun, -⟩ := Requests.earliestUnfinished_spec hhead
    have hnew : { row with state := .running session.incarnation w.clock }
        ∈ done.requests.rows := by
      rw [hrequests]
      exact Requests.mem_update_of hmem (by simp [hun])
    have hfound := Requests.bySeq_of_mem hnew
    rw [hrow] at hvalue
    have heq : request = { row with state := .running session.incarnation w.clock } := by
      rw [← Option.some.injEq, ← hvalue]
      exact hfound
    subst heq
    exact ⟨hnew, hroot, w.clock, rfl⟩

/-- **Recording opens the debt.** -/
theorem Books.recorded {outcome : CompletionOutcome} (h : Books identity session w)
    (hslot : w.slot = none) (hclaimed : Claimed identity session w request)
    (houtcome : outcome ≠ .failed .rootChanged)
    (hhead : ∀ pin, outcome = .done pin → w.head = some pin) : Books identity session { w with
      slot := some ⟨request, outcome, session.incarnation⟩
      log := w.log ++ [.recorded request.seq outcome] } := by
  have hfree : w.owedBy session = none := by
    unfold World.owedBy
    rw [hslot]
    rfl
  obtain ⟨owed, hrun, hnone, -⟩ := h.ledger
  obtain rfl := hnone hfree
  obtain ⟨hmem, hroot, startedAt, hstate⟩ := hclaimed
  refine ⟨h.fifo, ⟨some (request.seq, outcome), Ledger.run_append hrun rfl, ?_, ?_⟩, ?_⟩
  · intro hnot; simp [World.owedBy] at hnot
  · intro pending hp
    obtain ⟨hpending, -⟩ := owedBy_some hp
    obtain rfl := Option.some.inj hpending
    have hrunning : request.state.isRunning := by rw [hstate]; rfl
    refine ⟨houtcome, ⟨request, hmem, ⟨rfl, rfl, rfl, by rw [hstate]; rfl⟩, hroot,
      .running hrunning hhead⟩, ?_⟩
    intro r hr hrun'
    exact congrArg Request.seq (h.fifo.unique hr hmem hrun' hrunning)
  · intro seq outcome' hmem'
    rcases List.mem_append.mp hmem' with hmem' | hmem'
    · exact h.written seq outcome' hmem'
    · simp at hmem'

theorem Books.finished {done : Written Unit} (h : Books identity session w)
    (howed : w.owedBy session = some pending)
    (hdone : finish identity session pending.request pending.outcome w = .ok done) :
    Books identity session (w.commit done) ∧ (w.commit done).owedBy session = some pending
      ∧ Ledger.run (w.commit done).log = some none := by
  have hfifo := change_fifo (.finished hdone) h.fifo
  have hevolves := change_evolves (.finished hdone)
  obtain ⟨rfl, hone, -⟩ := finish_ok hdone
  obtain ⟨owed, hrun, -, hsome⟩ := h.ledger
  obtain ⟨houtcome, ⟨row, hrow, hsame, hroot, hstands⟩, halone⟩ := hsome pending howed
  -- The one row the UPDATE selects is the pending row, so that row was running.
  obtain ⟨r, hr⟩ := List.length_eq_one_iff.mp hone
  obtain ⟨hmem, hsel⟩ := mem_select.mp (hr ▸ List.mem_singleton_self r :
    r ∈ w.requests.select (finishes identity session pending.request))
  have hseq : r.seq = row.seq := by
    unfold finishes at hsel
    simp only [Bool.and_eq_true, decide_eq_true_eq] at hsel
    rw [hsel.1.1.1, hsame.2.1]
  obtain rfl := Requests.eq_of_seq hmem hrow hseq
  have hrunning := finishes_running hsel
  have hpaid : owed = some (pending.request.seq, pending.outcome) := by
    cases hstands with
    | running | rootLost => rfl
    | written hmatch =>
        have hterminal := CompletionOutcome.terminal_of_matchesTerminal hmatch
        simp [RowState.terminal, RowState.unfinished_of_isRunning hrunning] at hterminal
  subst hpaid
  have hmatch := CompletionOutcome.matchesTerminal_terminal pending.outcome w.clock hrunning
  have hnew := Requests.mem_update_of (f := pending.outcome.terminal w.clock) hmem hsel
  have hrun' : Ledger.run (w.log ++ [.finished pending.request.seq pending.outcome])
      = some none := Ledger.run_append hrun (by simp [Ledger.step])
  have hclaim : (pending.outcome.terminal w.clock r.state).claimIncarnation
      = r.state.claimIncarnation := by
    cases hst : r.state <;> cases hout : pending.outcome <;>
      simp [CompletionOutcome.terminal, RowState.claimIncarnation]
  refine ⟨⟨hfifo, ⟨none, hrun', fun _ => rfl, fun pending' hp => ?_⟩, ?_⟩, howed, hrun'⟩
  · obtain rfl : pending = pending' := Option.some.inj (howed.symm.trans hp)
    refine ⟨houtcome, ⟨_, hnew, ⟨hsame.1, hsame.2.1, hsame.2.2.1, ?_⟩, hroot,
      .written hmatch⟩, ?_⟩
    · rw [hclaim]; exact hsame.2.2.2
    · intro r' hr' hrun''
      obtain ⟨r₀, hr₀, rfl⟩ := Requests.mem_update.mp hr'
      by_cases hsel' : finishes identity session pending.request r₀
      · have hun := RowState.unfinished_of_isRunning hrun''
        rw [if_pos hsel', not_unfinished_terminal (finishes_running hsel')] at hun
        cases hun
      · rw [if_neg hsel'] at hrun'' ⊢
        exact halone r₀ hr₀ hrun''
  · intro seq outcome hmem'
    rcases List.mem_append.mp hmem' with hmem' | hmem'
    · exact written_evolves hevolves (h.written seq outcome hmem')
    · obtain ⟨rfl, rfl⟩ : seq = pending.request.seq ∧ outcome = pending.outcome := by
        simpa using hmem'
      exact ⟨_, hnew, hsame.2.1, hmatch⟩

theorem Books.cleared (h : Books identity session w) (hpaid : Ledger.run w.log = some none) :
    Books identity session { w with slot := none } := by
  refine ⟨h.fifo, ⟨none, hpaid, fun _ => rfl, fun pending hp => ?_⟩, h.written⟩
  simp [World.owedBy] at hp

/-! ### Each operation keeps the books

An operation that writes no slot is covered by one of two preorders: `Kept` if it
keeps the books whatever is owed, `KeptFree` if it keeps them while nothing is.
-/

/-- The slot is untouched and the books are kept. -/
def Kept (identity : RootId) (session : LeaderSession) (w w' : World) : Prop :=
  w'.slot = w.slot ∧ (Books identity session w → Books identity session w')

/-- The slot is untouched and the books are kept while nothing is owed. -/
def KeptFree (identity : RootId) (session : LeaderSession) (w w' : World) : Prop :=
  w'.slot = w.slot
    ∧ (w.owedBy session = none → Books identity session w → Books identity session w')

theorem owedBy_congr (h : w'.slot = w.slot) : w'.owedBy session = w.owedBy session := by
  unfold World.owedBy
  rw [h]

instance : Std.Refl (Kept identity session) := ⟨fun _ => ⟨rfl, id⟩⟩

instance : IsTrans World (Kept identity session) :=
  ⟨fun _ _ _ h h' => ⟨h'.1.trans h.1, fun hb => h'.2 (h.2 hb)⟩⟩

instance : Std.Refl (KeptFree identity session) := ⟨fun _ => ⟨rfl, fun _ => id⟩⟩

instance : IsTrans World (KeptFree identity session) := ⟨by
  intro w w' w'' h h'
  refine ⟨h'.1.trans h.1, fun hfree hb => h'.2 ?_ (h.2 hfree hb)⟩
  rw [owedBy_congr h.1]
  exact hfree⟩

theorem Kept.free (h : Kept identity session w w') : KeptFree identity session w w' :=
  ⟨h.1, fun _ => h.2⟩

theorem Moved.kept (h : Moved w w') : Kept identity session w w' :=
  ⟨h.slot, fun hb => hb.moved h⟩

theorem kept_observe {α : Type} (read : World → Except Failure α) :
    Carries (Kept identity session) (observe read) :=
  carries_observe_of (fun _ _ hmoved => hmoved.kept) read

theorem kept_failChangedRootRequests :
    Carries (Kept identity session) (failChangedRootRequests identity session) :=
  failChangedRootRequests_respects (fun _ _ => Moved.kept)
    fun _ _ _ hdone => ⟨rfl, fun hb => hb.rootFailed hdone⟩

theorem keptFree_requeueBusyClaim (request : Request) (before : Option IndexPin) :
    Carries (KeptFree identity session)
      (requeueBusyClaim identity session request before) :=
  requeueBusyClaim_respects (fun _ _ hmoved => hmoved.kept.free)
    (fun _ _ _ hdone => ⟨rfl, fun _ hb => hb.rootFailed hdone⟩)
    (fun _ _ _ _ hdone => ⟨rfl, fun hfree hb => hb.requeued hfree hdone⟩) request before

theorem Books.paid {row : Request} (h : Books identity session w)
    (howed : w.owedBy session = some pending) (hrow : row ∈ w.requests.rows)
    (hsame : pending.sameClaim row) (hmatch : pending.outcome.matchesTerminal row.state) :
    Ledger.run w.log = some none := by
  obtain ⟨owed, hrun, -, hsome⟩ := h.ledger
  obtain ⟨houtcome, ⟨row', hrow', hsame', -, hstands⟩, -⟩ := hsome pending howed
  obtain rfl := Requests.eq_of_seq hrow hrow' (hsame.2.1.trans hsame'.2.1.symm)
  have hterminal := CompletionOutcome.terminal_of_matchesTerminal hmatch
  cases hstands with
  | running hrunning =>
      simp [RowState.terminal, RowState.unfinished_of_isRunning hrunning] at hterminal
  | rootLost hcode =>
      exfalso
      apply houtcome
      cases hst : row.state <;> cases hout : pending.outcome <;>
        simp_all [CompletionOutcome.matchesTerminal, RowState.errorCode]
  | written => exact hrun

theorem rereadPending_yields : Yields (rereadPending identity pending) w
      (fun row t => Moved w t ∧ row ∈ t.requests.rows ∧ pending.sameClaim row)
      fun _ t => Moved w t := by
  unfold rereadPending requestById
  rw [yields_bind]
  refine yields_observe (fun row t hmoved hread => ?_) fun _ t hmoved => hmoved
  cases row with
  | none => exact hmoved
  | some row =>
      obtain ⟨_, -, hread⟩ := bind_eq_ok.mp hread
      have hfound : t.requests.byId pending.request.id = some row := Except.ok.inj hread
      simp only [yields_bind]
      refine yields_ensure.mpr ⟨fun hsame => ?_, fun _ => hmoved⟩
      exact ⟨hmoved, (Requests.byId_spec hfound).1, hsame⟩

theorem finishRequestOutcome_yields (h : Books identity session w)
    (howed : w.owedBy session = some pending) :
    Yields (finishRequestOutcome identity session pending.request pending.outcome) w
      (fun _ t => Books identity session t ∧ t.owedBy session = some pending
        ∧ Ledger.run t.log = some none)
      fun _ t => Books identity session t ∧ t.owedBy session = some pending := by
  have hmoves : ∀ t, Moved w t →
      Books identity session t ∧ t.owedBy session = some pending := by
    intro t hmoved
    exact ⟨h.moved hmoved, (owedBy_congr hmoved.slot).trans howed⟩
  unfold finishRequestOutcome verifyLeaderSession
  rw [yields_bind]
  refine yields_observe (fun _ w₁ h₁ _ => ?_) fun _ w₁ h₁ => hmoves w₁ h₁
  refine yields_transact (fun done w₂ h₂ hdone => ?_) (fun _ done w₂ h₂ hdone => ?_)
    fun _ w₂ h₂ => hmoves w₂ (h₁.trans h₂)
  · obtain ⟨hb, ho⟩ := hmoves w₂ (h₁.trans h₂)
    exact hb.finished ho hdone
  · obtain ⟨hb, ho⟩ := hmoves w₂ (h₁.trans h₂)
    obtain ⟨hb', ho', -⟩ := hb.finished ho hdone
    exact ⟨hb', ho'⟩

/-- **A retry that returns owes nothing any more**; one that raises keeps the books. -/
theorem retryRecordedCompletion_yields (h : Books identity session w) :
    Yields (retryRecordedCompletion identity session) w
      (fun _ t => Books identity session t ∧ t.owedBy session = none)
      fun _ t => Books identity session t := by
  unfold retryRecordedCompletion verifyLeaderSession
  rw [yields_bind]
  refine yields_observe (fun _ w₁ h₁ _ => ?_) fun _ w₁ h₁ => h.moved h₁
  have hb₁ := h.moved h₁
  have hclear : ∀ t, Books identity session t → Ledger.run t.log = some none →
      Books identity session { t with slot := none }
        ∧ ({ t with slot := none } : World).owedBy session = none := by
    intro t hb hpaid
    exact ⟨hb.cleared hpaid, rfl⟩
  simp only [yields_bind, yields_get]
  cases hslot : w₁.slot with
  | none =>
      refine ⟨hb₁, ?_⟩
      simp [World.owedBy, hslot]
  | some pending =>
      by_cases hinc : pending.incarnation = session.incarnation
      · have howed : w₁.owedBy session = some pending := by
          simp [World.owedBy, hslot, hinc]
        simp only [ne_eq, hinc, not_true_eq_false, if_false, yields_bind]
        refine rereadPending_yields.mono ?_ fun _ t hmoved => hb₁.moved hmoved
        rintro row w₂ ⟨h₂, hrow, hsame⟩
        have hb₂ := hb₁.moved h₂
        have ho₂ := (owedBy_congr h₂.slot).trans howed
        by_cases hterminal : row.state.terminal
        · simp only [hterminal, if_true, yields_bind]
          refine yields_ensure.mpr ⟨fun hmatch => ?_, fun _ => hb₂⟩
          exact hclear w₂ hb₂ (hb₂.paid ho₂ hrow hsame hmatch)
        · simp only [hterminal, if_false, Bool.false_eq_true, yields_bind]
          refine yields_ensure.mpr ⟨fun _ => ?_, fun _ => hb₂⟩
          rw [yields_attempt]
          refine (finishRequestOutcome_yields hb₂ ho₂).mono ?_ ?_
          · rintro _ w₃ ⟨hb₃, -, hpaid⟩
            exact hclear w₃ hb₃ hpaid
          · rintro e w₃ ⟨hb₃, ho₃⟩
            simp only [yields_bind]
            refine rereadPending_yields.mono ?_ fun _ t hmoved => hb₃.moved hmoved
            rintro reread w₄ ⟨h₄, hreread, hsame'⟩
            have hb₄ := hb₃.moved h₄
            have ho₄ := (owedBy_congr h₄.slot).trans ho₃
            by_cases hterminal' : reread.state.terminal
            · simp only [hterminal', if_true, yields_bind]
              refine yields_ensure.mpr ⟨fun hmatch => ?_, fun _ => hb₄⟩
              exact hclear w₄ hb₄ (hb₄.paid ho₄ hreread hsame' hmatch)
            · simp only [hterminal', if_false, Bool.false_eq_true]
              exact hb₄
      · have howed : w₁.owedBy session = none := by
          simp [World.owedBy, hslot, hinc]
        simp only [ne_eq, hinc, not_false_eq_true, if_true, yields_bind]
        obtain ⟨owed, hrun, hnone, -⟩ := hb₁.ledger
        rw [hnone howed] at hrun
        exact hclear w₁ hb₁ hrun

/-- What holds while an iteration works on a row it claimed. -/
structure Working (identity : RootId) (session : LeaderSession) (w : World)
    (request : Request) : Prop where
  books : Books identity session w
  free : w.owedBy session = none
  claimed : Claimed identity session w request

theorem Working.moved (h : Working identity session w request) (hmoved : Moved w w') :
    Working identity session w' request :=
  ⟨h.books.moved hmoved, (owedBy_congr hmoved.slot).trans h.free, h.claimed.moved hmoved⟩

theorem claimRequest_yields (h : Books identity session w) (hfree : w.owedBy session = none) :
    Yields (claimRequest identity session) w
      (fun row t => Books identity session t ∧ t.owedBy session = none
        ∧ ∀ request, row = some request → Working identity session t request)
      fun _ t => Books identity session t := by
  unfold claimRequest
  rw [yields_bind]
  refine yields_observe (fun _ w₁ h₁ _ => ?_) fun _ w₁ h₁ => h.moved h₁
  have hstep : ∀ done w₂, Moved w₁ w₂ → claim identity session w₂ = .ok done →
      Books identity session (w₂.commit done) ∧ (w₂.commit done).owedBy session = none := by
    intro done w₂ h₂ hdone
    have hmoved := h₁.trans h₂
    have hfree₂ := (owedBy_congr hmoved.slot).trans hfree
    exact ⟨(h.moved hmoved).claimed hfree₂ hdone, hfree₂⟩
  refine yields_transact (fun done w₂ h₂ hdone => ?_)
    (fun _ done w₂ h₂ hdone => (hstep done w₂ h₂ hdone).1) fun _ w₂ h₂ => h.moved (h₁.trans h₂)
  obtain ⟨hb, hfree₂⟩ := hstep done w₂ h₂ hdone
  exact ⟨hb, hfree₂, fun request hvalue => ⟨hb, hfree₂, claim_claimed hdone hvalue⟩⟩

/-- Publishing moves the head and nothing else, and what it returns is the head. -/
theorem publish_yields {expected : Option IndexPin} (h : Working identity session w request) :
    Yields (publish identity session expected) w
      (fun pin t => Working identity session t request ∧ t.head = some pin)
      fun _ t => Working identity session t request := by
  have hhead : ∀ w' pin, Working identity session w' request →
      Working identity session { w' with head := some pin } request := by
    intro w' pin hw
    exact ⟨hw.books.unowed hw.free rfl hw.books.fifo (Std.Refl.refl _) (.inl rfl), hw.free,
      hw.claimed⟩
  unfold publish
  rw [yields_bind]
  refine yields_turn fun t w' hmoved => ?_
  have hw := h.moved hmoved
  simp only [yields_bind, yields_get]
  split
  · exact hw
  · exact hw
  · exact ⟨hhead w' _ hw, rfl⟩
  · exact hhead w' _ hw

private theorem error_returns_no_pin {e : Failure} (pin : IndexPin)
    (h : (Except.error e : Except Failure IndexPin) = .ok pin) : w.head = some pin := by
  cases h

theorem attemptRequest_yields (h : Working identity session w request) :
    Yields (attemptRequest identity session request) w
      (fun tried t => Working identity session t request
        ∧ ∀ pin, tried.1 = .ok pin → t.head = some pin)
      fun _ _ => False := by
  unfold attemptRequest
  rw [yields_bind, yields_attempt, yields_bind]
  refine yields_observe (fun _ w₁ h₁ _ => ?_) fun e w₁ h₁ => ⟨h.moved h₁, error_returns_no_pin⟩
  unfold prepare
  refine yields_observe (fun expected w₂ h₂ _ => ?_)
    fun e w₂ h₂ => ⟨(h.moved h₁).moved h₂, error_returns_no_pin⟩
  have hw := (h.moved h₁).moved h₂
  simp only [yields_bind]
  rw [yields_attempt]
  unfold runWithCapture
  simp only [yields_bind, yields_modify]
  -- The capture is logged, and logged only while nothing is owed.
  have hcaptured : Working identity session
      { w₂ with log := w₂.log ++ [.captured request.seq] } request := by
    refine ⟨?_, hw.free, hw.claimed⟩
    exact hw.books.unowed hw.free rfl hw.books.fifo (Std.Refl.refl _)
      (.inr ⟨.captured request.seq, rfl, rfl⟩)
  refine yields_observe (fun _ w₃ h₃ _ => ?_) fun e w₃ h₃ => ⟨hcaptured.moved h₃, error_returns_no_pin⟩
  refine (publish_yields (hcaptured.moved h₃)).mono ?_ ?_
  · rintro pin t ⟨hworking, hhead⟩
    refine ⟨hworking, fun pin' hp => ?_⟩
    obtain rfl := Except.ok.inj hp
    exact hhead
  · intro e t hworking; exact ⟨hworking, error_returns_no_pin⟩

/-- **Recording, and the first attempt to write.** -/
theorem recordAndFinishRequest_yields {result : Except Failure IndexPin}
    (h : Working identity session w request) (hhead : ∀ pin, result = .ok pin → w.head = some pin) :
    Yields (recordAndFinishRequest identity session request result) w
      (fun _ t => Books identity session t ∧ t.owedBy session = none)
      fun _ t => Books identity session t := by
  unfold recordAndFinishRequest verifyLeaderSession
  rw [yields_bind]
  refine yields_observe (fun _ w₁ h₁ _ => ?_) fun _ w₁ h₁ => h.books.moved h₁
  have hw := h.moved h₁
  simp only [yields_bind, yields_get]
  refine yields_ensure.mpr ⟨fun _ => yields_ensure.mpr ⟨fun hslot => ?_, fun _ => hw.books⟩,
    fun _ => hw.books⟩
  cases hresult : CompletionOutcome.fromResult result with
  | error e => exact hw.books
  | ok outcome =>
      simp only [yields_bind, yields_modify]
      have hrecorded := hw.books.recorded hslot hw.claimed
        (CompletionOutcome.fromResult_ne_rootChanged hresult) fun pin hp => by
          subst hp
          rw [h₁.head]
          exact hhead pin (CompletionOutcome.fromResult_done hresult)
      exact (retryRecordedCompletion_yields hrecorded).mono (fun _ _ hq => hq) fun _ _ hb => hb

theorem settleRequest_yields {outcome : Except Failure IndexPin}
    {beforePublish : Option (Option IndexPin)} (h : Working identity session w request)
    (hhead : ∀ pin, outcome = .ok pin → w.head = some pin) :
    Yields (settleRequest identity session request outcome beforePublish) w
      (fun _ t => Books identity session t ∧ t.owedBy session = none)
      fun _ t => Books identity session t := by
  have hrecord : Yields (do
      recordAndFinishRequest identity session request outcome
      return Drained.completed) w
      (fun _ t => Books identity session t ∧ t.owedBy session = none)
      fun _ t => Books identity session t := by
    rw [yields_bind]
    exact recordAndFinishRequest_yields h hhead
  have hrequeue : ∀ before w', Working identity session w' request →
      Yields (do
        requeueBusyClaim identity session request before
        return Drained.deferred) w'
        (fun _ t => Books identity session t ∧ t.owedBy session = none)
        fun _ t => Books identity session t := by
    intro before w' hw
    rw [yields_bind]
    refine (keptFree_requeueBusyClaim request before w').mono (fun _ t ht => ?_) fun _ t ht => ?_
    · exact ⟨ht.2 hw.free hw.books, (owedBy_congr ht.1).trans hw.free⟩
    · exact ht.2 hw.free hw.books
  unfold settleRequest
  cases outcome with
  | ok pin => exact hrecord
  | error e =>
      by_cases hbusy : (e.drift || e.transientStorageContention) = true
      · simp only [hbusy, if_true]
        cases beforePublish with
        | some before => exact hrequeue before w h
        | none =>
            simp only [yields_bind]
            unfold recoveryIndexBaseline
            refine yields_observe (fun before w₁ h₁ _ => ?_) fun _ w₁ h₁ => h.books.moved h₁
            have := hrequeue before w₁ (h.moved h₁)
            rwa [yields_bind] at this
      · by_cases hnonterminal : e.nonterminalStorageBusy = true
        · simp only [hbusy, hnonterminal, if_true, if_false, Bool.false_eq_true]
          exact h.books
        · simp only [hbusy, hnonterminal, if_false, Bool.false_eq_true]
          exact hrecord

/-! ### Whole drains -/

/-- The books are kept and nothing is owed. -/
def Settled (identity : RootId) (session : LeaderSession) (w : World) : Prop :=
  Books identity session w ∧ w.owedBy session = none

theorem Settled.kept (h : Settled identity session w) (hkept : Kept identity session w w') :
    Settled identity session w' :=
  ⟨hkept.2 h.1, (owedBy_congr hkept.1).trans h.2⟩

theorem kept_pastCutoff (cutoffSeq : Option Nat) :
    Carries (Kept identity session) (pastCutoff identity cutoffSeq) := by
  cases cutoffSeq with
  | none => exact carries_pure _
  | some cutoff => exact (kept_observe _).bind fun _ => carries_pure _

/-- **One iteration** starts and ends with nothing owed, unless it raises. -/
theorem drainOne_yields (h : Settled identity session w) :
    Yields (drainOne identity session cutoffSeq) w (fun _ t => Settled identity session t)
      fun _ t => Books identity session t := by
  unfold drainOne checkCancel
  rw [yields_bind]
  refine yields_observe (fun _ w₁ h₁ _ => ?_) fun _ w₁ h₁ => h.1.moved h₁
  have hs₁ := h.kept h₁.kept
  rw [yields_bind]
  refine (kept_pastCutoff cutoffSeq w₁).mono (fun past w₂ h₂ => ?_)
    fun _ w₂ h₂ => (hs₁.kept h₂).1
  have hs₂ := hs₁.kept h₂
  cases past with
  | true => exact hs₂
  | false =>
      simp only [Bool.false_eq_true, if_false, yields_bind]
      refine (claimRequest_yields hs₂.1 hs₂.2).mono ?_ fun _ _ hb => hb
      rintro row w₃ ⟨hb₃, hfree₃, hclaimed⟩
      cases row with
      | none => exact ⟨hb₃, hfree₃⟩
      | some request =>
          simp only [yields_bind]
          refine (attemptRequest_yields (hclaimed request rfl)).mono ?_ fun _ _ => False.elim
          rintro tried w₄ ⟨hworking, hhead⟩
          refine yields_observe (fun _ w₅ h₅ _ => ?_) fun _ w₅ h₅ => hworking.books.moved h₅
          refine settleRequest_yields (hworking.moved h₅) fun pin hp => ?_
          rw [h₅.head]
          exact hhead pin hp

theorem drainLoop_yields (remaining : Nat) :
    ∀ (completed : Nat) (w : World), Settled identity session w →
      Yields (drainLoop identity session cutoffSeq remaining completed) w
        (fun _ t => Settled identity session t) fun _ t => Books identity session t := by
  induction remaining with
  | zero =>
      intro completed w h
      unfold drainLoop
      rw [yields_bind]
      refine (drainOne_yields h).mono (fun drained t ht => ?_) fun _ _ hb => hb
      cases drained <;> exact ht
  | succ more ih =>
      intro completed w h
      unfold drainLoop
      rw [yields_bind]
      refine (drainOne_yields h).mono (fun drained t ht => ?_) fun _ _ hb => hb
      cases drained with
      | idle | deferred => exact ht
      | completed => exact ih (completed + 1) t ht

/-- **A drain keeps the books**, however it is interrupted; one that returns owes nothing. -/
theorem drainRequests_yields {maxCompleted : Nat} (h : Books identity session w) :
    Yields (drainRequests identity session maxCompleted cutoffSeq) w
      (fun _ t => Settled identity session t) fun _ t => Books identity session t := by
  unfold drainRequests rootPathReplaced verifyLeaderSession
  rw [yields_bind]
  refine yields_observe (fun replaced w₁ h₁ _ => ?_) fun _ w₁ h₁ => h.moved h₁
  have hb₁ := h.moved h₁
  have hfail : Carries (Kept identity session) (failChangedRootRequests identity session) :=
    kept_failChangedRootRequests
  cases replaced with
  | true =>
      simp only [if_true, yields_bind]
      exact (hfail w₁).mono (fun _ t ht => ht.2 hb₁) fun _ t ht => ht.2 hb₁
  | false =>
      simp only [Bool.false_eq_true, if_false, yields_bind]
      refine yields_observe (fun _ w₂ h₂ _ => ?_) fun _ w₂ h₂ => hb₁.moved h₂
      have hb₂ := hb₁.moved h₂
      refine (hfail w₂).mono (fun _ w₃ h₃ => ?_) fun _ w₃ h₃ => h₃.2 hb₂
      refine (retryRecordedCompletion_yields (h₃.2 hb₂)).mono (fun resolved w₄ h₄ => ?_)
        fun _ _ hb => hb
      exact drainLoop_yields _ _ w₄ h₄

/-- One drain of the incarnation: any limit, any cutoff, any faults. -/
inductive DrainStep (identity : RootId) (session : LeaderSession) : World → World → Prop
  | drain (w : World) (maxCompleted : Nat) (cutoffSeq : Option Nat) (script : List Turn) :
      DrainStep identity session w
        (final (drainRequests identity session maxCompleted cutoffSeq) { w with script := script })

theorem drainStep_books (h : DrainStep identity session w w') (hb : Books identity session w) :
    Books identity session w' := by
  cases h with
  | drain maxCompleted cutoffSeq script =>
      have hscript := hb.moved (moved_script w script)
      exact ((drainRequests_yields hscript).mono (fun _ _ ht => ht.1) fun _ _ ht => ht).final

/-- **A fresh incarnation**: it has logged nothing, and the slot, if set, is not its own. -/
structure Fresh (session : LeaderSession) (w : World) : Prop where
  fifo : w.requests.Fifo
  free : w.owedBy session = none
  log : w.log = []

theorem Fresh.books (h : Fresh session w) : Books identity session w := by
  refine ⟨h.fifo, ⟨none, ?_, fun _ => rfl, fun pending hp => ?_⟩, fun seq outcome hmem => ?_⟩
  · rw [h.log]; rfl
  · rw [h.free] at hp; cases hp
  · rw [h.log] at hmem; cases hmem

/-- **A recorded publication is neither lost nor repeated.**  Take any number of
drains of one incarnation, each failing wherever it likes, and any completion
`recorded` on the way.  What is logged after it is either nothing but rows failing
for a lost root, and then the slot still holds that completion; or exactly that up
to a terminal write of the same row with the same outcome, and then the row is
terminal in the table with that outcome. -/
theorem recorded_completion_once {w w' : World} (hfresh : Fresh session w)
    (hrun : ReflTransGen (DrainStep identity session) w w') {before after : List Event}
    {seq : Nat} {outcome : CompletionOutcome}
    (hlog : w'.log = before ++ .recorded seq outcome :: after) :
    ((∀ e ∈ after, ∃ seqs, e = .rootChanged seqs)
      ∧ ∃ pending, w'.owedBy session = some pending ∧ pending.request.seq = seq
        ∧ pending.outcome = outcome)
    ∨ ∃ mid rest, after = mid ++ .finished seq outcome :: rest
        ∧ (∀ e ∈ mid, ∃ seqs, e = .rootChanged seqs)
        ∧ ∃ row ∈ w'.requests.rows, row.seq = seq ∧ outcome.matchesTerminal row.state := by
  have hbooks : Books identity session w' :=
    Runs.keeps_run (I := Books identity session) (fun _ _ => drainStep_books) hrun hfresh.books
  obtain ⟨owed, hledger, hnone, hsome⟩ := hbooks.ledger
  rw [hlog] at hledger
  rcases Ledger.recorded_split hledger with ⟨howed, hall⟩ | ⟨mid, rest, hafter, hall⟩
  · left
    refine ⟨hall, ?_⟩
    cases hslot : w'.owedBy session with
    | none => rw [hnone hslot] at howed; cases howed
    | some pending =>
        obtain ⟨-, ⟨row, -, -, -, hstands⟩, -⟩ := hsome pending hslot
        refine ⟨pending, rfl, ?_⟩
        cases hstands <;> cases howed <;> exact ⟨rfl, rfl⟩
  · right
    refine ⟨mid, rest, hafter, hall, hbooks.written seq outcome ?_⟩
    rw [hlog, hafter]
    simp

/-- One accepted request, and a leader whose mandatory publication is attested. -/
def oneRequest : World :=
  let root : RootId := ⟨1, 1⟩
  let accepted := final (enqueueRequest root root 7 ⟨1, 4096, none, none⟩ none) (World.start root)
  { accepted with
    head := some ⟨5, 3⟩, leader := some 1, newest := 1, reconciled := some 1
    serving := some ⟨1, root⟩ }

/-- A drain of `oneRequest` that publishes and then loses its terminal write. -/
def owing : World :=
  final (drainRequests ⟨1, 1⟩ ⟨1, ⟨1, 1⟩⟩ 1 none) { oneRequest with
    script := List.replicate 19 {}
      ++ [{ fate := .fails ⟨.storageBusy, "SQLite lock contention", true, false⟩ }] }

theorem recorded_completion_once_owing :
    owing.head = some ⟨5, 4⟩
      ∧ ∃ pending, owing.owedBy ⟨1, ⟨1, 1⟩⟩ = some pending ∧ pending.request.seq = 1
        ∧ pending.outcome = .done ⟨5, 4⟩ := by
  have hlog : owing.log = [.rootChanged [], .claimed 1, .captured 1]
      ++ .recorded 1 (.done ⟨5, 4⟩) :: [] := by decide +kernel
  have hfresh : Fresh ⟨1, ⟨1, 1⟩⟩ oneRequest := ⟨by unfold Requests.Fifo; decide, rfl, rfl⟩
  refine ⟨by decide +kernel, ?_⟩
  rcases recorded_completion_once hfresh (.single (.drain oneRequest 1 none _)) hlog with
    ⟨-, h⟩ | ⟨mid, rest, hafter, -⟩
  · exact h
  · simp at hafter

end Baleyg
