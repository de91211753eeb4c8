/-
A recorded completion can always be resolved.

The terminal write of a `Done(pin)` asks that the head still is `pin`, and the
same leader has another way to publish: the watcher's reconciliation inside
`queueTick`.  What keeps the two apart is that a pass reconciles only when nothing
is recorded, so while a completion is owed the head stays where the publication
left it (`Standing.running` in `Books`).  Any later retry whose own effects
succeed therefore makes the row terminal, and the rows behind it are claimable.
-/
import Baleyg.Queue.Completion

namespace Baleyg

open Fallible Relation

variable {identity : RootId} {session : LeaderSession}

/-! ### Passes keep the books -/

/-- The books, and no session but this one serves. -/
structure Serves (identity : RootId) (session : LeaderSession) (w : World) : Prop where
  books : Books identity session w
  serving : ∀ s, w.serving = some s → s = session

variable {w w' : World} {row : Request}

theorem Serves.moved (h : Serves identity session w) (hmoved : Moved w w') :
    Serves identity session w' := by
  refine ⟨h.books.moved hmoved, fun s hs => h.serving s ?_⟩
  rw [← hmoved.serving]
  exact hs

theorem Books.leadership (h : Books identity session w) (serving : Option LeaderSession)
    (leader : Option Incarnation) :
    Books identity session { w with serving := serving, leader := leader } := by
  obtain ⟨owed, hrun, hnone, hsome⟩ := h.ledger
  refine ⟨h.fifo, ⟨owed, hrun, hnone, fun pending hp => ?_⟩, h.written⟩
  obtain ⟨houtcome, ⟨row, hrow, hsame, hroot, hstands⟩, halone⟩ := hsome pending hp
  exact ⟨houtcome, ⟨row, hrow, hsame, hroot, hstands.of_head rfl⟩, halone⟩

theorem Serves.released (h : Serves identity session w) :
    Serves identity session { w with serving := none, leader := none } :=
  ⟨h.books.leadership none none, nofun⟩

theorem Serves.changes (h : Serves identity session w) (hchanges : Changes identity session w w')
    (hb : Books identity session w') : Serves identity session w' := by
  refine ⟨hb, fun s hs => h.serving s ?_⟩
  rw [← (changes_leadership hchanges).1]
  exact hs

theorem reconcileDue_yields (h : Serves identity session w) (hfree : w.owedBy session = none) :
    Yields (reconcileDue identity session) w (fun _ t => Serves identity session t)
      fun _ t => Serves identity session t := by
  have hhead : ∀ w' pin, Moved w w' →
      Serves identity session { w' with head := some pin } := by
    intro w' pin hmoved
    have hs := h.moved hmoved
    refine ⟨?_, hs.serving⟩
    exact hs.books.unowed ((owedBy_congr hmoved.slot).trans hfree) rfl hs.books.fifo
      (Std.Refl.refl _) (.inl rfl)
  unfold reconcileDue verifyLeaderSession recoveryIndexBaseline prepare publish
  rw [yields_bind]
  refine yields_observe (fun _ w₁ h₁ _ => ?_) fun _ w₁ h₁ => h.moved h₁
  rw [yields_bind]
  refine yields_whether (fun due w₂ h₂ => ?_) fun _ w₂ h₂ => h.moved (h₁.trans h₂)
  have h₁₂ := h₁.trans h₂
  cases due with
  | false => exact h.moved h₁₂
  | true =>
      simp only [if_true, yields_bind]
      refine yields_observe (fun _ w₃ h₃ _ => ?_) fun _ w₃ h₃ => h.moved (h₁₂.trans h₃)
      have h₁₃ := h₁₂.trans h₃
      refine yields_observe (fun _ w₄ h₄ _ => ?_) fun _ w₄ h₄ => h.moved (h₁₃.trans h₄)
      have h₁₄ := h₁₃.trans h₄
      refine yields_observe (fun baseline w₅ h₅ _ => ?_) fun _ w₅ h₅ => h.moved (h₁₄.trans h₅)
      have h₁₅ := h₁₄.trans h₅
      refine yields_whether (fun unchanged w₆ h₆ => ?_) fun _ w₆ h₆ => h.moved (h₁₅.trans h₆)
      have h₁₆ := h₁₅.trans h₆
      cases unchanged with
      | true =>
          exact yields_observe (fun _ w₇ h₇ _ => h.moved (h₁₆.trans h₇))
            fun _ w₇ h₇ => h.moved (h₁₆.trans h₇)
      | false =>
          simp only [Bool.false_eq_true, if_false, yields_bind]
          refine yields_observe (fun _ w₇ h₇ _ => ?_) fun _ w₇ h₇ => h.moved (h₁₆.trans h₇)
          refine yields_turn fun t w₈ h₈ => ?_
          have hmoved := (h₁₆.trans h₇).trans h₈
          simp only [yields_get]
          split
          · exact h.moved hmoved
          · exact h.moved hmoved
          · exact hhead w₈ _ hmoved
          · exact hhead w₈ _ hmoved

/-- `has_recorded_completion` reads whether something is owed. -/
theorem recorded_iff : (w.slot.any fun pending => pending.incarnation = session.incarnation) = false
      ↔ w.owedBy session = none := by
  unfold World.owedBy
  cases w.slot <;> simp

theorem kept_queueIdle (processed : Nat) :
    Carries (Kept identity session) (queueIdle identity processed) := by
  refine .ite (carries_pure _) ?_
  exact (kept_observe _).bind fun _ => carries_pure _

theorem serveSession_yields (h : Serves identity session w) :
    Yields (serveSession identity session) w (fun _ t => Serves identity session t)
      fun _ t => Serves identity session t := by
  unfold serveSession hasRecordedCompletion releaseSession
  rw [yields_bind, yields_attempt]
  have hbooks : Yields (drainRequests identity session 1 none) w
      (fun _ t => Settled identity session t) fun _ t => Books identity session t :=
    drainRequests_yields h.books
  have hchanged : Carries (Changes identity session) (drainRequests identity session 1 none) :=
    carries_drainRequests 1 none
  refine (hbooks.and (hchanged w)).mono ?_ ?_
  · rintro processed w₁ ⟨hsettled, hchanges⟩
    have hs₁ := h.changes hchanges hsettled.1
    simp only [yields_bind]
    have hidle : Carries (Kept identity session) (queueIdle identity processed) :=
      kept_queueIdle processed
    have hidle' : Carries (Changes identity session) (queueIdle identity processed) :=
      .ite (carries_pure _) ((carries_observe _).bind fun _ => carries_pure _)
    refine ((hidle w₁).and (hidle' w₁)).mono ?_ ?_
    · rintro idle w₂ ⟨hkept, hchanges₂⟩
      have hs₂ := hs₁.changes hchanges₂ (hkept.2 hs₁.books)
      simp only [yields_get, yields_pure]
      split
      · rename_i hgate
        rw [Bool.and_eq_true, Bool.not_eq_true'] at hgate
        exact reconcileDue_yields hs₂ (recorded_iff.mp hgate.2)
      · exact hs₂
    · rintro e w₂ ⟨hkept, hchanges₂⟩
      exact hs₁.changes hchanges₂ (hkept.2 hs₁.books)
  · rintro e w₁ ⟨hbooks, hchanges⟩
    have hs₁ := h.changes hchanges hbooks
    simp only [yields_bind, yields_get, yields_pure]
    split
    · exact hs₁.released
    · exact hs₁

theorem loseRoot_yields (h : Serves identity session w) :
    Yields (loseRoot identity) w (fun _ t => Serves identity session t)
      fun _ t => Serves identity session t := by
  have hunserved : Serves identity session { w with serving := none } :=
    ⟨h.books.leadership none w.leader, nofun⟩
  unfold loseRoot releaseSession
  simp only [yields_bind, yields_get, yields_modify]
  cases hserving : w.serving with
  | none => exact hunserved
  | some s =>
      obtain rfl := h.serving s hserving
      simp only [yields_bind]
      have hfail : Carries (Kept identity s) (failChangedRootRequests identity s) :=
        kept_failChangedRootRequests
      have hchanges : Carries (Changes identity s) (failChangedRootRequests identity s) :=
        carries_failChangedRootRequests
      refine ((hfail _).and (hchanges _)).mono ?_ ?_
      · rintro _ t ⟨hkept, hch⟩
        exact (hunserved.changes hch (hkept.2 hunserved.books)).released
      · rintro _ t ⟨hkept, hch⟩
        exact hunserved.changes hch (hkept.2 hunserved.books)

/-- **A pass of the daemon keeps the books.** -/
theorem queueTick_yields (h : Serves identity session w) :
    Yields (queueTick identity) w (fun _ t => Serves identity session t)
      fun _ t => Serves identity session t := by
  unfold queueTick rootPathReplaced releaseSession verifyLeaderSession
  rw [yields_bind]
  refine yields_observe (fun replaced w₁ h₁ _ => ?_) fun _ w₁ h₁ => h.moved h₁
  have hs₁ := h.moved h₁
  cases replaced with
  | true => exact loseRoot_yields hs₁
  | false =>
      simp only [Bool.false_eq_true, if_false, yields_bind]
      refine yields_whether (fun proceeds w₂ h₂ => ?_) fun _ w₂ h₂ => hs₁.moved h₂
      have hs₂ := hs₁.moved h₂
      cases proceeds with
      | false => exact hs₂
      | true =>
          simp only [if_true, yields_bind]
          refine yields_whether (fun recreates w₃ h₃ => ?_) fun _ w₃ h₃ => hs₂.moved h₃
          have hs₃ := hs₂.moved h₃
          cases recreates with
          | true => exact hs₃.released
          | false =>
              simp only [Bool.false_eq_true, if_false, yields_bind, yields_get]
              cases hserving : w₃.serving with
              | none => exact hs₃
              | some s =>
                  obtain rfl := hs₃.serving s hserving
                  simp only [yields_bind, yields_attempt]
                  refine yields_observe (fun _ w₄ h₄ _ => ?_) fun _ w₄ h₄ => ?_
                  · exact serveSession_yields (hs₃.moved h₄)
                  · exact (hs₃.moved h₄).released

/-- **One pass of the leader's loop**: the queue and its watcher, or maintenance. -/
inductive PassStep (identity : RootId) : World → World → Prop
  | tick (w : World) (script : List Turn) :
      PassStep identity w (final (queueTick identity) { w with script := script })
  | maintenance (w : World) (script : List Turn) :
      PassStep identity w (final maintenanceTick { w with script := script })

theorem passStep_serves (h : PassStep identity w w') (hs : Serves identity session w) :
    Serves identity session w' := by
  cases h with
  | tick script => exact (queueTick_yields (hs.moved (moved_script w script))).final
  | maintenance script =>
      have hscript := hs.moved (moved_script w script)
      unfold maintenanceTick
      exact (yields_observe (fun _ _ hmoved _ => hscript.moved hmoved)
        fun _ _ hmoved => hscript.moved hmoved).final

/-! ### A retry that is let through -/

theorem leads_calm (hnamed : w.named = identity) (hsession : session.identity = identity)
    (hleader : w.leader = some session.incarnation) : leads identity session w = .ok () := by
  simp [leads, verifyRoot, ensure, hnamed, hsession, hleader]
  rfl

theorem select_finishes {request : Request} (hrow : row ∈ w.requests.rows)
    (hsel : finishes identity session request row) :
    w.requests.select (finishes identity session request) = [row] := by
  have hmem : row ∈ w.requests.select (finishes identity session request) :=
    mem_select.mpr ⟨hrow, hsel⟩
  have hall : ∀ r ∈ w.requests.select (finishes identity session request), r = row := by
    intro r hr
    obtain ⟨hr, hrsel⟩ := mem_select.mp hr
    unfold finishes at hsel hrsel
    simp only [Bool.and_eq_true, decide_eq_true_eq] at hsel hrsel
    exact Requests.eq_of_seq hr hrow (hrsel.1.1.1.trans hsel.1.1.1.symm)
  have hnodup : (w.requests.select (finishes identity session request)).Nodup :=
    (w.requests.ordered.imp fun hlt heq => by
      rw [heq] at hlt
      exact Nat.lt_irrefl _ hlt).filter _
  cases hlist : w.requests.select (finishes identity session request) with
  | nil => rw [hlist] at hmem; cases hmem
  | cons first rest =>
      rw [hlist] at hall hnodup
      obtain rfl := hall first List.mem_cons_self
      cases rest with
      | nil => rfl
      | cons second rest =>
          obtain rfl := hall second (List.mem_cons_of_mem _ List.mem_cons_self)
          simp at hnodup

/-- The row an owed completion waits for, still running in a world it leads. -/
structure Resolvable (identity : RootId) (session : LeaderSession) (w : World)
    (pending : PendingCompletion) (row : Request) : Prop where
  named : w.named = identity
  leader : w.leader = some session.incarnation
  slot : w.slot = some pending
  mem : row ∈ w.requests.rows
  same : pending.sameClaim row
  root : row.root = identity
  running : row.state.isRunning
  head : ∀ pin, pending.outcome = .done pin → w.head = some pin

theorem Resolvable.moved {pending : PendingCompletion}
    (h : Resolvable identity session w pending row) (hmoved : CalmMoved w w') :
    Resolvable identity session w' pending row :=
  ⟨hmoved.named.trans h.named, hmoved.moved.leader.trans h.leader,
    hmoved.moved.slot.trans h.slot, hmoved.moved.requests.mem h.mem, h.same, h.root, h.running,
    fun pin hp => hmoved.moved.head.trans (h.head pin hp)⟩

/-- **A retry whose own effects succeed writes the row.** -/
theorem retry_resolves {pending : PendingCompletion} (hsession : session.identity = identity)
    (hincarnation : pending.incarnation = session.incarnation)
    (h : Resolvable identity session w pending row) (hcalm : Calm w.script) :
    Yields (retryRecordedCompletion identity session) w
      (fun resolved t => resolved = true ∧ t.slot = none
        ∧ { row with state := pending.outcome.terminal t.clock row.state } ∈ t.requests.rows)
      fun _ _ => False := by
  unfold retryRecordedCompletion verifyLeaderSession
  rw [yields_bind]
  refine calm_observe hcalm fun w₁ h₁ => ⟨(), leads_calm (h.moved h₁).named hsession
    (h.moved h₁).leader, ?_⟩
  have hr₁ := h.moved h₁
  simp only [yields_bind, yields_get, hr₁.slot, hincarnation, ne_eq, not_true_eq_false, if_false]
  -- The row is found by its id, and it is the row the completion names.
  have hterminal : row.state.terminal = false := by
    simp [RowState.terminal, RowState.unfinished_of_isRunning hr₁.running]
  unfold rereadPending requestById
  simp only [yields_bind]
  refine calm_observe h₁.script fun w₂ h₂ => ⟨some row, ?_, ?_⟩
  · have hr₂ := hr₁.moved h₂
    have hfound : w₂.requests.byId pending.request.id = some row := by
      rw [← hr₂.same.1]
      exact Requests.byId_of_mem hr₂.mem
    simp [hfound, verifyRequestRoot, verifyRoot, ensure, hr₂.named, hr₂.root]
    rfl
  · have hr₂ := hr₁.moved h₂
    simp only [yields_bind, yields_pure]
    refine yields_ensure.mpr ⟨fun _ => ?_, fun hnot => absurd hr₂.same hnot⟩
    simp only [hterminal, Bool.false_eq_true, if_false, yields_bind]
    refine yields_ensure.mpr ⟨fun _ => ?_, fun hnot => absurd hr₂.running hnot⟩
    rw [yields_attempt]
    unfold finishRequestOutcome verifyLeaderSession
    rw [yields_bind]
    refine Yields.mono (calm_observe h₂.script fun w₃ h₃ => ⟨(), leads_calm
      (hr₂.moved h₃).named hsession (hr₂.moved h₃).leader, ?_⟩) (fun _ _ hq => hq)
      fun _ _ => False.elim
    have hr₃ := hr₂.moved h₃
    refine Yields.mono (calm_transact h₃.script fun w₄ h₄ => ?_) (fun _ _ hq => hq)
      fun _ _ => False.elim
    have hr₄ := hr₃.moved h₄
    have hsel : finishes identity session pending.request row := by
      unfold finishes
      simp [hr₄.same.2.1, hr₄.running, hr₄.same.2.2.2, hincarnation, hr₄.root]
    have hcurrent : pending.outcome.stillCurrent w₄ = .ok () := by
      cases hout : pending.outcome with
      | failed code => rfl
      | done pin => simp [CompletionOutcome.stillCurrent, ensure, hr₄.head pin hout]; rfl
    refine ⟨⟨(), w₄.requests.update (finishes identity session pending.request)
      (pending.outcome.terminal w₄.clock), [.finished pending.request.seq pending.outcome]⟩, ?_, ?_⟩
    · have hone : (w₄.requests.select (finishes identity session pending.request)).length = 1 := by
        rw [select_finishes hr₄.mem hsel]
        rfl
      simp [finish, leads_calm hr₄.named hsession hr₄.leader, hcurrent, ensure, hone]
      rfl
    · exact ⟨rfl, rfl, Requests.mem_update_of hr₄.mem hsel⟩

/-! ### The rows behind it -/

/-- Nothing runs that did not run before. -/
def NoStart (w w' : World) : Prop :=
  ∀ r' ∈ w'.requests.rows, r'.state.isRunning →
    ∃ r ∈ w.requests.rows, r.state.isRunning ∧ r.seq = r'.seq

instance : Std.Refl NoStart := ⟨fun _ r hr hrun => ⟨r, hr, hrun, rfl⟩⟩

instance : IsTrans World NoStart := ⟨by
  intro w w' w'' h h' r'' hr'' hrun
  obtain ⟨r', hr', hrun', hseq'⟩ := h' r'' hr'' hrun
  obtain ⟨r, hr, hrun₀, hseq⟩ := h r' hr' hrun'
  exact ⟨r, hr, hrun₀, hseq.trans hseq'⟩⟩

theorem Moved.noStart (h : Moved w w') : NoStart w w' := by
  intro r hr hrun
  obtain ⟨new, hrows, hnew⟩ := h.requests
  rw [hrows] at hr
  rcases List.mem_append.mp hr with hr | hr
  · exact ⟨r, hr, hrun, rfl⟩
  · rw [hnew r hr] at hrun; cases hrun

theorem noStart_retryRecordedCompletion :
    Carries NoStart (retryRecordedCompletion identity session) := by
  refine retryRecordedCompletion_respects (fun _ _ => Moved.noStart) ?_
    fun w r hr hrun => ⟨r, hr, hrun, rfl⟩
  intro request outcome w done hdone r' hr' hrun
  obtain ⟨rfl, -, -⟩ := finish_ok hdone
  obtain ⟨r, hr, rfl⟩ := Requests.mem_update.mp hr'
  by_cases hsel : finishes identity session request r
  · have hun := RowState.unfinished_of_isRunning hrun
    rw [if_pos hsel, not_unfinished_terminal (finishes_running hsel)] at hun
    cases hun
  · rw [if_neg hsel] at hrun ⊢
    exact ⟨r, hr, hrun, rfl⟩

theorem Requests.Arrived.earliest {db db' : Requests} (h : db.Arrived db') {head : Request}
    (hhead : db.earliestUnfinished = some head) : db'.earliestUnfinished = some head := by
  obtain ⟨new, hrows, -⟩ := h
  unfold Requests.earliestUnfinished at hhead ⊢
  rw [hrows, List.find?_append, hhead]
  rfl

/-- **A leader that owns no running head claims the head.** -/
theorem claim_proceeds {head : Request} (hnamed : w.named = identity)
    (hsession : session.identity = identity) (hleader : w.leader = some session.incarnation)
    (hreconciled : w.reconciled = some session.incarnation) (hcalm : Calm w.script)
    (hhead : w.requests.earliestUnfinished = some head) (hroot : head.root = identity)
    (hfree : head.state.isRunning → head.state.claimIncarnation ≠ some session.incarnation) :
    Yields (claimRequest identity session) w
      (fun row _ => ∃ claimed, row = some claimed ∧ claimed.seq = head.seq)
      fun _ _ => False := by
  have hleads : ∀ w', CalmMoved w w' → leads identity session w' = .ok ()
      ∧ leadsReconciled identity session w' = .ok () := by
    intro w' hmoved
    have h := leads_calm (hmoved.named.trans hnamed) hsession
      (hmoved.moved.leader.trans hleader)
    refine ⟨h, ?_⟩
    simp [leadsReconciled, h, ensure, hmoved.moved.reconciled.trans hreconciled]
  unfold claimRequest
  rw [yields_bind]
  refine calm_observe hcalm fun w₁ h₁ => ⟨(), (hleads w₁ h₁).2, ?_⟩
  refine calm_transact h₁.script fun w₂ h₂ => ?_
  have hmoved := h₁.trans h₂
  have hfound := hmoved.moved.requests.earliest hhead
  have hmem := (Requests.earliestUnfinished_spec hfound).1
  have hun := (Requests.earliestUnfinished_spec hfound).2.1
  have hmine : ¬ (head.state.isRunning = true
      ∧ head.state.claimIncarnation = some session.incarnation) := fun h => hfree h.1 h.2
  have hverify : verifyRequestRoot identity (some head) w₂ = .ok () := by
    simp [verifyRequestRoot, verifyRoot, ensure, hmoved.named.trans hnamed, hroot]
    rfl
  obtain ⟨requests, hrequests⟩ : ∃ requests, requests = w₂.requests.update
      (fun r => r.seq = head.seq && r.state.unfinished)
      (fun _ => .running session.incarnation w₂.clock) := ⟨_, rfl⟩
  have hnew : { head with state := .running session.incarnation w₂.clock } ∈ requests.rows := by
    rw [hrequests]
    exact Requests.mem_update_of hmem (by simp [hun])
  have hclaim : claim identity session w₂
      = .ok ⟨requests.bySeq head.seq, requests, [.claimed head.seq]⟩ := by
    unfold claim
    rw [(hleads w₂ hmoved).1, hfound]
    show (verifyRequestRoot identity (some head) w₂ >>= fun _ => _) = _
    rw [hverify]
    show (if _ then _ else _) = _
    rw [if_neg hmine, (hleads w₂ hmoved).2, hrequests]
    rfl
  have hvalue : requests.bySeq head.seq
      = some { head with state := .running session.incarnation w₂.clock } :=
    Requests.bySeq_of_mem hnew
  exact ⟨_, hclaim, _, hvalue, rfl⟩

/-- The row that is owed is terminal after a retry: it was before, or the retry writes it. -/
theorem terminal_of_retry {w : World} (hserves : Serves identity session w)
    {pending : PendingCompletion} (howed : w.owedBy session = some pending)
    (hnamed : w.named = identity) {script : List Turn} (hcalm : Calm script)
    (hsession : session.identity = identity) (hleader : w.leader = some session.incarnation) :
    ∃ row ∈ (final (retryRecordedCompletion identity session)
        { w with script := script }).requests.rows,
      row.id = pending.request.id ∧ row.seq = pending.request.seq ∧ row.state.terminal := by
  obtain ⟨owed, -, -, hsome⟩ := hserves.books.ledger
  obtain ⟨-, ⟨row, hrow, hsame, hroot, hstands⟩, -⟩ := hsome pending howed
  obtain ⟨hslot, hincarnation⟩ := owedBy_some howed
  have hkept : row.state.terminal → ∃ row' ∈ (final (retryRecordedCompletion identity session)
      { w with script := script }).requests.rows,
      row'.id = pending.request.id ∧ row'.seq = pending.request.seq ∧ row'.state.terminal := by
    intro hterminal
    obtain ⟨row', hrow', -, heq⟩ := changes_evolves
      (carries_retryRecordedCompletion.final { w with script := script }) row hrow
    have heq := heq hterminal
    subst heq
    exact ⟨row', hrow', hsame.1, hsame.2.1, hterminal⟩
  cases hstands with
  | rootLost hcode =>
      apply hkept
      cases hst : row.state <;> simp_all [RowState.errorCode, RowState.terminal,
        RowState.unfinished]
  | written hmatch => exact hkept (CompletionOutcome.terminal_of_matchesTerminal hmatch)
  | running hrunning hhead =>
      have hresolvable : Resolvable identity session { w with script := script } pending row :=
        ⟨hnamed, hleader, hslot, hrow, hsame, hroot, hrunning, hhead⟩
      refine (Yields.mono (retry_resolves hsession hincarnation hresolvable hcalm) ?_
        fun _ _ => False.elim).final (P := fun t => ∃ row' ∈ t.requests.rows,
          row'.id = pending.request.id ∧ row'.seq = pending.request.seq ∧ row'.state.terminal)
      rintro _ t ⟨-, -, hmem⟩
      refine ⟨_, hmem, hsame.1, hsame.2.1, ?_⟩
      simp [RowState.terminal, not_unfinished_terminal hrunning]

/-- **A recorded completion can be resolved.**  After any passes of the daemon, and
whatever of them failed: a retry by the same leader whose own effects succeed
leaves the row terminal, and the leader then claims whatever row is next; and if
the leader was let go instead, its successor's claim takes the head. -/
theorem recorded_completion_resolves {w₀ w : World} (hfresh : Fresh session w₀)
    (hserving : ∀ s, w₀.serving = some s → s = session)
    (hrun : ReflTransGen (PassStep identity) w₀ w) {pending : PendingCompletion}
    (howed : w.owedBy session = some pending) (hnamed : w.named = identity) :
    (∀ script, Calm script → session.identity = identity →
      w.leader = some session.incarnation →
      (∃ row ∈ (final (retryRecordedCompletion identity session)
          { w with script := script }).requests.rows,
        row.id = pending.request.id ∧ row.seq = pending.request.seq ∧ row.state.terminal)
      ∧ ∀ t, t = final (retryRecordedCompletion identity session) { w with script := script } →
        ∀ next head, Calm next → t.named = identity →
        t.reconciled = some session.incarnation →
        t.requests.earliestUnfinished = some head → head.root = identity →
        Yields (claimRequest identity session) { t with script := next }
          (fun row _ => ∃ claimed, row = some claimed ∧ claimed.seq = head.seq)
          fun _ _ => False)
    ∧ ∀ successor script head, Calm script → successor.identity = identity →
        successor.incarnation ≠ session.incarnation →
        w.requests.earliestUnfinished = some head → head.root = identity →
        Yields (claimRequest identity successor) { w with
            leader := some successor.incarnation
            reconciled := some successor.incarnation
            script := script }
          (fun row _ => ∃ claimed, row = some claimed ∧ claimed.seq = head.seq)
          fun _ _ => False := by
  have hserves : Serves identity session w :=
    Runs.keeps_run (I := Serves identity session) (fun _ _ => passStep_serves) hrun
      ⟨hfresh.books, hserving⟩
  obtain ⟨owed, -, -, hsome⟩ := hserves.books.ledger
  obtain ⟨-, ⟨row, hrow, hsame, -, -⟩, halone⟩ := hsome pending howed
  obtain ⟨-, hincarnation⟩ := owedBy_some howed
  refine ⟨fun script hcalm hsession hleader => ?_, ?_⟩
  · have hresolved := terminal_of_retry hserves howed hnamed hcalm hsession hleader
    refine ⟨hresolved, ?_⟩
    rintro t rfl next head hnext htnamed htreconciled hhead hheadroot
    have hretried : Changes identity session { w with script := script }
        (final (retryRecordedCompletion identity session) { w with script := script }) :=
      carries_retryRecordedCompletion.final _
    have hlead := changes_leadership hretried
    refine claim_proceeds htnamed hsession (hlead.2.1.trans hleader) htreconciled hnext hhead
      hheadroot fun hheadrun => ?_
    -- A running head would be the row that was just seen terminal.
    exfalso
    obtain ⟨hheadmem, -, -⟩ := Requests.earliestUnfinished_spec hhead
    have hnoStart : NoStart { w with script := script }
        (final (retryRecordedCompletion identity session) { w with script := script }) :=
      noStart_retryRecordedCompletion.final _
    obtain ⟨r, hr, hrrun, hrseq⟩ := hnoStart head hheadmem hheadrun
    obtain ⟨row', hrow', -, hseq', hterminal'⟩ := hresolved
    have hsameRow := Requests.eq_of_seq hheadmem hrow'
      (hrseq.symm.trans ((halone r hr hrrun).trans hseq'.symm))
    subst hsameRow
    simp [RowState.terminal, RowState.unfinished_of_isRunning hheadrun] at hterminal'
  · intro successor script head hcalm hsuccessor hother hhead hheadroot
    refine claim_proceeds hnamed hsuccessor rfl rfl hcalm hhead hheadroot fun hheadrun hclaim => ?_
    -- Whatever runs here is the owed row, and the leader that is gone holds its claim.
    obtain ⟨hheadmem, -, -⟩ := Requests.earliestUnfinished_spec hhead
    have hsameRow := Requests.eq_of_seq hheadmem hrow
      ((halone head hheadmem hheadrun).trans hsame.2.1.symm)
    subst hsameRow
    rw [hsame.2.2.2, hincarnation] at hclaim
    exact hother (Option.some.inj hclaim).symm

/-- A pass over `oneRequest` that publishes and then loses its terminal write. -/
def owingPass : World :=
  final (queueTick ⟨1, 1⟩) { oneRequest with
    script := [{}, {}, { whether := false }] ++ List.replicate 20 {}
      ++ [{ fate := .fails ⟨.storageBusy, "SQLite lock contention", true, false⟩ }] }

theorem recorded_completion_resolves_owingPass :
    ∃ row ∈ (final (retryRecordedCompletion ⟨1, 1⟩ ⟨1, ⟨1, 1⟩⟩)
        { owingPass with script := [] }).requests.rows,
      row.id = 7 ∧ row.seq = 1 ∧ row.state.terminal := by
  have hfresh : Fresh ⟨1, ⟨1, 1⟩⟩ oneRequest := ⟨by unfold Requests.Fifo; decide, rfl, rfl⟩
  have hserving : ∀ s, oneRequest.serving = some s → s = ⟨1, ⟨1, 1⟩⟩ := by
    intro s hs
    exact (Option.some.inj hs).symm
  have hrequest : owingPass.owedBy ⟨1, ⟨1, 1⟩⟩
      = some ⟨⟨1, 7, ⟨1, 1⟩, ⟨1, 4096, none, none⟩, none, 0, .running 1 0⟩, .done ⟨5, 4⟩, 1⟩ := by
    decide +kernel
  have h := recorded_completion_resolves hfresh hserving (.single (.tick oneRequest _)) hrequest
    (by decide +kernel)
  exact (h.1 [] nofun rfl (by decide +kernel)).1

end Baleyg
