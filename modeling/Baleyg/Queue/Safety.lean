/-
The queue is first-in-first-out and its history only grows.

Two facts carry everything.  `Fifo`: a running row has the least sequence of all
unfinished rows — of *every* root's, since a claim looks at the whole table before
it checks the root — so at most one row runs at all.  `Evolves`: every row is
still there later, with the columns acceptance fixed, and a terminal row is there
unchanged.  Both are proved of the transaction bodies, one lemma a body, and reach
the operations through `Change`.

The last clause is about claims that are not held.  A terminal write leaves the
table alone unless the claim is held.  A requeue does not: it first fails the rows
of a changed root in a transaction of its own, and that transaction asks for no
claim at all.
-/
import Baleyg.Queue.Changes

namespace Baleyg

open Fallible Relation

namespace Requests

/-- **The head of the queue runs alone.** -/
def Fifo (db : Requests) : Prop :=
  ∀ r ∈ db.rows, r.state.isRunning → ∀ r' ∈ db.rows, r'.state.unfinished → r.seq ≤ r'.seq

/-- **Nothing accepted is lost, and nothing terminal changes.** -/
def Evolves (db db' : Requests) : Prop :=
  ∀ r ∈ db.rows, ∃ r' ∈ db'.rows, r.SameAccepted r' ∧ (r.state.terminal → r' = r)

instance : Std.Refl Evolves := ⟨fun _ r hr => ⟨r, hr, .refl r, fun _ => rfl⟩⟩

instance : IsTrans Requests Evolves := ⟨by
  intro db db' db'' h h' r hr
  obtain ⟨r', hr', hsame, hterminal⟩ := h r hr
  obtain ⟨r'', hr'', hsame', hterminal'⟩ := h' r' hr'
  refine ⟨r'', hr'', hsame.trans hsame', fun ht => ?_⟩
  have heq := hterminal ht
  subst heq
  exact hterminal' ht⟩

theorem Arrived.evolves {db db' : Requests} (h : db.Arrived db') : db.Evolves db' :=
  fun r hr => ⟨r, h.mem hr, .refl r, fun _ => rfl⟩

theorem Arrived.fifo {db db' : Requests} (h : db.Arrived db') (hfifo : db.Fifo) : db'.Fifo := by
  obtain ⟨new, hrows, hnew⟩ := h
  have hord := db'.ordered
  rw [hrows] at hord
  intro r hr hrun r' hr' hun
  rw [hrows] at hr hr'
  rcases List.mem_append.mp hr with hr | hr
  · rcases List.mem_append.mp hr' with hr' | hr'
    · exact hfifo r hr hrun r' hr' hun
    · exact Nat.le_of_lt ((List.pairwise_append.mp hord).2.2 r hr r' hr')
  · simp [hnew r hr, RowState.isRunning] at hrun

theorem evolves_update {db : Requests} {p : Request → Bool} {f : RowState → RowState}
    (hp : ∀ r ∈ db.rows, p r → r.state.unfinished) : db.Evolves (db.update p f) := by
  intro r hr
  refine ⟨_, mem_update.mpr ⟨r, hr, rfl⟩, ?_⟩
  by_cases hsel : p r
  · rw [if_pos hsel]
    exact ⟨⟨rfl, rfl, rfl, rfl, rfl, rfl⟩,
      fun ht => absurd (hp r hr hsel) (by simpa [RowState.terminal] using ht)⟩
  · rw [if_neg hsel]; exact ⟨.refl r, fun _ => rfl⟩

/-- **An UPDATE keeps the head**, provided it revives nothing and starts only a
row that was least among the unfinished. -/
theorem Fifo.update {db : Requests} {p : Request → Bool} {f : RowState → RowState}
    (hfifo : db.Fifo)
    (hrevive : ∀ r ∈ db.rows, p r → (f r.state).unfinished → r.state.unfinished)
    (hstart : ∀ r ∈ db.rows, p r → (f r.state).isRunning →
      ∀ r' ∈ db.rows, r'.state.unfinished → r.seq ≤ r'.seq) :
    (db.update p f).Fifo := by
  -- A row unfinished after the UPDATE was unfinished before it.
  have hbefore : ∀ r ∈ db.rows,
      (if p r then { r with state := f r.state } else r).state.unfinished →
        r.state.unfinished := by
    intro r hr hun
    by_cases hsel : p r
    · exact hrevive r hr hsel (by simpa [hsel] using hun)
    · simpa [hsel] using hun
  intro r hr hrun r' hr' hun
  obtain ⟨r₀, hr₀, rfl⟩ := mem_update.mp hr
  obtain ⟨r₀', hr₀', rfl⟩ := mem_update.mp hr'
  have hle : r₀.seq ≤ r₀'.seq := by
    by_cases hsel : p r₀
    · exact hstart r₀ hr₀ hsel (by simpa [hsel] using hrun) r₀' hr₀' (hbefore r₀' hr₀' hun)
    · exact hfifo r₀ hr₀ (by simpa [hsel] using hrun) r₀' hr₀' (hbefore r₀' hr₀' hun)
  have hseq : ∀ r : Request, (if p r then { r with state := f r.state } else r).seq = r.seq :=
    fun r => by split <;> rfl
  rw [hseq, hseq]
  exact hle

theorem Fifo.unique {db : Requests} (h : db.Fifo) {r r' : Request} (hr : r ∈ db.rows)
    (hr' : r' ∈ db.rows) (hrun : r.state.isRunning) (hrun' : r'.state.isRunning) : r = r' :=
  eq_of_seq hr hr' (Nat.le_antisymm
    (h r hr hrun r' hr' (RowState.unfinished_of_isRunning hrun'))
    (h r' hr' hrun' r hr (RowState.unfinished_of_isRunning hrun)))

end Requests

/-! ### What each transaction body does

One lemma for each body; whatever else an operation does is a chain of these.
-/

variable {w w' : World} {done : Written Unit} {identity : RootId} {session : LeaderSession}
  {r request : Request} {outcome : CompletionOutcome}

theorem enqueue_ok {client : RootId} {id : Nat} {options : ReconcileOptions}
    {expected : Option IndexPin} {done : Written Request}
    (h : enqueue client id options expected w = .ok done) :
    ∃ hid, done.requests = w.requests.insert id client options expected w.clock hid := by
  obtain ⟨_, -, h⟩ := bind_eq_ok.mp h
  split at h
  · rename_i hid
    cases h
    exact ⟨hid, rfl⟩
  · cases h

theorem failChangedRoot_ok {oldRoot : Bool} {done : Written (List Request)}
    (h : failChangedRoot identity session oldRoot w = .ok done) :
    done = ⟨w.requests.select (changedRoot identity oldRoot),
      w.requests.update (changedRoot identity oldRoot) (rootChanged session w.clock),
      [.rootChanged ((w.requests.select (changedRoot identity oldRoot)).map (·.seq))]⟩ := by
  obtain ⟨_, -, h⟩ := bind_eq_ok.mp h
  cases h
  rfl

/-- **A claim takes the head or nothing.** -/
theorem claim_ok {done : Written (Option Request)} (h : claim identity session w = .ok done) :
    done = ⟨none, w.requests, []⟩
      ∨ ∃ row, w.requests.earliestUnfinished = some row ∧ row.root = identity
        ∧ done.requests = w.requests.update (fun r => r.seq = row.seq && r.state.unfinished)
            (fun _ => .running session.incarnation w.clock)
        ∧ done.value = done.requests.bySeq row.seq
        ∧ done.events = [.claimed row.seq] := by
  obtain ⟨_, -, h⟩ := bind_eq_ok.mp h
  split at h
  · cases h; exact .inl rfl
  · rename_i row hrow
    obtain ⟨_, hroot, h⟩ := bind_eq_ok.mp h
    obtain ⟨_, -, hroot⟩ := bind_eq_ok.mp hroot
    split at h
    · cases h; exact .inl rfl
    · obtain ⟨_, -, h⟩ := bind_eq_ok.mp h
      cases h
      exact .inr ⟨row, hrow, ensure_eq_ok.mp hroot row rfl, rfl, rfl, rfl⟩

theorem finish_ok (h : finish identity session request outcome w = .ok done) :
    done = ⟨(), w.requests.update (finishes identity session request) (outcome.terminal w.clock),
        [.finished request.seq outcome]⟩
      ∧ (w.requests.select (finishes identity session request)).length = 1
      ∧ ∀ pin, outcome = .done pin → w.head = some pin := by
  obtain ⟨_, -, h⟩ := bind_eq_ok.mp h
  obtain ⟨_, hhead, h⟩ := bind_eq_ok.mp h
  obtain ⟨_, hone, h⟩ := bind_eq_ok.mp h
  cases h
  refine ⟨rfl, ensure_eq_ok.mp hone, ?_⟩
  rintro pin rfl
  exact ensure_eq_ok.mp hhead

theorem requeue_ok {observed : Request} (h : requeue identity session request observed w = .ok done) :
    done = ⟨(), w.requests.update (requeues session request) (fun _ => .queued),
        [.requeued request.seq]⟩
      ∧ (w.requests.select (requeues session request)).length = 1 := by
  obtain ⟨_, -, h⟩ := bind_eq_ok.mp h
  obtain ⟨_, -, h⟩ := bind_eq_ok.mp h
  obtain ⟨_, hone, h⟩ := bind_eq_ok.mp h
  cases h
  exact ⟨rfl, ensure_eq_ok.mp hone⟩

/-! ### Every change keeps the head and the history -/

theorem mem_select {db : Requests} {p : Request → Bool} : r ∈ db.select p ↔ r ∈ db.rows ∧ p r :=
  List.mem_filter

theorem finishes_running (h : finishes identity session request r) : r.state.isRunning := by
  unfold finishes at h
  grind

theorem requeues_running (h : requeues session request r) : r.state.isRunning := by
  unfold requeues at h
  grind

theorem not_unfinished_terminal {now : Nat} {state : RowState} (h : state.isRunning) :
    (outcome.terminal now state).unfinished = false := by
  cases state <;> cases outcome <;>
    simp_all [RowState.isRunning, CompletionOutcome.terminal, RowState.unfinished]

theorem change_evolves (h : Change identity session w w') : w.requests.Evolves w'.requests := by
  cases h with
  | outside h => exact h.requests.evolves
  | enqueued h =>
      obtain ⟨hid, hrequests⟩ := enqueue_ok h
      show w.requests.Evolves _
      rw [World.commit, hrequests]
      exact (w.requests.arrived_insert _ _ _ _ _ hid).evolves
  | rootFailed h =>
      obtain rfl := failChangedRoot_ok h
      refine Requests.evolves_update fun r _ hr => ?_
      simp only [changedRoot, Bool.and_eq_true] at hr
      exact hr.1
  | claimed h =>
      rcases claim_ok h with rfl | ⟨row, -, -, hrequests, -⟩
      · exact Std.Refl.refl _
      · show w.requests.Evolves _
        rw [World.commit, hrequests]
        refine Requests.evolves_update fun r _ hr => ?_
        simp only [Bool.and_eq_true] at hr
        exact hr.2
  | finished h =>
      obtain ⟨rfl, -, -⟩ := finish_ok h
      exact Requests.evolves_update fun r _ hr =>
        RowState.unfinished_of_isRunning (finishes_running hr)
  | requeued h =>
      obtain ⟨rfl, -⟩ := requeue_ok h
      exact Requests.evolves_update fun r _ hr =>
        RowState.unfinished_of_isRunning (requeues_running hr)
  | noted => exact Std.Refl.refl _

theorem change_fifo (h : Change identity session w w') (hfifo : w.requests.Fifo) :
    w'.requests.Fifo := by
  cases h with
  | outside h => exact h.requests.fifo hfifo
  | enqueued h =>
      obtain ⟨hid, hrequests⟩ := enqueue_ok h
      rw [World.commit, hrequests]
      exact (w.requests.arrived_insert _ _ _ _ _ hid).fifo hfifo
  | rootFailed h =>
      obtain rfl := failChangedRoot_ok h
      -- A failed row is neither unfinished nor running.
      exact hfifo.update (fun r _ _ hun => by cases hun) fun r _ _ hrun => by cases hrun
  | claimed h =>
      rcases claim_ok h with rfl | ⟨row, hhead, -, hrequests, -⟩
      · exact hfifo
      · rw [World.commit, hrequests]
        obtain ⟨hrow, -, hleast⟩ := Requests.earliestUnfinished_spec hhead
        refine hfifo.update (fun r _ hr _ => ?_) fun r _ hr _ r' hr' hun => ?_
        · simp only [Bool.and_eq_true] at hr
          exact hr.2
        · simp only [Bool.and_eq_true, decide_eq_true_eq] at hr
          rw [hr.1]
          exact hleast r' hr' hun
  | finished h =>
      obtain ⟨rfl, -, -⟩ := finish_ok h
      refine hfifo.update (fun r _ hr hun => ?_) fun r _ hr hrun => ?_
      · exact RowState.unfinished_of_isRunning (finishes_running hr)
      · have hun := RowState.unfinished_of_isRunning hrun
        rw [not_unfinished_terminal (finishes_running hr)] at hun
        cases hun
  | requeued h =>
      obtain ⟨rfl, -⟩ := requeue_ok h
      exact hfifo.update
        (fun r _ hr _ => RowState.unfinished_of_isRunning (requeues_running hr))
        fun r _ _ hrun => by cases hrun
  | noted => exact hfifo

theorem changes_fifo (h : Changes identity session w w') (hfifo : w.requests.Fifo) :
    w'.requests.Fifo :=
  Runs.keeps_run (I := fun w => w.requests.Fifo) (fun _ _ => change_fifo) h hfifo

theorem changes_evolves (h : Changes identity session w w') : w.requests.Evolves w'.requests := by
  induction h with
  | refl => exact Std.Refl.refl _
  | tail _ hlast ih => exact IsTrans.trans _ _ _ ih (change_evolves hlast)

/-! ### Claims that are not held -/

/-- No running row of this sequence is claimed by the session. -/
def Requests.Unheld (db : Requests) (session : LeaderSession) (request : Request) : Prop :=
  ∀ r ∈ db.rows, r.seq = request.seq → r.state.isRunning →
    r.state.claimIncarnation ≠ some session.incarnation

instance (db : Requests) (session : LeaderSession) (request : Request) :
    Decidable (db.Unheld session request) :=
  inferInstanceAs (Decidable (∀ r ∈ db.rows, _))

theorem Requests.Unheld.arrived {db db' : Requests} (h : db.Unheld session request)
    (harrived : db.Arrived db') : db'.Unheld session request := by
  obtain ⟨new, hrows, hnew⟩ := harrived
  intro r hr hseq hrun
  rw [hrows] at hr
  rcases List.mem_append.mp hr with hr | hr
  · exact h r hr hseq hrun
  · simp [hnew r hr, RowState.isRunning] at hrun

theorem finish_unheld (h : w.requests.Unheld session request) :
    finish identity session request outcome w ≠ .ok done := by
  intro hdone
  obtain ⟨-, hone, -⟩ := finish_ok hdone
  obtain ⟨r, hr⟩ := List.length_eq_one_iff.mp hone
  obtain ⟨hmem, hsel⟩ := mem_select.mp (hr ▸ List.mem_singleton_self r :
    r ∈ w.requests.select (finishes identity session request))
  have hrun := finishes_running hsel
  unfold finishes at hsel
  simp only [Bool.and_eq_true, decide_eq_true_eq] at hsel
  exact h r hmem hsel.1.1.1 hrun hsel.1.2

theorem requeue_unheld {observed : Request} (h : w.requests.Unheld session request) :
    requeue identity session request observed w ≠ .ok done := by
  intro hdone
  obtain ⟨-, hone⟩ := requeue_ok hdone
  obtain ⟨r, hr⟩ := List.length_eq_one_iff.mp hone
  obtain ⟨hmem, hsel⟩ := mem_select.mp (hr ▸ List.mem_singleton_self r :
    r ∈ w.requests.select (requeues session request))
  have hrun := requeues_running hsel
  unfold requeues at hsel
  simp only [Bool.and_eq_true, decide_eq_true_eq] at hsel
  exact h r hmem hsel.1.1.1.1 hrun hsel.1.2

/-- **A terminal write without the claim changes nothing.** -/
theorem finishRequestOutcome_unheld (h : w.requests.Unheld session request) :
    Moved w (final (finishRequestOutcome identity session request outcome) w) := by
  refine Yields.final (P := Moved w) ?_
  rw [finishRequestOutcome, yields_bind]
  refine yields_observe (fun _ w₁ h₁ _ => ?_) fun _ _ h₁ => h₁
  refine yields_transact (fun done w₂ h₂ hdone => ?_) (fun _ done w₂ h₂ hdone => ?_)
    fun _ w₂ h₂ => h₁.trans h₂
  · exact absurd hdone (finish_unheld (h.arrived (h₁.trans h₂).requests))
  · exact absurd hdone (finish_unheld (h.arrived (h₁.trans h₂).requests))

def OnlyRootFailed (identity : RootId) (session : LeaderSession) (w w' : World) : Prop :=
  ∀ r ∈ w.requests.rows, r ∈ w'.requests.rows
    ∨ ∃ oldRoot now, changedRoot identity oldRoot r
      ∧ { r with state := rootChanged session now r.state } ∈ w'.requests.rows

theorem OnlyRootFailed.moved {w'' : World} (h : OnlyRootFailed identity session w w')
    (hmoved : Moved w' w'') : OnlyRootFailed identity session w w'' := by
  intro r hr
  rcases h r hr with hr' | ⟨oldRoot, now, hchanged, hr'⟩
  · exact .inl (hmoved.requests.mem hr')
  · exact .inr ⟨oldRoot, now, hchanged, hmoved.requests.mem hr'⟩

theorem Moved.onlyRootFailed (h : Moved w w') : OnlyRootFailed identity session w w' :=
  fun _ hr => .inl (h.requests.mem hr)

/-- `fail_changed_root_requests` fails rows and does nothing else; in particular it
makes no claim of the session's run. -/
theorem failChangedRootRequests_yields (h : w.requests.Unheld session request) :
    Yields (failChangedRootRequests identity session) w
      (fun _ w' => OnlyRootFailed identity session w w' ∧ w'.requests.Unheld session request)
      fun _ w' => OnlyRootFailed identity session w w' ∧ w'.requests.Unheld session request := by
  -- What holds before the transaction, after its commit, and after the reread.
  have hbefore : ∀ w', Moved w w' →
      OnlyRootFailed identity session w w' ∧ w'.requests.Unheld session request :=
    fun w' hmoved => ⟨hmoved.onlyRootFailed, h.arrived hmoved.requests⟩
  have hafter : ∀ oldRoot done w', Moved w w' →
      failChangedRoot identity session oldRoot w' = .ok done →
        OnlyRootFailed identity session w (w'.commit done)
          ∧ (w'.commit done).requests.Unheld session request := by
    intro oldRoot done w' hmoved hdone
    obtain rfl := failChangedRoot_ok hdone
    refine ⟨fun r hr => ?_, fun r hr hseq hrun => ?_⟩
    · have hr' := hmoved.requests.mem hr
      by_cases hchanged : changedRoot identity oldRoot r
      · exact .inr ⟨oldRoot, w'.clock, hchanged, Requests.mem_update_of hr' hchanged⟩
      · exact .inl (Requests.mem_update_of_not hr' (by simpa using hchanged))
    · obtain ⟨r₀, hr₀, rfl⟩ := Requests.mem_update.mp hr
      by_cases hchanged : changedRoot identity oldRoot r₀
      · simp [hchanged, rootChanged, RowState.isRunning] at hrun
      · simp only [hchanged, if_false, Bool.false_eq_true] at hseq hrun ⊢
        exact (h.arrived hmoved.requests) r₀ hr₀ hseq hrun
  unfold failChangedRootRequests rootPathReplaced
  simp only [yields_bind]
  refine yields_observe (fun oldRoot w₁ h₁ _ => ?_) fun _ w₁ h₁ => hbefore w₁ h₁
  refine yields_observe (fun _ w₂ h₂ _ => ?_) fun _ w₂ h₂ => hbefore w₂ (h₁.trans h₂)
  have h₁₂ := h₁.trans h₂
  refine yields_transact (fun done w₃ h₃ hdone => ?_)
    (fun _ done w₃ h₃ hdone => hafter oldRoot done w₃ (h₁₂.trans h₃) hdone)
    fun _ w₃ h₃ => hbefore w₃ (h₁₂.trans h₃)
  obtain ⟨honly, hunheld⟩ := hafter oldRoot done w₃ (h₁₂.trans h₃) hdone
  exact yields_observe (fun _ w₄ h₄ _ => ⟨honly.moved h₄, hunheld.arrived h₄.requests⟩)
    fun _ w₄ h₄ => ⟨honly.moved h₄, hunheld.arrived h₄.requests⟩

/-- **A requeue without the claim requeues nothing**: only its embedded root check
may have failed rows. -/
theorem requeueBusyClaim_unheld {before : Option IndexPin} (h : w.requests.Unheld session request) :
    OnlyRootFailed identity session w
      (final (requeueBusyClaim identity session request before) w) := by
  refine Yields.final (P := OnlyRootFailed identity session w) ?_
  unfold requeueBusyClaim verifyLeaderSession recoveryIndexBaseline requestById
  simp only [yields_bind]
  refine yields_observe (fun _ w₁ h₁ _ => ?_) fun _ _ h₁ => h₁.onlyRootFailed
  have hlift : ∀ {w'}, OnlyRootFailed identity session w₁ w' →
      OnlyRootFailed identity session w w' := fun ho r hr => ho r (h₁.requests.mem hr)
  refine Yields.mono (failChangedRootRequests_yields (h.arrived h₁.requests)) ?_
    fun _ _ h => hlift h.1
  rintro _ w₂ ⟨honly, hunheld⟩
  replace honly := hlift honly
  refine yields_observe (fun current w₃ h₃ _ => ?_) fun _ _ h₃ => honly.moved h₃
  refine yields_observe (fun row w₄ h₄ _ => ?_) fun _ _ h₄ => honly.moved (h₃.trans h₄)
  have h₃₄ := h₃.trans h₄
  cases row with
  | none => exact honly.moved h₃₄
  | some observed =>
      simp only [yields_bind]
      refine yields_observe (fun _ w₅ h₅ _ => ?_) fun _ _ h₅ => honly.moved (h₃₄.trans h₅)
      have hkept := honly.moved (h₃₄.trans h₅)
      refine yields_ensure.mpr ⟨fun _ => ?_, fun _ => hkept⟩
      split
      · exact yields_ensure.mpr ⟨fun _ => hkept, fun _ => hkept⟩
      · simp only [yields_bind]
        refine yields_ensure.mpr ⟨fun _ => yields_ensure.mpr ⟨fun _ => ?_, fun _ => hkept⟩,
          fun _ => hkept⟩
        refine yields_ensure.mpr ⟨fun _ => ?_, fun _ => hkept⟩
        refine yields_transact (fun done w₆ h₆ hdone => ?_) (fun _ done w₆ h₆ hdone => ?_)
          fun _ w₆ h₆ => hkept.moved h₆
        · exact absurd hdone (requeue_unheld (hunheld.arrived ((h₃₄.trans h₅).trans h₆).requests))
        · exact absurd hdone (requeue_unheld (hunheld.arrived ((h₃₄.trans h₅).trans h₆).requests))

/-! ### The queue under any clients and any leaders -/

/-- **One step of the queue**: an operation of some process, run on any script, or
a leader dying, taking over, or publishing. -/
inductive QueueStep : World → World → Prop
  | enqueue (w : World) (identity workspaceRoot : RootId) (id : Nat) (options : ReconcileOptions)
      (expected : Option IndexPin) (script : List Turn) :
      QueueStep w (final (enqueueRequest identity workspaceRoot id options expected)
        { w with script := script })
  | claim (w : World) (identity : RootId) (session : LeaderSession) (script : List Turn) :
      QueueStep w (final (claimRequest identity session) { w with script := script })
  | requeue (w : World) (identity : RootId) (session : LeaderSession) (request : Request)
      (before : Option IndexPin) (script : List Turn) :
      QueueStep w (final (requeueBusyClaim identity session request before)
        { w with script := script })
  | finish (w : World) (identity : RootId) (session : LeaderSession) (request : Request)
      (outcome : CompletionOutcome) (script : List Turn) :
      QueueStep w (final (finishRequestOutcome identity session request outcome)
        { w with script := script })
  | failChanged (w : World) (identity : RootId) (session : LeaderSession) (script : List Turn) :
      QueueStep w (final (failChangedRootRequests identity session) { w with script := script })
  | outside (w : World) (move : Outside) : QueueStep w (w.outside move)
  /-- The leader process dies or lets go; its completion slot goes with it. -/
  | died (w : World) : QueueStep w { w with leader := none, slot := none }
  /-- A strictly newer incarnation, once nobody leads. -/
  | takeover (w : World) (incarnation : Incarnation) (hfree : w.leader = none)
      (hnewer : w.newest < incarnation) :
      QueueStep w { w with leader := some incarnation, newest := incarnation }
  /-- The leader publishes, and its mandatory publication is attested. -/
  | published (w : World) (incarnation : Incarnation) (pin : IndexPin)
      (hleads : w.leader = some incarnation) :
      QueueStep w { w with head := some pin, reconciled := some incarnation }

def World.Fresh (w : World) : Prop :=
  w.requests.rows = [] ∧ w.leader = none ∧ w.slot = none

theorem queueStep_changes (h : QueueStep w w') :
    ∃ identity session w₀, w₀.requests = w.requests ∧ Changes identity session w₀ w' := by
  cases h with
  | enqueue identity workspaceRoot id options expected script =>
      exact ⟨identity, ⟨0, identity⟩, { w with script := script }, rfl,
        (carries_enqueueRequest identity workspaceRoot id options expected).final _⟩
  | claim identity session script =>
      exact ⟨identity, session, { w with script := script }, rfl, carries_claimRequest.final _⟩
  | requeue identity session request before script =>
      exact ⟨identity, session, { w with script := script }, rfl,
        (carries_requeueBusyClaim request before).final _⟩
  | finish identity session request outcome script =>
      exact ⟨identity, session, { w with script := script }, rfl,
        (carries_finishRequestOutcome request outcome).final _⟩
  | failChanged identity session script =>
      exact ⟨identity, session, { w with script := script }, rfl,
        carries_failChangedRootRequests.final _⟩
  | outside move =>
      exact ⟨w.named, ⟨0, w.named⟩, w, rfl, .single (.outside (moved_outside w move))⟩
  | died =>
      exact ⟨w.named, ⟨0, w.named⟩, { w with leader := none, slot := none }, rfl, .refl⟩
  | takeover incarnation =>
      exact ⟨w.named, ⟨0, w.named⟩, { w with leader := some incarnation, newest := incarnation },
        rfl, .refl⟩
  | published incarnation pin =>
      exact ⟨w.named, ⟨0, w.named⟩,
        { w with head := some pin, reconciled := some incarnation }, rfl, .refl⟩

theorem queueStep_fifo (h : QueueStep w w') (hfifo : w.requests.Fifo) : w'.requests.Fifo := by
  obtain ⟨identity, session, w₀, hsame, hchanges⟩ := queueStep_changes h
  exact changes_fifo hchanges (hsame ▸ hfifo)

theorem queueStep_evolves (h : QueueStep w w') : w.requests.Evolves w'.requests := by
  obtain ⟨identity, session, w₀, hsame, hchanges⟩ := queueStep_changes h
  exact hsame ▸ changes_evolves hchanges

theorem reachable_fifo (h : Runs.Reachable World.Fresh QueueStep w) : w.requests.Fifo :=
  h.keeps (I := fun w => w.requests.Fifo)
    (fun w hfresh r hr => by rw [hfresh.1] at hr; cases hr) fun _ _ => queueStep_fifo

theorem run_evolves (h : ReflTransGen QueueStep w w') : w.requests.Evolves w'.requests := by
  induction h with
  | refl => exact Std.Refl.refl _
  | tail _ hlast ih => exact IsTrans.trans _ _ _ ih (queueStep_evolves hlast)

/-! ### The queue's safety -/

/-- **Request queue safety**, in every reachable world: at most one row runs, and
it is the least unfinished; every later world still has every row, and the
terminal ones unchanged; a terminal write without the claim changes nothing; and a
requeue without it changes no row its embedded root check does not fail. -/
theorem queue_safety {w : World} (hw : Runs.Reachable World.Fresh QueueStep w) :
    (∀ r ∈ w.requests.rows, r.state.isRunning →
      ∀ r' ∈ w.requests.rows, (r'.state.isRunning → r' = r)
        ∧ (r'.state.unfinished → r.seq ≤ r'.seq))
    ∧ (∀ w', ReflTransGen QueueStep w w' →
      ∀ r ∈ w.requests.rows, ∃ r' ∈ w'.requests.rows,
        r.SameAccepted r' ∧ (r.state.terminal → r' = r))
    ∧ (∀ identity session request outcome script, w.requests.Unheld session request →
      w.requests.Arrived (final (finishRequestOutcome identity session request outcome)
        { w with script := script }).requests)
    ∧ ∀ identity session request before script, w.requests.Unheld session request →
      OnlyRootFailed identity session w
        (final (requeueBusyClaim identity session request before)
          { w with script := script }) := by
  have hfifo := reachable_fifo hw
  refine ⟨fun r hr hrun r' hr' => ⟨fun hrun' => hfifo.unique hr' hr hrun' hrun,
    hfifo r hr hrun r' hr'⟩, fun w' hrun => run_evolves hrun, ?_, ?_⟩
  · intro identity session request outcome script hunheld
    exact (finishRequestOutcome_unheld (w := { w with script := script }) hunheld).requests
  · intro identity session request before script hunheld
    exact requeueBusyClaim_unheld (w := { w with script := script }) hunheld

/-- A world before anything, whose pathname names `root`. -/
def World.start (root : RootId) : World :=
  ⟨.empty, none, root, 0, none, 0, none, none, none, [], []⟩

/-- A request is accepted for one directory, the pathname then comes to name
another, and a leader of the other takes over. -/
def strayRow : World :=
  let old : RootId := ⟨1, 2⟩
  let accepted := final (enqueueRequest old old 7 ⟨1, 4096, none, none⟩ none) (World.start old)
  { accepted.outside (.renamed ⟨1, 1⟩) with leader := some 1, newest := 1 }

theorem strayRow_reachable : Runs.Reachable World.Fresh QueueStep strayRow := by
  refine ⟨World.start ⟨1, 2⟩, ⟨rfl, rfl, rfl⟩, ?_⟩
  refine .tail (.tail (.tail .refl (.enqueue _ ⟨1, 2⟩ ⟨1, 2⟩ 7 ⟨1, 4096, none, none⟩ none []))
    (.outside _ (.renamed ⟨1, 1⟩))) ?_
  exact .takeover _ 1 rfl (by decide)

/-- **A requeue without the claim can change a row**: the leader of the new
directory requeues a row it never claimed, and the row ends failed. -/
theorem requeue_without_claim_changes_row :
    ¬ ∀ w, Runs.Reachable World.Fresh QueueStep w →
      ∀ identity session request before script,
        (∀ r ∈ w.requests.rows, r.seq = request.seq →
          r.state.claimIncarnation ≠ some session.incarnation) →
        (final (requeueBusyClaim identity session request before)
          { w with script := script }).requests.rows = w.requests.rows := by
  intro h
  have hsame := h strayRow strayRow_reachable ⟨1, 1⟩ ⟨1, ⟨1, 1⟩⟩
    ⟨1, 7, ⟨1, 2⟩, ⟨1, 4096, none, none⟩, none, 0, .queued⟩ none [] (by decide)
  exact absurd hsame (by decide)

theorem queue_safety_strayRow :
    (∀ w', ReflTransGen QueueStep strayRow w' →
      ∃ r' ∈ w'.requests.rows, r'.id = 7 ∧ r'.root = ⟨1, 2⟩)
    ∧ OnlyRootFailed ⟨1, 1⟩ ⟨1, ⟨1, 1⟩⟩ strayRow
        (final (requeueBusyClaim ⟨1, 1⟩ ⟨1, ⟨1, 1⟩⟩
          ⟨1, 7, ⟨1, 2⟩, ⟨1, 4096, none, none⟩, none, 0, .queued⟩ none) strayRow) := by
  obtain ⟨-, hlater, -, hrequeue⟩ := queue_safety strayRow_reachable
  refine ⟨fun w' hrun => ?_, hrequeue _ _ _ _ [] (by decide)⟩
  obtain ⟨r', hr', hsame, -⟩ := hlater w' hrun
    ⟨1, 7, ⟨1, 2⟩, ⟨1, 4096, none, none⟩, none, 0, .queued⟩ (by decide)
  exact ⟨r', hr', hsame.id, hsame.root⟩

end Baleyg
