/-
What an indexing process works against.

A queue operation is a sequence of short effects — a leader check, a read of the
table, one `BEGIN IMMEDIATE … COMMIT` — and between any two of them the rest of
the machine may move: another client's row is accepted, the workspace pathname
comes to name a different directory, the clock ticks.  Each effect can also fail
on its own, and a COMMIT can fail *after* it took effect.

All of that is the `script`: one `Turn` per effect, saying what happened outside
just before it and how the effect itself fares.  A theorem about an operation
quantifies over the whole world, script included, and so over every interleaving
and every fault.  `log` is a ghost: no operation reads it.
-/
import Baleyg.Lib.Fallible
import Baleyg.Queue.Row

namespace Baleyg

/-! ### Errors -/

/-- The word an error text starts with, as far as the code looks at it. -/
inductive Word where
  | storageBusy
  | revisionConflict
  | rootChanged
  | indexNotReady
  | other
  deriving DecidableEq, Repr

def Word.text : Word → String
  | storageBusy => "storage_busy"
  | revisionConflict => "revision conflict"
  | rootChanged => "root_changed"
  | indexNotReady => "index_not_ready"
  | other => ""

/-- An `anyhow::Error` as the queue inspects it: its text, and which typed causes
its chain holds. -/
structure Failure where
  word : Word
  detail : String
  /-- A `StorageBusy`, a `SqliteContention` or a raw SQLite BUSY or LOCKED. -/
  contention : Bool := false
  /-- A `WorkspaceInventoryDrift`. -/
  drift : Bool := false
  deriving DecidableEq, Repr

/-- An error with no typed cause. -/
def fault (word : Word) (detail : String) : Failure := ⟨word, detail, false, false⟩

namespace Failure

def text (e : Failure) : String :=
  if e.word = .other then e.detail else e.word.text ++ ": " ++ e.detail

def transientStorageContention (e : Failure) : Bool :=
  e.contention || (e.word = .storageBusy
    && (e.detail = "SQLite lock contention" || e.detail = "index journal sidecar present"
      || e.detail = "requests.db initialization in progress"))

def nonterminalStorageBusy (e : Failure) : Bool :=
  e.transientStorageContention || e.word = .storageBusy

end Failure

/-! ### Completions -/

/-- The result a request's row is to be finished with. -/
inductive CompletionOutcome where
  | done (pin : IndexPin)
  | failed (code : ErrorCode)
  deriving DecidableEq, Repr

namespace CompletionOutcome

def fromResult : Except Failure IndexPin → Except Failure CompletionOutcome
  | .ok pin => .ok (.done pin)
  | .error e =>
      if e.nonterminalStorageBusy then .error e
      else if e.word = .revisionConflict then .ok (.failed .revisionConflict)
      else .ok (.failed .indexFailed)

def matchesTerminal (outcome : CompletionOutcome) (state : RowState) : Bool :=
  match outcome, state with
  | .done pin, .done _ _ _ pin' => pin' = pin
  | .failed code, .failed _ _ _ code' => code' = code
  | _, _ => false

/-- The terminal columns an outcome writes over a running row's. -/
def terminal (outcome : CompletionOutcome) (now : Nat) : RowState → RowState
  | .running claim startedAt =>
      match outcome with
      | .done pin => .done claim startedAt now pin
      | .failed code => .failed claim startedAt now code
  | state => state

/-- **A recorded failure is never the code a changed root writes.** -/
theorem fromResult_ne_rootChanged {result : Except Failure IndexPin}
    {outcome : CompletionOutcome} (h : fromResult result = .ok outcome) :
    outcome ≠ .failed .rootChanged := by
  unfold fromResult at h
  split at h
  · cases h; simp
  · split at h
    · cases h
    · split at h <;> (cases h; simp)

theorem fromResult_done {result : Except Failure IndexPin} {pin : IndexPin}
    (h : fromResult result = .ok (.done pin)) : result = .ok pin := by
  unfold fromResult at h
  split at h
  · cases h; rfl
  · split at h
    · cases h
    · split at h <;> cases h

theorem matchesTerminal_terminal (outcome : CompletionOutcome) (now : Nat) {state : RowState}
    (h : state.isRunning) : outcome.matchesTerminal (outcome.terminal now state) := by
  cases state <;> cases outcome <;> simp_all [RowState.isRunning, terminal, matchesTerminal]

theorem terminal_of_matchesTerminal {outcome : CompletionOutcome} {state : RowState}
    (h : outcome.matchesTerminal state) : state.terminal := by
  cases outcome <;> cases state <;>
    simp_all [matchesTerminal, RowState.terminal, RowState.unfinished]

end CompletionOutcome

/-- `PendingCompletion`: an executed head whose terminal write is still owed. -/
structure PendingCompletion where
  request : Request
  outcome : CompletionOutcome
  incarnation : Incarnation
  deriving DecidableEq, Repr

/-! ### The world -/

/-- A leader session: an incarnation, and the root identity it captured. -/
structure LeaderSession where
  incarnation : Incarnation
  identity : RootId
  deriving DecidableEq, Repr

/-- A step of somebody else. -/
inductive Outside where
  | renamed (root : RootId)
  /-- Another client's `enqueue_request` committed. -/
  | enqueued (id : Nat) (options : ReconcileOptions) (expected : Option IndexPin)
  | ticked (millis : Nat)
  deriving Repr

inductive Fate where
  | passes
  /-- It fails and leaves nothing behind: a busy BEGIN, a failed statement. -/
  | fails (e : Failure)
  /-- It takes effect and still reports an error: an ambiguous COMMIT. -/
  | lost (e : Failure)
  deriving Repr

structure Turn where
  moves : List Outside := []
  fate : Fate := .passes
  /-- The fresh generation, where a publication in this turn rebaselines. -/
  rebaseline : Option Nat := none
  /-- What a condition nothing here decides (a retry deadline, a watcher batch, the
  comparison of a capture) turns out to be. -/
  whether : Bool := true
  deriving Repr

/-- What happened, in order; written by the operations and read by none. -/
inductive Event where
  | claimed (seq : Nat)
  | captured (seq : Nat)
  | requeued (seq : Nat)
  | recorded (seq : Nat) (outcome : CompletionOutcome)
  | finished (seq : Nat) (outcome : CompletionOutcome)
  | rootChanged (seqs : List Nat)
  deriving DecidableEq, Repr

structure World where
  requests : Requests
  /-- The committed publication's pin, as `recovery_index_baseline` reads it. -/
  head : Option IndexPin
  named : RootId
  clock : Nat
  leader : Option Incarnation
  /-- The newest incarnation ever drawn. -/
  newest : Incarnation
  /-- `reconciled_leader`: the incarnation whose mandatory publication is attested. -/
  reconciled : Option Incarnation
  /-- `pending_request_completion`. -/
  slot : Option PendingCompletion
  /-- The daemon's `serving_session`. -/
  serving : Option LeaderSession
  script : List Turn
  log : List Event

namespace World

def outside (w : World) : Outside → World
  | .renamed root => { w with named := root }
  | .enqueued id options expected =>
      -- `id TEXT NOT NULL UNIQUE`: a reused id is not accepted.
      if hid : ∀ r ∈ w.requests.rows, r.id ≠ id then
        { w with requests := w.requests.insert id w.named options expected w.clock hid }
      else w
  | .ticked millis => { w with clock := w.clock + millis }

def outsides (w : World) (moves : List Outside) : World :=
  moves.foldl outside w

def nextPin (w : World) (rebaseline : Option Nat) : IndexPin :=
  match rebaseline, w.head with
  | none, some pin => ⟨pin.indexGeneration, pin.indexRevision + 1⟩
  | some generation, _ => ⟨generation, 1⟩
  | none, none => ⟨0, 1⟩

end World

/-! ### Effects -/

open Fallible

abbrev Act := EStateM Failure World

/-- Take the next turn: the outside moves, and the effect learns its fate.  Past
the end of the script nothing moves and nothing fails. -/
def turn : Act Turn := do
  let w ← get
  match w.script with
  | [] => return {}
  | t :: rest =>
      set ({ w with script := rest }.outsides t.moves)
      return t

def observe (read : World → Except Failure α) : Act α := do
  let t ← turn
  match t.fate with
  | .fails e | .lost e => throw e
  | .passes =>
      match read (← get) with
      | .ok a => return a
      | .error e => throw e

def whether : Act Bool := do
  let t ← turn
  match t.fate with
  | .fails e | .lost e => throw e
  | .passes => return t.whether

structure Written (α : Type) where
  value : α
  requests : Requests
  events : List Event

def World.commit (w : World) (done : Written α) : World :=
  { w with requests := done.requests, log := w.log ++ done.events }

/-- One `BEGIN IMMEDIATE … COMMIT` on `requests.db`: the body sees one state of
the world, and either everything it wrote is committed or nothing is. -/
def transact (body : World → Except Failure (Written α)) : Act α := do
  let t ← turn
  let w ← get
  match t.fate, body w with
  | .fails e, _ | _, .error e => throw e
  | .passes, .ok done =>
      set (w.commit done)
      return done.value
  | .lost e, .ok done =>
      set (w.commit done)
      throw e

/-! ### What the outside can do

Everything an operation does not do itself comes down to one relation: other
clients' rows may have been appended, all still queued, and the pathname and the
clock may have moved.
-/

/-- Rows were accepted behind the ones already there. -/
def Requests.Arrived (db db' : Requests) : Prop :=
  ∃ new, db'.rows = db.rows ++ new ∧ ∀ r ∈ new, r.state = .queued

theorem Requests.Arrived.refl (db : Requests) : db.Arrived db :=
  ⟨[], by simp, by simp⟩

theorem Requests.Arrived.trans {db db' db'' : Requests} (h : db.Arrived db') (h' : db'.Arrived db'') :
    db.Arrived db'' := by
  obtain ⟨new, hrows, hnew⟩ := h
  obtain ⟨new', hrows', hnew'⟩ := h'
  refine ⟨new ++ new', by rw [hrows', hrows, List.append_assoc], fun r hr => ?_⟩
  rcases List.mem_append.mp hr with hr | hr
  · exact hnew r hr
  · exact hnew' r hr

theorem Requests.Arrived.mem {db db' : Requests} (h : db.Arrived db') {r : Request}
    (hr : r ∈ db.rows) : r ∈ db'.rows := by
  obtain ⟨new, hrows, -⟩ := h
  rw [hrows]
  exact List.mem_append_left _ hr

theorem Requests.arrived_insert (db : Requests) (id : Nat) (root : RootId)
    (options : ReconcileOptions) (expected : Option IndexPin) (submittedAt : Nat)
    (hid : ∀ r ∈ db.rows, r.id ≠ id) :
    db.Arrived (db.insert id root options expected submittedAt hid) :=
  ⟨[⟨db.issued + 1, id, root, options, expected, submittedAt, .queued⟩], rfl, by simp⟩

/-- **Only the outside moved.** -/
structure Moved (w w' : World) : Prop where
  requests : w.requests.Arrived w'.requests
  head : w'.head = w.head
  leader : w'.leader = w.leader
  newest : w'.newest = w.newest
  reconciled : w'.reconciled = w.reconciled
  slot : w'.slot = w.slot
  serving : w'.serving = w.serving
  log : w'.log = w.log

theorem Moved.refl (w : World) : Moved w w :=
  ⟨.refl _, rfl, rfl, rfl, rfl, rfl, rfl, rfl⟩

variable {w : World} {Q : α → World → Prop} {E : Failure → World → Prop}
  {body : World → Except Failure (Written α)}

theorem Moved.trans {w' w'' : World} (h : Moved w w') (h' : Moved w' w'') : Moved w w'' :=
  ⟨h.requests.trans h'.requests, h'.head.trans h.head, h'.leader.trans h.leader,
    h'.newest.trans h.newest, h'.reconciled.trans h.reconciled, h'.slot.trans h.slot,
    h'.serving.trans h.serving, h'.log.trans h.log⟩

theorem moved_script (w : World) (script : List Turn) : Moved w { w with script := script } :=
  ⟨.refl _, rfl, rfl, rfl, rfl, rfl, rfl, rfl⟩

theorem moved_outside (w : World) (move : Outside) : Moved w (w.outside move) := by
  cases move with
  | renamed | ticked => exact ⟨.refl _, rfl, rfl, rfl, rfl, rfl, rfl, rfl⟩
  | enqueued id options expected =>
      rw [World.outside]
      split
      · rename_i hid
        exact ⟨w.requests.arrived_insert _ _ _ _ _ hid, rfl, rfl, rfl, rfl, rfl, rfl, rfl⟩
      · exact .refl w

theorem moved_outsides (w : World) (moves : List Outside) : Moved w (w.outsides moves) := by
  induction moves generalizing w with
  | nil => exact .refl w
  | cons move moves ih => exact (moved_outside w move).trans (ih (w.outside move))

/-! ### The rules of the effects -/

theorem yields_turn {Q : Turn → World → Prop} (h : ∀ t w', Moved w w' → Q t w') :
    Yields turn w Q E := by
  unfold turn
  simp only [yields_bind, yields_get]
  split
  · exact h _ _ (.refl w)
  · rename_i t rest hscript
    simp only [yields_bind, yields_set, yields_pure]
    exact h t _ ((moved_script w rest).trans (moved_outsides _ _))

theorem yields_observe {read : World → Except Failure α}
    (hQ : ∀ a w', Moved w w' → read w' = .ok a → Q a w') (hE : ∀ e w', Moved w w' → E e w') :
    Yields (observe read) w Q E := by
  unfold observe
  rw [yields_bind]
  refine yields_turn fun t w' hmoved => ?_
  split
  · exact hE _ _ hmoved
  · exact hE _ _ hmoved
  · simp only [yields_bind, yields_get]
    split
    · rename_i a ha
      exact hQ a w' hmoved ha
    · exact hE _ _ hmoved

theorem yields_whether {Q : Bool → World → Prop} (hQ : ∀ b w', Moved w w' → Q b w')
    (hE : ∀ e w', Moved w w' → E e w') : Yields whether w Q E := by
  unfold whether
  rw [yields_bind]
  refine yields_turn fun t w' hmoved => ?_
  split
  · exact hE _ _ hmoved
  · exact hE _ _ hmoved
  · exact hQ _ _ hmoved

/-- A transaction commits what its body wrote, with or without saying so, or
leaves the table alone. -/
theorem yields_transact
    (hQ : ∀ done w', Moved w w' → body w' = .ok done → Q done.value (w'.commit done))
    (hlost : ∀ e done w', Moved w w' → body w' = .ok done → E e (w'.commit done))
    (hE : ∀ e w', Moved w w' → E e w') : Yields (transact body) w Q E := by
  unfold transact
  rw [yields_bind]
  refine yields_turn fun t w' hmoved => ?_
  simp only [yields_bind, yields_get]
  split
  · exact hE _ _ hmoved
  · exact hE _ _ hmoved
  · rename_i done _ hbody
    exact hQ done w' hmoved hbody
  · rename_i e done _ hbody
    exact hlost e done w' hmoved hbody

theorem carries_observe_of {R : World → World → Prop} (hmoved : ∀ w w', Moved w w' → R w w')
    (read : World → Except Failure α) : Carries R (observe read) := by
  intro w
  exact yields_observe (fun _ _ h _ => hmoved _ _ h) fun _ _ h => hmoved _ _ h

theorem carries_transact_of {R : World → World → Prop} [IsTrans World R]
    (hmoved : ∀ w w', Moved w w' → R w w')
    (hbody : ∀ w done, body w = .ok done → R w (w.commit done)) : Carries R (transact body) := by
  intro w
  refine yields_transact (fun done w' h hdone => ?_) (fun _ done w' h hdone => ?_)
    fun _ w' h => hmoved _ _ h
  · exact IsTrans.trans _ _ _ (hmoved _ _ h) (hbody _ _ hdone)
  · exact IsTrans.trans _ _ _ (hmoved _ _ h) (hbody _ _ hdone)

/-! ### When nothing fails

A script is calm when every effect in it passes and the pathname stays put; other
clients may still be accepted.  Under a calm script a check that holds of every
world the outside can reach is passed, so an operation can be shown to return.
-/

def Outside.calm : Outside → Bool
  | .renamed _ => false
  | .enqueued _ _ _ | .ticked _ => true

def Turn.calm (t : Turn) : Bool :=
  (match t.fate with | .passes => true | .fails _ | .lost _ => false) && t.moves.all Outside.calm

def Calm (script : List Turn) : Prop :=
  ∀ t ∈ script, t.calm

structure CalmMoved (w w' : World) : Prop where
  moved : Moved w w'
  named : w'.named = w.named
  script : Calm w'.script

theorem CalmMoved.trans {w' w'' : World} (h : CalmMoved w w') (h' : CalmMoved w' w'') :
    CalmMoved w w'' :=
  ⟨h.moved.trans h'.moved, h'.named.trans h.named, h'.script⟩

theorem outsides_named {moves : List Outside} (h : moves.all Outside.calm) :
    (w.outsides moves).named = w.named ∧ (w.outsides moves).script = w.script := by
  induction moves generalizing w with
  | nil => exact ⟨rfl, rfl⟩
  | cons move moves ih =>
      rw [List.all_cons, Bool.and_eq_true] at h
      have hmove : (w.outside move).named = w.named ∧ (w.outside move).script = w.script := by
        cases move with
        | renamed root => simp [Outside.calm] at h
        | ticked millis => exact ⟨rfl, rfl⟩
        | enqueued id options expected =>
            rw [World.outside]
            split <;> exact ⟨rfl, rfl⟩
      obtain ⟨hnamed, hscript⟩ := ih (w := w.outside move) h.2
      exact ⟨hnamed.trans hmove.1, hscript.trans hmove.2⟩

theorem calm_turn (hcalm : Calm w.script) {Q : Turn → World → Prop}
    (h : ∀ t w', CalmMoved w w' → t.fate = .passes → Q t w') :
    Yields turn w Q fun _ _ => False := by
  unfold turn
  simp only [yields_bind, yields_get]
  split
  · exact h _ _ ⟨.refl w, rfl, hcalm⟩ rfl
  · rename_i t rest hscript
    simp only [yields_bind, yields_set, yields_pure]
    have ht := hcalm t (by rw [hscript]; exact List.mem_cons_self)
    rw [Turn.calm, Bool.and_eq_true] at ht
    have hfate : t.fate = .passes := by
      cases hf : t.fate <;> simp [hf] at ht ⊢
    obtain ⟨hnamed, hrest⟩ := outsides_named (w := { w with script := rest }) ht.2
    refine h t _ ⟨(moved_script w rest).trans (moved_outsides _ _), hnamed, ?_⟩ hfate
    intro t' ht'
    rw [hrest] at ht'
    exact hcalm t' (by rw [hscript]; exact List.mem_cons_of_mem _ ht')

theorem calm_observe {read : World → Except Failure α} (hcalm : Calm w.script)
    (h : ∀ w', CalmMoved w w' → ∃ a, read w' = .ok a ∧ Q a w') :
    Yields (observe read) w Q fun _ _ => False := by
  unfold observe
  rw [yields_bind]
  refine calm_turn hcalm fun t w' hmoved hfate => ?_
  obtain ⟨a, hread, hQ⟩ := h w' hmoved
  simp only [hfate, yields_bind, yields_get, hread]
  exact hQ

theorem calm_transact (hcalm : Calm w.script)
    (h : ∀ w', CalmMoved w w' → ∃ done, body w' = .ok done ∧ Q done.value (w'.commit done)) :
    Yields (transact body) w Q fun _ _ => False := by
  unfold transact
  rw [yields_bind]
  refine calm_turn hcalm fun t w' hmoved hfate => ?_
  obtain ⟨done, hbody, hQ⟩ := h w' hmoved
  simp only [yields_bind, yields_get, hfate, hbody]
  exact hQ

end Baleyg
