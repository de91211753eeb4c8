/-
The `requests` table.

One row per accepted indexing request, in a table whose primary key is an
`AUTOINCREMENT` sequence: a sequence number is never handed out twice and rows
come out in the order they were accepted.  The schema's CHECK constraint ties the
claim, the timestamps, the result pin and the error code to the state column;
here `RowState` carries each state's own columns, so a row that breaks the
constraint cannot be written down at all, and `checked` reads the constraint back.

The statements the queue issues are of three kinds — an INSERT of a queued row, a
SELECT of the least unfinished sequence, and UPDATEs whose SET list touches only
the state columns — and each has one definition and its lemmas here, so that
nothing above ever looks inside the row list.
-/
import Mathlib.Data.List.Nodup

namespace Baleyg

/-- The device and inode a captured workspace root has. -/
structure RootId where
  device : Nat
  inode : Nat
  deriving DecidableEq, Repr

/-- A leader incarnation; a later one is always larger. -/
abbrev Incarnation := Nat

/-- The pin of a committed publication: a generation and a revision inside it. -/
structure IndexPin where
  indexGeneration : Nat
  indexRevision : Nat
  deriving DecidableEq, Repr

/-- The capture options persisted with a request. -/
structure ReconcileOptions where
  version : Nat
  maxFileBytes : Nat
  scipPath : Option String
  manifestPath : Option String
  deriving DecidableEq, Repr

inductive ErrorCode where
  | rootChanged
  | revisionConflict
  | indexFailed
  deriving DecidableEq, Repr

/-- The state column of a row, with the columns the CHECK constraint allows it. -/
inductive RowState where
  | queued
  | running (claimIncarnation : Incarnation) (startedAt : Nat)
  | done (claimIncarnation : Incarnation) (startedAt finishedAt : Nat) (revision : IndexPin)
  | failed (claimIncarnation : Incarnation) (startedAt finishedAt : Nat) (errorCode : ErrorCode)
  deriving DecidableEq, Repr

namespace RowState

def claimIncarnation : RowState → Option Incarnation
  | queued => none
  | running c _ | done c _ _ _ | failed c _ _ _ => some c

def startedAt : RowState → Option Nat
  | queued => none
  | running _ t | done _ t _ _ | failed _ t _ _ => some t

def finishedAt : RowState → Option Nat
  | queued | running _ _ => none
  | done _ _ t _ | failed _ _ t _ => some t

def revision : RowState → Option IndexPin
  | done _ _ _ pin => some pin
  | _ => none

def errorCode : RowState → Option ErrorCode
  | failed _ _ _ code => some code
  | _ => none

/-- `state = 'running'`. -/
def isRunning : RowState → Bool
  | running _ _ => true
  | _ => false

/-- `state IN ('queued', 'running')`. -/
def unfinished : RowState → Bool
  | queued | running _ _ => true
  | done _ _ _ _ | failed _ _ _ _ => false

/-- `state = 'done' OR state = 'failed'`. -/
def terminal (s : RowState) : Bool := !s.unfinished

theorem unfinished_of_isRunning {s : RowState} (h : s.isRunning) : s.unfinished := by
  cases s <;> simp_all [isRunning, unfinished]

/-- **The table's CHECK constraint**, column by column: it holds of every state. -/
theorem checked (s : RowState) :
    (s.finishedAt.isSome ↔ s.terminal) ∧ (s.claimIncarnation.isSome ↔ s ≠ queued)
      ∧ (s.startedAt.isSome ↔ s ≠ queued) ∧ (s.revision.isSome → s.terminal)
      ∧ (s.errorCode.isSome → s.terminal ∧ s.revision = none) := by
  cases s <;>
    simp [finishedAt, terminal, unfinished, claimIncarnation, startedAt, revision, errorCode]

end RowState

/-- One row of `requests`. -/
structure Request where
  seq : Nat
  id : Nat
  root : RootId
  options : ReconcileOptions
  expected : Option IndexPin
  submittedAt : Nat
  state : RowState
  deriving DecidableEq, Repr

namespace Request

/-- What acceptance fixed: every column but the state columns. -/
structure SameAccepted (r r' : Request) : Prop where
  seq : r'.seq = r.seq
  id : r'.id = r.id
  root : r'.root = r.root
  options : r'.options = r.options
  expected : r'.expected = r.expected
  submittedAt : r'.submittedAt = r.submittedAt

theorem SameAccepted.refl (r : Request) : r.SameAccepted r :=
  ⟨rfl, rfl, rfl, rfl, rfl, rfl⟩

theorem SameAccepted.trans {r r' r'' : Request} (h : r.SameAccepted r')
    (h' : r'.SameAccepted r'') : r.SameAccepted r'' :=
  ⟨h'.seq.trans h.seq, h'.id.trans h.id, h'.root.trans h.root, h'.options.trans h.options,
    h'.expected.trans h.expected, h'.submittedAt.trans h.submittedAt⟩

end Request

/-- **The table**: its rows in sequence order, and the largest sequence handed out. -/
structure Requests where
  rows : List Request
  /-- `sqlite_sequence`: what `AUTOINCREMENT` has issued. -/
  issued : Nat
  ordered : rows.Pairwise fun r r' => r.seq < r'.seq
  bounded : ∀ r ∈ rows, r.seq ≤ issued
  /-- `id TEXT NOT NULL UNIQUE`. -/
  distinct : rows.Pairwise fun r r' => r.id ≠ r'.id

namespace Requests

def empty : Requests := ⟨[], 0, .nil, by simp, .nil⟩

/-- `SELECT … WHERE state IN ('queued','running') ORDER BY seq LIMIT 1`. -/
def earliestUnfinished (db : Requests) : Option Request :=
  db.rows.find? (·.state.unfinished)

/-- `SELECT … WHERE id = ?`. -/
def byId (db : Requests) (id : Nat) : Option Request :=
  db.rows.find? (·.id == id)

/-- `SELECT … WHERE seq = ?`. -/
def bySeq (db : Requests) (seq : Nat) : Option Request :=
  db.rows.find? (·.seq == seq)

/-- `SELECT … WHERE p ORDER BY seq`. -/
def select (db : Requests) (p : Request → Bool) : List Request :=
  db.rows.filter p

private def setState (p : Request → Bool) (f : RowState → RowState) (r : Request) : Request :=
  if p r then { r with state := f r.state } else r

private theorem setState_seq (p : Request → Bool) (f : RowState → RowState) (r : Request) :
    (setState p f r).seq = r.seq := by
  unfold setState; split <;> rfl

private theorem setState_id (p : Request → Bool) (f : RowState → RowState) (r : Request) :
    (setState p f r).id = r.id := by
  unfold setState; split <;> rfl

/-- `UPDATE requests SET <state columns> WHERE p`. -/
def update (db : Requests) (p : Request → Bool) (f : RowState → RowState) : Requests where
  rows := db.rows.map (setState p f)
  issued := db.issued
  ordered := by
    rw [List.pairwise_map]
    simpa only [setState_seq] using db.ordered
  bounded := by
    intro r hr
    obtain ⟨r₀, hr₀, rfl⟩ := List.mem_map.mp hr
    rw [setState_seq]
    exact db.bounded r₀ hr₀
  distinct := by
    rw [List.pairwise_map]
    simpa only [setState_id] using db.distinct

/-- `INSERT INTO requests … VALUES (…, 'queued', …)`, where the id is unused. -/
def insert (db : Requests) (id : Nat) (root : RootId) (options : ReconcileOptions)
    (expected : Option IndexPin) (submittedAt : Nat) (hid : ∀ r ∈ db.rows, r.id ≠ id) :
    Requests where
  rows := db.rows ++ [⟨db.issued + 1, id, root, options, expected, submittedAt, .queued⟩]
  issued := db.issued + 1
  ordered := by
    refine List.pairwise_append.mpr ⟨db.ordered, List.pairwise_singleton _ _, ?_⟩
    intro r hr r' hr'
    obtain rfl := List.mem_singleton.mp hr'
    exact Nat.lt_succ_of_le (db.bounded r hr)
  bounded := by
    intro r hr
    rcases List.mem_append.mp hr with h | h
    · exact Nat.le_succ_of_le (db.bounded r h)
    · obtain rfl := List.mem_singleton.mp h
      exact Nat.le_refl _
  distinct := by
    refine List.pairwise_append.mpr ⟨db.distinct, List.pairwise_singleton _ _, ?_⟩
    intro r hr r' hr'
    obtain rfl := List.mem_singleton.mp hr'
    exact hid r hr

/-! ### Reading the table -/

variable {db : Requests} {r : Request} {p : Request → Bool} {f : RowState → RowState}

theorem eq_of_seq {r' : Request} (h : r ∈ db.rows) (h' : r' ∈ db.rows) (hseq : r.seq = r'.seq) :
    r = r' := by
  have hnodup : (db.rows.map Request.seq).Nodup := by
    rw [List.Nodup, List.pairwise_map]
    exact db.ordered.imp Nat.ne_of_lt
  exact List.inj_on_of_nodup_map hnodup h h' hseq

theorem eq_of_id {r' : Request} (h : r ∈ db.rows) (h' : r' ∈ db.rows) (hid : r.id = r'.id) :
    r = r' := by
  have hnodup : (db.rows.map Request.id).Nodup := by
    rw [List.Nodup, List.pairwise_map]
    exact db.distinct
  exact List.inj_on_of_nodup_map hnodup h h' hid

/-- **The head of the queue is the least unfinished sequence.** -/
theorem earliestUnfinished_spec (h : db.earliestUnfinished = some r) :
    r ∈ db.rows ∧ r.state.unfinished
      ∧ ∀ r' ∈ db.rows, r'.state.unfinished → r.seq ≤ r'.seq := by
  obtain ⟨hp, before, after, hrows, hbefore⟩ := List.find?_eq_some_iff_append.mp h
  refine ⟨List.mem_of_find?_eq_some h, hp, fun r' hr' hun => ?_⟩
  have hord := db.ordered
  rw [hrows] at hr' hord
  rcases List.mem_append.mp hr' with hb | ha
  · exact absurd hun (by simpa using hbefore r' hb)
  · rcases List.mem_cons.mp ha with rfl | ha
    · exact Nat.le_refl _
    · have htail := (List.pairwise_append.mp hord).2.1
      exact Nat.le_of_lt (List.rel_of_pairwise_cons htail ha)

theorem byId_spec {id : Nat} (h : db.byId id = some r) : r ∈ db.rows ∧ r.id = id :=
  ⟨List.mem_of_find?_eq_some h, by simpa using List.find?_some h⟩

theorem byId_of_mem (h : r ∈ db.rows) : db.byId r.id = some r := by
  cases hfind : db.byId r.id with
  | none => exact absurd h (fun hr => by simpa using List.find?_eq_none.mp hfind r hr)
  | some r' =>
      obtain ⟨hmem, hid⟩ := byId_spec hfind
      rw [eq_of_id hmem h hid]

theorem bySeq_spec {seq : Nat} (h : db.bySeq seq = some r) : r ∈ db.rows ∧ r.seq = seq :=
  ⟨List.mem_of_find?_eq_some h, by simpa using List.find?_some h⟩

theorem bySeq_of_mem (h : r ∈ db.rows) : db.bySeq r.seq = some r := by
  cases hfind : db.bySeq r.seq with
  | none => exact absurd h (fun hr => by simpa using List.find?_eq_none.mp hfind r hr)
  | some r' =>
      obtain ⟨hmem, hseq⟩ := bySeq_spec hfind
      rw [eq_of_seq hmem h hseq]

/-! ### Updating it -/

theorem mem_update : r ∈ (db.update p f).rows
      ↔ ∃ r₀ ∈ db.rows, r = if p r₀ then { r₀ with state := f r₀.state } else r₀ := by
  simp only [update, setState, List.mem_map, eq_comm]

theorem mem_update_of_not (h : r ∈ db.rows) (hp : p r = false) : r ∈ (db.update p f).rows :=
  mem_update.mpr ⟨r, h, by simp [hp]⟩

theorem mem_update_of (h : r ∈ db.rows) (hp : p r) :
    { r with state := f r.state } ∈ (db.update p f).rows :=
  mem_update.mpr ⟨r, h, by simp [hp]⟩

end Requests

end Baleyg
