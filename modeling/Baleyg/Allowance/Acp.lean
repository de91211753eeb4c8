/-
The allowance of the runner.

`Acp` starts a runner for each question, at most a fixed number of times: the cap counts
attempts, between one and twenty, and `attempts.sqlite3` has a row for each.  The steps
are those of the paid provider with four differences.  Every operation looks for the
marker again, `open` syncs a marker it only found, a handle can be shut down, and a run
may record that the runner was never started.  That a handle has one run in flight at a
time only keeps runs from starting, and nothing here depends on it.

The allowance is there to be kept against somebody who removes or cuts off the ledger
to get more of it, so `allowance_of_run` is about every run in which that is done at any
point and any number of times.
-/
import Baleyg.Allowance.Refusal

namespace Baleyg.Allowance.Acp

open Relation
open Fallible (ensure bind_eq_ok ensure_eq_ok ensure_bind_eq_ok)

def storageError : String := "ACP private ledger unavailable"

/-- A row of `attempts`. -/
structure Attempt where
  id : String
  status : String
  packet : List UInt8
  response : Option (List UInt8)
  deriving DecidableEq, Repr

/-- What `record` writes of an attempt. -/
structure Outcome where
  raw : Option (List UInt8)
  status : String
  deriving DecidableEq, Repr

structure AcpStatus where
  maxAttempts : Nat
  attempts : Nat
  remainingAttempts : Nat
  model : String
  deriving DecidableEq, Repr

def readStatus (b : Binding) (db : Tables Attempt) : Except String AcpStatus := do
  let row ← db.selectBinding storageError
  ensure (row.workspace = b.workspace ∧ row.cap = b.cap)
    "ACP ledger workspace or allowance mismatch"
  let rows ← db.selectAttempts storageError
  ensure (rows.length ≤ row.cap) storageError
  pure ⟨row.cap, rows.length, row.cap - rows.length, "sonnet"⟩

def createSchema (b : Binding) (db : Tables Attempt) : Except String (Tables Attempt) := do
  ensure (db.tables = 0) storageError
  let db ← db.create storageError
  let db ← db.insertBinding storageError 1 20 b
  pure { db with userVersion := 1 }

def upgrade (b : Binding) (db : Tables Attempt) : Except String (Tables Attempt) :=
  if db.userVersion = 0 then createSchema b db else pure db

/-- The transaction of `open`. -/
def openLedger (b : Binding) (initialized : Bool) (db : Tables Attempt) :
    Except String (Tables Attempt) := do
  ensure (db.userVersion ≤ 1 ∧ (initialized = false ∨ db.userVersion = 1)) storageError
  let db ← upgrade b db
  let _ ← readStatus b db
  pure db

/-- A row as `reserve` inserts it. -/
def attempt (id : String) (packet : List UInt8) : Attempt :=
  ⟨id, "reserved_incomplete", packet, none⟩

/-- The transaction of `reserve`, for the id drawn. -/
def reserve (b : Binding) (id : String) (packet : List UInt8) (db : Tables Attempt) :
    Except String (Tables Attempt) := do
  let status ← readStatus b db
  ensure (0 < status.remainingAttempts) "ACP allowance exhausted"
  db.insertAttempt storageError Attempt.id (attempt id packet)

/-- What `record` reads before it writes. -/
def inspect (b : Binding) (db : Tables Attempt) : Except String Unit := do
  let _ ← readStatus b db
  pure ()

/-- The update of `record`; `COALESCE` keeps a response that was recorded before. -/
def record (id : String) (outcome : Outcome) (db : Tables Attempt) :
    Except String (Tables Attempt) :=
  db.updateAttempt storageError storageError Attempt.id id fun row =>
    { row with response := outcome.raw.or row.response, status := outcome.status }

/-- What a run records: the raw output with how it was received, and how the run ended.
Without a runner there is no output, and the attempt has failed. -/
inductive Reports : Bool → List Outcome → Prop where
  | received (raw : List UInt8) (hraw : raw.length ≤ 65536) (status : String)
      (hstatus : status = "success" ∨ status = "failed") :
      Reports true [⟨some raw, "received_unvalidated"⟩, ⟨none, status⟩]
  | failed (started : Bool) (raw : List UInt8) (hraw : raw.length ≤ 65536)
      (hstarted : started = false → raw = []) :
      Reports started [⟨some raw, "transport_failed"⟩, ⟨none, "failed"⟩]

/-- The ledger `attempts.sqlite3`. -/
def ledger : Ledger Attempt Outcome where
  least := 1
  most := 20
  price := 1
  cost _ := 1
  key := Attempt.id
  resyncs := true
  guarded := true
  halts := true
  bind := openLedger
  reserve := reserve
  inspect := inspect
  record := record
  reports := Reports

/-! ### What the transactions do -/

section Transactions

variable {a b : Binding} {v : Tables Attempt}

theorem readStatus_eq_ok {s : AcpStatus} (h : readStatus b v = .ok s) :
    v.binding = some (some b) ∧ v.attempts = some v.rows ∧ v.rows.length ≤ b.cap ∧
      s = ⟨b.cap, v.rows.length, b.cap - v.rows.length, "sonnet"⟩ := by
  obtain ⟨row, hrow, h⟩ := bind_eq_ok.mp h
  obtain ⟨⟨hworkspace, hcap⟩, h⟩ := ensure_bind_eq_ok.mp h
  obtain ⟨rows, hrows, h⟩ := bind_eq_ok.mp h
  obtain ⟨hwithin, h⟩ := ensure_bind_eq_ok.mp h
  have hbinding := Tables.selectBinding_eq_ok.mp hrow
  have hrows := Tables.selectAttempts_eq_ok.mp hrows
  have heq : v.rows = rows := by rw [Tables.rows, hrows, Option.getD_some]
  have hs := Except.ok.inj h
  have hsame : row = b := by
    cases row
    cases b
    cases hworkspace
    cases hcap
    rfl
  rw [hsame] at hbinding hwithin hs
  rw [heq]
  exact ⟨hbinding, hrows, hwithin, hs.symm⟩

theorem eq_of_readStatus {s : AcpStatus} (ha : ledger.Bound a v) (h : readStatus b v = .ok s) :
    a = b := by
  obtain ⟨hbinding, -⟩ := readStatus_eq_ok h
  have heq := ha.binding.symm.trans hbinding
  exact Option.some.inj (Option.some.inj heq)

theorem createSchema_eq_ok (h : createSchema b .blank = .ok v) :
    v.userVersion = 1 ∧ v.attempts = some [] := by
  obtain ⟨-, h⟩ := ensure_bind_eq_ok.mp h
  obtain ⟨db, hcreate, h⟩ := bind_eq_ok.mp h
  obtain ⟨db', hinsert, h⟩ := bind_eq_ok.mp h
  obtain ⟨-, hcreate⟩ := ensure_bind_eq_ok.mp hcreate
  obtain ⟨-, hinsert⟩ := ensure_bind_eq_ok.mp hinsert
  obtain ⟨-, hinsert⟩ := ensure_bind_eq_ok.mp hinsert
  have hdb := Except.ok.inj hcreate
  have hdb' := Except.ok.inj hinsert
  have hv := Except.ok.inj h
  subst hdb
  subst hdb'
  subst hv
  exact ⟨rfl, rfl⟩

/-- **The transactions of `Acp` are those of a ledger.** -/
theorem lawful : ledger.Lawful where
  bind_blank := by
    intro b initialized v h
    obtain ⟨⟨-, hversion⟩, h⟩ := ensure_bind_eq_ok.mp h
    have hfalse : initialized = false := hversion.resolve_right (by decide)
    obtain ⟨db, hnew, h⟩ := bind_eq_ok.mp h
    obtain ⟨s, hstatus, h⟩ := bind_eq_ok.mp h
    have hdb := Except.ok.inj h
    subst hdb
    obtain ⟨hone, hempty⟩ := createSchema_eq_ok hnew
    have hrows : db.rows = [] := by rw [Tables.rows, hempty, Option.getD_some]
    refine ⟨hfalse, ⟨hone, (readStatus_eq_ok hstatus).1, ?_, ?_, fun _ _ => rfl, ?_⟩, hrows⟩
    · rw [hrows]; exact hempty
    · rw [Ledger.keys, hrows]; exact List.nodup_nil
    · rw [hrows]; exact Nat.zero_le _
  bind_bound := by
    intro a b initialized v v' ha h
    obtain ⟨-, h⟩ := ensure_bind_eq_ok.mp h
    obtain ⟨db, hsame, h⟩ := bind_eq_ok.mp h
    obtain ⟨s, hstatus, h⟩ := bind_eq_ok.mp h
    unfold upgrade at hsame
    rw [if_neg (by rw [ha.version]; decide)] at hsame
    have hdb := Except.ok.inj hsame
    subst hdb
    exact ⟨eq_of_readStatus ha hstatus, (Except.ok.inj h).symm⟩
  reserve_blank := by
    intro b id packet v h
    obtain ⟨s, hstatus, -⟩ := bind_eq_ok.mp h
    cases (readStatus_eq_ok hstatus).1
  reserve_bound := by
    intro a b id packet v v' ha h
    obtain ⟨s, hstatus, h⟩ := bind_eq_ok.mp h
    obtain rfl := eq_of_readStatus ha hstatus
    obtain ⟨-, -, hwithin, rfl⟩ := readStatus_eq_ok hstatus
    obtain ⟨hroom, h⟩ := ensure_bind_eq_ok.mp h
    refine ⟨rfl, ha.insert h rfl ?_⟩
    have hroom : 0 < a.cap - v.rows.length := hroom
    show 1 * (v.rows.length + 1) ≤ a.cap
    omega
  record_blank := by
    intro id o v h
    obtain ⟨rows, hrows, -⟩ := Tables.updateAttempt_eq_ok h
    cases hrows
  record_bound := fun ha h => ha.update h (fun _ => rfl) (fun _ => rfl)

end Transactions

/-! ### The allowance -/

section Allowance

variable {w w' : World Attempt Outcome}

theorem attempts_of_readStatus (hw : Guarded ledger w) {db : Tables Attempt} {b : Binding}
    {s : AcpStatus} (hdb : w.ledger = some db) (h : readStatus b db = .ok s) :
    w.Binds ledger b ∧ s.attempts = (w.paid ledger).length := by
  obtain ⟨i, -, hcontent⟩ := Option.bind_eq_some_iff.mp hdb
  have hne : db ≠ .blank := by
    rintro rfl
    cases (readStatus_eq_ok h).1
  have hcommitted := (hw.files.content i db hcontent).resolve_left hne
  obtain ⟨-, a, ha⟩ := hw.files.bound i db hcommitted
  obtain rfl := eq_of_readStatus ha h
  obtain ⟨-, -, -, rfl⟩ := readStatus_eq_ok h
  refine ⟨⟨i, db, hcommitted, ha⟩, ?_⟩
  rw [paid_of_committed hcommitted, Ledger.keys, List.length_map]

/-- **The allowance of attempts**, in every run, whatever is done to the ledger's file.
The runner is started at most as often as the cap the ledger was made for, each start had
an attempt committed before that no start had, and no attempt goes away, so that the
count anybody can read never falls.  A handle is for the binding the ledger was made
for, and an `open` that finds no ledger when it has the lock returns none. -/
theorem allowance_of_run (hw : Reached ledger w) (hrun : ReflTransGen (Moves ledger) w w') :
    (w'.committed = none → w'.calls = []) ∧
    (∀ b, w.Binds ledger b → w'.Binds ledger b ∧ w'.calls.length ≤ b.cap) ∧
    (∀ u, Moves ledger w' u → u.calls = w'.calls ∨
      ∃ id ∈ w'.paid ledger, id ∉ w'.calls ∧ u.calls = id :: w'.calls) ∧
    w.paid ledger <+: w'.paid ledger ∧
    (∀ db db' b b' s s', w.ledger = some db → readStatus b db = .ok s →
      w'.ledger = some db' → readStatus b' db' = .ok s' → s.attempts ≤ s'.attempts) ∧
    (∀ a t b, w.Binds ledger a → w'.tasks t = .opened b → b = a) ∧
    (∀ t b, w.tasks t = .opening b .locked → w.marker ≠ .absent →
      (w.ledger = none ∨ w.ledger = some .blank) → w'.tasks t ≠ .opened b) := by
  have hguarded := hw.guarded lawful
  have hguarded' := guarded_of_run lawful hrun hguarded
  have hprefix := paid_prefix_of_run lawful hrun hguarded
  refine ⟨hguarded'.calls_eq_nil, fun b hb => ?_, fun u hmove => hmove.calls hguarded' lawful,
    hprefix, ?_, ?_, ?_⟩
  · have hb' := binds_of_run lawful hrun hguarded hb
    have hwithin := hguarded'.calls_within hb'
    refine ⟨hb', ?_⟩
    rwa [show ledger.price = 1 from rfl, Nat.one_mul] at hwithin
  · intro db db' b b' s s' hdb hs hdb' hs'
    rw [(attempts_of_readStatus hguarded hdb hs).2, (attempts_of_readStatus hguarded' hdb' hs').2]
    exact hprefix.length_le
  · intro a t b ha hopened
    exact (hguarded'.binds_of_opened hopened).unique (binds_of_run lawful hrun hguarded ha)
  · intro t b hpoint hmarker hledger
    exact hguarded.refused lawful hpoint hmarker hledger hrun

theorem allowance_of_run_first : ∃ w w' : World Attempt Outcome,
    Tampers w w' ∧ w.calls = ["a"] ∧ w'.ledger = none ∧ w'.Binds ledger ⟨"/work", 2⟩ ∧
      w'.calls.length ≤ 2 ∧ ∀ t b, w'.tasks t = .opened b → b = ⟨"/work", 2⟩ := by
  have hbind : ledger.bind ⟨"/work", 2⟩ false .blank
      = .ok ⟨1, some (some ⟨"/work", 2⟩), some []⟩ := rfl
  have hreserve : ledger.reserve ⟨"/work", 2⟩ "a" [] ⟨1, some (some ⟨"/work", 2⟩), some []⟩
      = .ok ⟨1, some (some ⟨"/work", 2⟩), some [attempt "a" []]⟩ := rfl
  obtain ⟨w, hrun, -, hcalls, hopened⟩ := first_call (by decide) hbind hreserve
  have hw : Reached ledger w := ⟨_, rfl, hrun.lift id fun _ _ h => .inl h⟩
  have hdelete : Tampers w { w with path := none, entered := false } := .delete
  have hbinds := (hw.guarded lawful).binds_of_opened hopened
  obtain ⟨-, hcap, -, -, -, hsame, -⟩ := allowance_of_run hw (.single (.inr hdelete))
  exact ⟨w, _, hdelete, hcalls, rfl, (hcap _ hbinds).1, (hcap _ hbinds).2,
    fun t b h => hsame _ t b hbinds h⟩

end Allowance

end Baleyg.Allowance.Acp
