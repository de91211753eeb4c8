/-
The budget of the paid provider.

`LiveJev` reserves ten cents for each call before it makes it, in the ledger
`budget.sqlite3`, and never gives them back: a run that is cancelled, crashes, or gets no
answer leaves its row as it was reserved.  The cap is between ten cents and five dollars
and is bound to the workspace with the first `open`.

The definitions here are the transactions of `open`, `reserve` and `finish`; that they
do what a ledger's transactions have to do is `lawful`, and `budget_of_run` is what
follows for every run of the whole directory that only the program itself writes to.
-/
import Baleyg.Allowance.Intact

namespace Baleyg.Allowance.LiveJev

open Relation
open Fallible (ensure bind_eq_ok ensure_eq_ok ensure_bind_eq_ok)

/-- `RESERVATION`, in cents. -/
def reservation : Nat := 10

def storageError : String := "Jev private ledger unavailable"

/-- A row of `attempts`. -/
structure Attempt where
  id : String
  reserved : Nat
  request : List UInt8
  response : Option (List UInt8)
  status : String
  httpStatus : Option Nat
  latencyMs : Option Nat
  deriving DecidableEq, Repr

/-- What `finish` writes of an attempt. -/
structure Outcome where
  raw : List UInt8
  status : String
  http : Option Nat
  latency : Nat
  deriving DecidableEq, Repr

structure BudgetStatus where
  capCents : Nat
  reservedCents : Nat
  remainingCents : Nat
  attempts : Nat
  deriving DecidableEq, Repr

/-- The ways a run ends, once it has its reservation. -/
def statuses : List String :=
  ["success", "transport_failed", "response_read_failed", "response_too_large",
    "context_exceeded", "http_failed", "timeout", "invalid_json", "invalid_selection"]

def reservedCents (rows : List Attempt) : Nat := (rows.map Attempt.reserved).sum

def checkBinding (b : Binding) (db : Tables Attempt) : Except String Unit := do
  let row ← db.selectBinding storageError
  ensure (row.workspace = b.workspace ∧ row.cap = b.cap)
    "Jev ledger workspace or cap mismatch"

def status (b : Binding) (db : Tables Attempt) : Except String BudgetStatus := do
  checkBinding b db
  let rows ← db.selectAttempts storageError
  ensure (reservedCents rows ≤ b.cap) "invalid Jev ledger totals"
  pure ⟨b.cap, reservedCents rows, b.cap - reservedCents rows, rows.length⟩

/-- The schema a new ledger is given; `OR IGNORE` leaves out a row that is refused. -/
def createSchema (b : Binding) (db : Tables Attempt) : Except String (Tables Attempt) := do
  ensure (db.tables = 0) "unrecognized Jev ledger schema"
  let db ← db.create storageError
  pure { (db.insertBinding storageError 10 500 b).toOption.getD db with userVersion := 1 }

def upgrade (b : Binding) (db : Tables Attempt) : Except String (Tables Attempt) :=
  if db.userVersion = 0 then createSchema b db else pure db

/-- The transaction of `open`. -/
def openLedger (b : Binding) (initialized : Bool) (db : Tables Attempt) :
    Except String (Tables Attempt) := do
  ensure (db.userVersion ≤ 1 ∧ (initialized = false ∨ db.userVersion = 1))
    "unsupported or incomplete Jev ledger schema"
  let db ← upgrade b db
  checkBinding b db
  let _ ← db.selectAttempts storageError
  let _ ← status b db
  pure db

/-- A row as `reserve` inserts it. -/
def attempt (id : String) (request : List UInt8) : Attempt :=
  ⟨id, 10, request, none, "reserved_incomplete", none, none⟩

/-- The transaction of `reserve`, for the id drawn. -/
def reserve (b : Binding) (id : String) (request : List UInt8) (db : Tables Attempt) :
    Except String (Tables Attempt) := do
  let budget ← status b db
  ensure (reservation ≤ budget.remainingCents) "Jev budget exhausted: no reservation available"
  db.insertAttempt storageError Attempt.id (attempt id request)

/-- The update of `finish`. -/
def finish (id : String) (outcome : Outcome) (db : Tables Attempt) :
    Except String (Tables Attempt) :=
  db.updateAttempt storageError "Jev audit attempt missing" Attempt.id id fun row =>
    { row with
      response := some outcome.raw
      status := outcome.status
      httpStatus := outcome.http
      latencyMs := some outcome.latency }

/-- The ledger `budget.sqlite3`. -/
def ledger : Ledger Attempt Outcome where
  least := 10
  most := 500
  price := reservation
  cost := Attempt.reserved
  key := Attempt.id
  resyncs := false
  guarded := false
  halts := false
  bind := openLedger
  reserve := reserve
  inspect := checkBinding
  record := finish
  reports started results := started = true ∧ ∃ o, results = [o] ∧ o.status ∈ statuses

/-! ### What the transactions do -/

section Transactions

variable {a b : Binding} {v v' : Tables Attempt} {id : String} {request : List UInt8}

theorem checkBinding_eq_ok {u : Unit} (h : checkBinding b v = .ok u) :
    v.binding = some (some b) := by
  obtain ⟨row, hrow, h⟩ := bind_eq_ok.mp h
  obtain ⟨hworkspace, hcap⟩ := ensure_eq_ok.mp h
  have heq : row = b := by
    cases row
    cases b
    cases hworkspace
    cases hcap
    rfl
  rw [← heq]
  exact Tables.selectBinding_eq_ok.mp hrow

theorem status_eq_ok {s : BudgetStatus} (h : status b v = .ok s) :
    v.binding = some (some b) ∧ v.attempts = some v.rows ∧ reservedCents v.rows ≤ b.cap ∧
      s = ⟨b.cap, reservedCents v.rows, b.cap - reservedCents v.rows, v.rows.length⟩ := by
  obtain ⟨u, hbinding, h⟩ := bind_eq_ok.mp h
  obtain ⟨rows, hrows, h⟩ := bind_eq_ok.mp h
  obtain ⟨hwithin, h⟩ := ensure_bind_eq_ok.mp h
  have hrows := Tables.selectAttempts_eq_ok.mp hrows
  have heq : v.rows = rows := by rw [Tables.rows, hrows, Option.getD_some]
  rw [heq]
  exact ⟨checkBinding_eq_ok hbinding, hrows, hwithin, (Except.ok.inj h).symm⟩

theorem eq_of_status {s : BudgetStatus} (ha : ledger.Bound a v) (h : status b v = .ok s) :
    a = b := by
  obtain ⟨hbinding, -⟩ := status_eq_ok h
  have heq := ha.binding.symm.trans hbinding
  exact Option.some.inj (Option.some.inj heq)

theorem createSchema_eq_ok (h : createSchema b .blank = .ok v) :
    v.userVersion = 1 ∧ v.attempts = some [] := by
  obtain ⟨-, h⟩ := ensure_bind_eq_ok.mp h
  obtain ⟨db, hcreate, h⟩ := bind_eq_ok.mp h
  obtain ⟨-, hcreate⟩ := ensure_bind_eq_ok.mp hcreate
  have hdb := Except.ok.inj hcreate
  have hv := Except.ok.inj h
  subst hdb
  subst hv
  refine ⟨rfl, ?_⟩
  unfold Tables.insertBinding ensure
  split_ifs <;> rfl

/-- **The transactions of `LiveJev` are those of a ledger.** -/
theorem lawful : ledger.Lawful where
  bind_blank := by
    intro b initialized v h
    obtain ⟨⟨-, hversion⟩, h⟩ := ensure_bind_eq_ok.mp h
    have hfalse : initialized = false := hversion.resolve_right (by decide)
    obtain ⟨db, hnew, h⟩ := bind_eq_ok.mp h
    obtain ⟨u, hbinding, h⟩ := bind_eq_ok.mp h
    obtain ⟨rows, hrows, h⟩ := bind_eq_ok.mp h
    obtain ⟨s, hstatus, h⟩ := bind_eq_ok.mp h
    have hdb := Except.ok.inj h
    subst hdb
    obtain ⟨hone, hempty⟩ := createSchema_eq_ok hnew
    have hrows : db.rows = [] := by rw [Tables.rows, hempty, Option.getD_some]
    refine ⟨hfalse, ⟨hone, checkBinding_eq_ok hbinding, ?_, ?_, ?_, ?_⟩, hrows⟩
    · rw [hrows]; exact hempty
    · rw [Ledger.keys, hrows]; exact List.nodup_nil
    · rw [hrows]; exact fun _ h => by cases h
    · rw [hrows]; exact Nat.zero_le _
  bind_bound := by
    intro a b initialized v v' ha h
    obtain ⟨-, h⟩ := ensure_bind_eq_ok.mp h
    obtain ⟨db, hsame, h⟩ := bind_eq_ok.mp h
    obtain ⟨u, hbinding, h⟩ := bind_eq_ok.mp h
    obtain ⟨rows, hrows, h⟩ := bind_eq_ok.mp h
    obtain ⟨s, hstatus, h⟩ := bind_eq_ok.mp h
    unfold upgrade at hsame
    rw [if_neg (by rw [ha.version]; decide)] at hsame
    have hdb := Except.ok.inj hsame
    subst hdb
    exact ⟨eq_of_status ha hstatus, (Except.ok.inj h).symm⟩
  reserve_blank := by
    intro b id request v h
    obtain ⟨s, hstatus, -⟩ := bind_eq_ok.mp h
    cases (status_eq_ok hstatus).1
  reserve_bound := by
    intro a b id request v v' ha h
    obtain ⟨s, hstatus, h⟩ := bind_eq_ok.mp h
    obtain rfl := eq_of_status ha hstatus
    obtain ⟨-, -, hwithin, rfl⟩ := status_eq_ok hstatus
    obtain ⟨hroom, h⟩ := ensure_bind_eq_ok.mp h
    refine ⟨rfl, ha.insert h rfl ?_⟩
    have hsum : reservedCents v.rows = 10 * v.rows.length := ha.sum_cost
    have hroom : 10 ≤ a.cap - reservedCents v.rows := hroom
    show 10 * (v.rows.length + 1) ≤ a.cap
    omega
  record_blank := by
    intro id o v h
    obtain ⟨rows, hrows, -⟩ := Tables.updateAttempt_eq_ok h
    cases hrows
  record_bound := fun ha h => ha.update h (fun _ => rfl) (fun _ => rfl)

end Transactions

/-! ### The budget -/

def reservedTotal (w : World Attempt Outcome) : Nat := w.ledger.elim 0 fun db => reservedCents db.rows

def attemptIds (w : World Attempt Outcome) : List String :=
  w.ledger.elim [] fun db => db.rows.map Attempt.id

/-- A directory that was empty when the program came to it. -/
def Reached (w : World Attempt Outcome) : Prop := Runs.Reachable (· = .start) (Step ledger) w

section Budget

variable {w w' : World Attempt Outcome}

theorem Reached.keeps (h : Reached w) : Guarded ledger w ∧ Intact ledger w := by
  refine Runs.Reachable.keeps (I := fun u => Guarded ledger u ∧ Intact ledger u) ?_ ?_ h
  · rintro s rfl
    exact ⟨guarded_start, intact_start⟩
  · rintro s t hstep ⟨hs, hi⟩
    exact ⟨Moves.guarded (.inl hstep) hs lawful, hstep.intact hs lawful hi⟩

theorem Reached.attemptIds_eq (h : Reached w) : attemptIds w = w.paid ledger :=
  h.keeps.2.keys_ledger h.keeps.1

theorem Reached.bound_of_ledger (h : Reached w) {db : Tables Attempt} (hdb : w.ledger = some db)
    (hne : db ≠ .blank) : ∃ i b, w.committed = some (i, db) ∧ ledger.Bound b db := by
  obtain ⟨i, -, hcontent⟩ := Option.bind_eq_some_iff.mp hdb
  have hcommitted := (h.keeps.1.files.content i db hcontent).resolve_left hne
  obtain ⟨-, b, hb⟩ := h.keeps.1.files.bound i db hcommitted
  exact ⟨i, b, hcommitted, hb⟩

theorem Reached.reservedTotal_eq (h : Reached w) :
    reservedTotal w = 10 * (w.paid ledger).length := by
  rw [← h.attemptIds_eq]
  unfold reservedTotal attemptIds
  cases hdb : w.ledger with
  | none => rfl
  | some db =>
      by_cases hblank : db = .blank
      · subst hblank; rfl
      · obtain ⟨i, b, -, hb⟩ := h.bound_of_ledger hdb hblank
        show reservedCents db.rows = 10 * (db.rows.map Attempt.id).length
        rw [List.length_map]
        exact hb.sum_cost

theorem moves_of_run (hrun : ReflTransGen (Step ledger) w w') :
    ReflTransGen (Moves ledger) w w' :=
  hrun.lift id fun _ _ h => .inl h

/-- **The budget of paid calls.**  In every run the total stays within the cap the ledger
and every handle is bound to, no reservation goes away, and a call that is started has a
row in the ledger that no call had before. -/
theorem budget_of_run (hw : Reached w) (hrun : ReflTransGen (Step ledger) w w') :
    (∀ db, w'.ledger = some db → db = .blank ∨
      ∃ b, db.binding = some (some b) ∧ reservedTotal w' ≤ b.cap) ∧
    (∀ t b, w'.tasks t = .opened b → reservedTotal w' ≤ b.cap) ∧
    reservedTotal w ≤ reservedTotal w' ∧ attemptIds w <+: attemptIds w' ∧
    (∀ u, Step ledger w' u → u.calls = w'.calls ∨
      ∃ id ∈ attemptIds w', id ∉ w'.calls ∧ u.calls = id :: w'.calls) ∧
    w'.calls.Nodup ∧ w'.calls ⊆ attemptIds w' := by
  have hw' : Reached w' := hw.then hrun
  obtain ⟨hguarded, -⟩ := hw'.keeps
  have hprefix := paid_prefix_of_run lawful (moves_of_run hrun) hw.keeps.1
  refine ⟨fun db hdb => ?_, fun t b hopened => ?_, ?_, ?_, fun u hstep => ?_, ?_, ?_⟩
  · by_cases hblank : db = .blank
    · exact .inl hblank
    · obtain ⟨i, b, hcommitted, hb⟩ := hw'.bound_of_ledger hdb hblank
      refine .inr ⟨b, hb.binding, ?_⟩
      rw [hw'.reservedTotal_eq]
      exact (hguarded.account ⟨i, db, hcommitted, hb⟩).within
  · rw [hw'.reservedTotal_eq]
    exact (hguarded.account (hguarded.binds_of_opened hopened)).within
  · rw [hw.reservedTotal_eq, hw'.reservedTotal_eq]
    exact Nat.mul_le_mul_left _ hprefix.length_le
  · rw [hw.attemptIds_eq, hw'.attemptIds_eq]; exact hprefix
  · rw [hw'.attemptIds_eq]; exact Moves.calls (.inl hstep) hguarded lawful
  · exact hguarded.books.nodup
  · rw [hw'.attemptIds_eq]; exact hguarded.books.paid

theorem budget_of_run_first : ∃ w : World Attempt Outcome,
    w.calls = ["a"] ∧ reservedTotal w = 10 ∧ attemptIds w <+: attemptIds w ∧
      ∀ t b, w.tasks t = .opened b → reservedTotal w ≤ b.cap := by
  have hbind : ledger.bind ⟨"/work", 25⟩ false .blank
      = .ok ⟨1, some (some ⟨"/work", 25⟩), some []⟩ := rfl
  have hreserve : ledger.reserve ⟨"/work", 25⟩ "a" [] ⟨1, some (some ⟨"/work", 25⟩), some []⟩
      = .ok ⟨1, some (some ⟨"/work", 25⟩), some [attempt "a" []]⟩ := rfl
  obtain ⟨w, hrun, hledger, hcalls, -⟩ := first_call (by decide) hbind hreserve
  have hbudget := budget_of_run ⟨_, rfl, hrun⟩ (.refl (a := w))
  refine ⟨w, hcalls, ?_, hbudget.2.2.2.1, hbudget.2.1⟩
  rw [reservedTotal, hledger]
  rfl

end Budget

end Baleyg.Allowance.LiveJev
