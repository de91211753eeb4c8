/-
The private ledgers.

Two services that cost something keep a ledger in a private directory: `LiveJev`
reserves cents for calls of a provider, `Acp` reserves attempts of a runner.  Both keep
a SQLite database with a table `binding` of one row, the workspace and the cap the
ledger was made for, and a table `attempts` with one row for each reservation.  Both
open it, reserve from it and record results in it in the same steps.

`Tables` is what such a database holds, over whatever a row of `attempts` is, and
`Ledger` is what the steps have to know about one of the two: what its transactions do
to the tables, and the points in which the steps themselves differ.
-/
import Mathlib.Algebra.BigOperators.Group.List.Basic
import Mathlib.Algebra.Order.Ring.Nat
import Mathlib.Data.List.Nodup
import Baleyg.Lib.Fallible

namespace Baleyg.Allowance

open Fallible

structure Binding where
  workspace : String
  cap : Nat
  deriving DecidableEq, Repr

/-- The database of a ledger; a table that was not created is `none`. -/
structure Tables (ρ : Type) where
  /-- `PRAGMA user_version`. -/
  userVersion : Nat
  /-- The row with `singleton = 1`, the only one its CHECK lets in. -/
  binding : Option (Option Binding)
  attempts : Option (List ρ)
  deriving DecidableEq, Repr

namespace Tables

variable {ρ : Type}

def blank : Tables ρ := ⟨0, none, none⟩

/-- `SELECT COUNT(*) FROM sqlite_master`. -/
def tables (v : Tables ρ) : Nat := v.binding.isSome.toNat + v.attempts.isSome.toNat

/-- `CREATE TABLE binding (…); CREATE TABLE attempts (…)`. -/
def create (error : String) (v : Tables ρ) : Except String (Tables ρ) := do
  ensure (v.tables = 0) error
  pure { v with binding := some none, attempts := some [] }

/-- `INSERT INTO binding VALUES(1,?1,?2)`, with the CHECK on the cap. -/
def insertBinding (error : String) (least most : Nat) (b : Binding) (v : Tables ρ) :
    Except String (Tables ρ) := do
  ensure (v.binding = some none) error
  ensure (least ≤ b.cap ∧ b.cap ≤ most) error
  pure { v with binding := some (some b) }

/-- `SELECT workspace,cap FROM binding WHERE singleton=1`. -/
def selectBinding (error : String) (v : Tables ρ) : Except String Binding :=
  match v.binding with
  | some (some b) => .ok b
  | _ => .error error

/-- The rows of `attempts`. -/
def selectAttempts (error : String) (v : Tables ρ) : Except String (List ρ) :=
  match v.attempts with
  | some rows => .ok rows
  | none => .error error

def rows (v : Tables ρ) : List ρ := v.attempts.getD []

/-- `INSERT INTO attempts`, whose PRIMARY KEY refuses an id that is there. -/
def insertAttempt (error : String) (key : ρ → String) (row : ρ) (v : Tables ρ) :
    Except String (Tables ρ) := do
  let rows ← v.selectAttempts error
  ensure (key row ∉ rows.map key) error
  pure { v with attempts := some (rows ++ [row]) }

/-- `UPDATE attempts SET … WHERE id=?1`, which has to change one row. -/
def updateAttempt (error missing : String) (key : ρ → String) (id : String) (set : ρ → ρ)
    (v : Tables ρ) : Except String (Tables ρ) := do
  let rows ← v.selectAttempts error
  ensure ((rows.filter fun row => key row = id).length = 1) missing
  pure { v with attempts := some (rows.map fun row => if key row = id then set row else row) }

/-! ### What a successful statement did -/

variable {v v' : Tables ρ} {error missing : String} {key : ρ → String}

theorem selectBinding_eq_ok {b : Binding} :
    v.selectBinding error = .ok b ↔ v.binding = some (some b) := by
  unfold selectBinding
  split
  · rename_i c hc
    rw [hc]
    exact ⟨fun h => congrArg (fun b => some (some b)) (Except.ok.inj h),
      fun h => congrArg Except.ok (Option.some.inj (Option.some.inj h))⟩
  · rename_i hne
    exact ⟨fun h => (by cases h), fun h => absurd h (hne b)⟩

theorem selectAttempts_eq_ok {rows : List ρ} :
    v.selectAttempts error = .ok rows ↔ v.attempts = some rows := by
  unfold selectAttempts
  cases v.attempts with
  | none => exact ⟨fun h => (by cases h), fun h => (by cases h)⟩
  | some found =>
      exact ⟨fun h => congrArg some (Except.ok.inj h), fun h => congrArg Except.ok (Option.some.inj h)⟩

theorem insertAttempt_eq_ok {row : ρ} :
    v.insertAttempt error key row = .ok v' ↔ ∃ rows, v.attempts = some rows ∧
      key row ∉ rows.map key ∧ { v with attempts := some (rows ++ [row]) } = v' := by
  unfold insertAttempt
  rw [bind_eq_ok]
  refine exists_congr fun rows => ?_
  rw [selectAttempts_eq_ok, ensure_bind_eq_ok]
  exact and_congr_right fun _ => and_congr_right fun _ =>
    ⟨fun h => Except.ok.inj h, fun h => congrArg _ h⟩

theorem updateAttempt_eq_ok {id : String} {set : ρ → ρ}
    (h : v.updateAttempt error missing key id set = .ok v') : ∃ rows, v.attempts = some rows ∧
      { v with attempts := some (rows.map fun row => if key row = id then set row else row) }
        = v' := by
  unfold updateAttempt at h
  obtain ⟨rows, hrows, h⟩ := bind_eq_ok.mp h
  obtain ⟨-, h⟩ := ensure_bind_eq_ok.mp h
  exact ⟨rows, selectAttempts_eq_ok.mp hrows, Except.ok.inj h⟩

end Tables

/-- **A ledger, as its steps see it.**  A row of `attempts` is `ρ`, and what is recorded
of an attempt is `ο`. -/
structure Ledger (ρ ο : Type) where
  /-- The caps `open` accepts. -/
  least : Nat
  most : Nat
  /-- What one reservation takes from the cap, and what a row counts for. -/
  price : Nat
  cost : ρ → Nat
  key : ρ → String
  /-- `open` syncs a marker that it found as well as one that it made. -/
  resyncs : Bool
  /-- `connect` looks for the marker. -/
  guarded : Bool
  halts : Bool
  /-- The transaction of `open`. -/
  bind : Binding → Bool → Tables ρ → Except String (Tables ρ)
  /-- The transaction of `reserve`, for the id drawn. -/
  reserve : Binding → String → List UInt8 → Tables ρ → Except String (Tables ρ)
  /-- What is read before a result is recorded. -/
  inspect : Binding → Tables ρ → Except String Unit
  record : String → ο → Tables ρ → Except String (Tables ρ)
  /-- What a run records, in order; the flag says whether the call was made. -/
  reports : Bool → List ο → Prop

namespace Ledger

variable {ρ ο : Type} (K : Ledger ρ ο)

def keys (v : Tables ρ) : List String := v.rows.map K.key

/-- A ledger that was made for a binding and has been kept within it. -/
structure Bound (b : Binding) (v : Tables ρ) : Prop where
  version : v.userVersion = 1
  binding : v.binding = some (some b)
  attempts : v.attempts = some v.rows
  nodup : (K.keys v).Nodup
  cost : ∀ row ∈ v.rows, K.cost row = K.price
  within : K.price * v.rows.length ≤ b.cap

/-- **What the transactions of a ledger have to do.** -/
structure Lawful : Prop where
  bind_blank : ∀ {b i v}, K.bind b i .blank = .ok v → i = false ∧ K.Bound b v ∧ v.rows = []
  bind_bound : ∀ {a b i v v'}, K.Bound a v → K.bind b i v = .ok v' → a = b ∧ v' = v
  reserve_blank : ∀ {b id request v}, K.reserve b id request .blank ≠ .ok v
  reserve_bound : ∀ {a b id request v v'}, K.Bound a v → K.reserve b id request v = .ok v' →
    a = b ∧ K.Bound b v' ∧ K.keys v' = K.keys v ++ [id]
  record_blank : ∀ {id o v}, K.record id o .blank ≠ .ok v
  record_bound : ∀ {a id o v v'}, K.Bound a v → K.record id o v = .ok v' →
    K.Bound a v' ∧ K.keys v' = K.keys v

variable {K}

variable {b : Binding} {v : Tables ρ}

theorem Bound.unique {a : Binding} (ha : K.Bound a v) (hb : K.Bound b v) : a = b := by
  have heq := ha.binding.symm.trans hb.binding
  injection heq with heq
  injection heq

theorem Bound.ne_blank (h : K.Bound b v) : v ≠ .blank := by
  rintro rfl
  have hversion := h.version
  cases hversion

theorem Bound.sum_cost (h : K.Bound b v) : (v.rows.map K.cost).sum = K.price * v.rows.length := by
  have hcost : v.rows.map K.cost = v.rows.map fun _ => K.price :=
    List.map_congr_left h.cost
  rw [hcost, List.map_const', List.sum_replicate_nat, Nat.mul_comm]

theorem Bound.insert {v' : Tables ρ} {error : String} {row : ρ} (h : K.Bound b v)
    (hinsert : v.insertAttempt error K.key row = .ok v') (hcost : K.cost row = K.price)
    (hroom : K.price * (v.rows.length + 1) ≤ b.cap) :
    K.Bound b v' ∧ K.keys v' = K.keys v ++ [K.key row] := by
  obtain ⟨rows, hrows, hnew, rfl⟩ := Tables.insertAttempt_eq_ok.mp hinsert
  have heq : v.rows = rows := by rw [Tables.rows, hrows, Option.getD_some]
  rw [heq] at hroom
  have hkeys : K.keys { v with attempts := some (rows ++ [row]) } = K.keys v ++ [K.key row] := by
    rw [keys, keys, heq]
    exact List.map_append
  refine ⟨⟨h.version, h.binding, rfl, ?_, ?_, ?_⟩, hkeys⟩
  · rw [hkeys, keys, heq, ← List.concat_eq_append]
    have hnodup := h.nodup
    rw [keys, heq] at hnodup
    exact List.Nodup.concat hnew hnodup
  · intro other hother
    rcases List.mem_append.mp hother with hold | hnew
    · exact h.cost other (heq ▸ hold)
    · rw [List.mem_singleton.mp hnew]; exact hcost
  · show K.price * (rows ++ [row]).length ≤ b.cap
    rw [List.length_append, List.length_singleton]
    exact hroom

theorem Bound.update {v' : Tables ρ} {error missing id : String} {set : ρ → ρ} (h : K.Bound b v)
    (hupdate : v.updateAttempt error missing K.key id set = .ok v')
    (hkey : ∀ row, K.key (set row) = K.key row) (hcost : ∀ row, K.cost (set row) = K.cost row) :
    K.Bound b v' ∧ K.keys v' = K.keys v := by
  obtain ⟨rows, hrows, rfl⟩ := Tables.updateAttempt_eq_ok hupdate
  have heq : v.rows = rows := by rw [Tables.rows, hrows, Option.getD_some]
  have hkeys : K.keys { v with
      attempts := some (rows.map fun row => if K.key row = id then set row else row) }
        = K.keys v := by
    rw [keys, keys, heq, Tables.rows, Option.getD_some, List.map_map]
    refine List.map_congr_left fun row _ => ?_
    show K.key (if K.key row = id then set row else row) = K.key row
    split
    · exact hkey row
    · rfl
  refine ⟨⟨h.version, h.binding, rfl, ?_, ?_, ?_⟩, hkeys⟩
  · rw [hkeys]; exact h.nodup
  · intro other hother
    obtain ⟨row, hrow, rfl⟩ := List.mem_map.mp hother
    have hold := h.cost row (heq ▸ hrow)
    split
    · exact (hcost row).trans hold
    · exact hold
  · show K.price * (rows.map _).length ≤ b.cap
    rw [List.length_map, ← heq]
    exact h.within

end Ledger

end Baleyg.Allowance
