/-
The publication gate.

One process has one gate for each index, and whoever writes the index holds a permit
of it.  A publisher counts itself as waiting before it looks at the gate, and from
then on maintenance is turned away; it stops waiting when it gets its permit, is
cancelled or runs out of time, and each of these ways out takes the count back.  A
permit gives the gate back when it is dropped, be it by a panic that unwinds its
holder.

Everything under the gate's lock is one event here, so the events are the first turn
of a publisher, each later turn of its loop, an attempt of maintenance, and the drop
of a permit.  The gate itself is found through a registry of weak references, so the
world also opens and closes stores: a gate somebody still holds is the one the
registry gives for its key.
-/
import Baleyg.Lib.Runs
import Baleyg.Lib.Table

namespace Baleyg.Process

/-! ### One gate -/

structure GateState where
  active : Bool
  maintenance : Bool
  waiting : Nat
  deriving DecidableEq, Repr

def GateState.default : GateState := ⟨false, false, 0⟩

/-- `PublicationWaitReason`. -/
inductive WaitReason where
  | none
  | maintenance
  | publisher
  deriving DecidableEq, Repr

/-- A call of `enter_publication` that waits. -/
structure Waiter where
  started : Nat
  deadline : Nat
  waitReason : WaitReason
  deriving DecidableEq, Repr

inductive Permit where
  | publish (waitedFor : Nat) (waitReason : WaitReason)
  | maintenance
  deriving DecidableEq, Repr

structure Turn where
  cancelled : Bool
  now : Nat
  deriving DecidableEq, Repr

inductive Entry where
  | cancelled
  | entered (permit : Permit)
  | contention
  | waits (waiter : Waiter)
  deriving DecidableEq, Repr

namespace GateState

/-- Why a publisher waits is settled the first time it has to. -/
def reasonFor (s : GateState) : WaitReason → WaitReason
  | .none => if s.maintenance then .maintenance else .publisher
  | reason => reason

/-- One turn of the loop of `enter_publication`, under the lock. -/
def turn (s : GateState) (c : Waiter) (t : Turn) : Entry × GateState :=
  if t.cancelled then (.cancelled, { s with waiting := s.waiting - 1 })
  else if s.active = false then
    (.entered (.publish (t.now - c.started) c.waitReason),
      { s with waiting := s.waiting - 1, active := true, maintenance := false })
  else if c.deadline - t.now = 0 then (.contention, { s with waiting := s.waiting - 1 })
  else (.waits { c with waitReason := s.reasonFor c.waitReason }, s)

/-- `enter_publication` up to the end of its first turn. -/
def enterPublication (s : GateState) (started maxWait : Nat) (t : Turn) : Entry × GateState :=
  ({ s with waiting := s.waiting + 1 }).turn ⟨started, started + maxWait, .none⟩ t

/-- `maintenance_try_enter`, which gives up when the lock is taken. -/
def maintenanceTryEnter (s : GateState) (locked : Bool) : Option Permit × GateState :=
  if locked ∨ s.active ∨ s.waiting ≠ 0 then (none, s)
  else (some .maintenance, { s with active := true, maintenance := true })

def dropped (s : GateState) : GateState := { s with active := false, maintenance := false }

end GateState

/-- A gate, with the stores that hold it and the calls and permits it counts. -/
structure Gate where
  key : String
  stores : Nat
  state : GateState
  waiters : List Waiter
  permits : List Permit
  deriving DecidableEq, Repr

namespace Gate

def fresh (key : String) : Gate := ⟨key, 1, .default, [], []⟩

/-- `Weak::strong_count`: the stores and the permits own the gate. -/
def strongCount (g : Gate) : Nat := g.stores + g.permits.length

/-- The gate after a turn of a call that is not among its waiters any more. -/
def turned (g : Gate) : Entry × GateState → Gate
  | (.entered permit, s) => { g with state := s, permits := g.permits ++ [permit] }
  | (.waits waiter, s) => { g with state := s, waiters := g.waiters ++ [waiter] }
  | (_, s) => { g with state := s }

def enter (g : Gate) (started maxWait : Nat) (t : Turn) : Gate :=
  g.turned (g.state.enterPublication started maxWait t)

def wake (g : Gate) (i : Nat) (t : Turn) : Gate :=
  match g.waiters[i]? with
  | none => g
  | some c => { g with waiters := g.waiters.eraseIdx i }.turned (g.state.turn c t)

def maintain (g : Gate) (locked : Bool) : Gate :=
  match g.state.maintenanceTryEnter locked with
  | (none, s) => { g with state := s }
  | (some permit, s) => { g with state := s, permits := g.permits ++ [permit] }

def drop (g : Gate) (i : Nat) : Gate :=
  if i < g.permits.length then
    { g with state := g.state.dropped, permits := g.permits.eraseIdx i }
  else g

/-- **What holds of a gate**: it counts its waiters, it is active while its one permit
is out, and it is in maintenance while that is a permit of maintenance. -/
structure Counts (g : Gate) : Prop where
  waiting : g.state.waiting = g.waiters.length
  permits : g.permits.length ≤ 1
  active : g.state.active = true ↔ g.permits ≠ []
  maintenance : g.state.maintenance = true ↔ .maintenance ∈ g.permits

theorem counts_fresh (key : String) : (fresh key).Counts where
  waiting := rfl
  permits := Nat.zero_le 1
  active := by simp [fresh, GateState.default]
  maintenance := by simp [fresh, GateState.default]

theorem counts_turned {g : Gate} {s : GateState} (hwaiting : s.waiting = g.waiters.length + 1)
    (hpermits : g.permits.length ≤ 1) (hactive : s.active = true ↔ g.permits ≠ [])
    (hmaintenance : s.maintenance = true ↔ .maintenance ∈ g.permits) (c : Waiter) (t : Turn) :
    (g.turned (s.turn c t)).Counts := by
  have hone : s.waiting - 1 = g.waiters.length := by omega
  unfold GateState.turn
  by_cases hcancelled : t.cancelled = true
  · rw [if_pos hcancelled]; exact ⟨hone, hpermits, hactive, hmaintenance⟩
  rw [if_neg hcancelled]
  by_cases hidle : s.active = false
  · have hnone : g.permits = [] := by
      by_contra hne
      rw [hactive.mpr hne] at hidle
      cases hidle
    rw [if_pos hidle]
    refine ⟨hone, ?_, ?_, ?_⟩
    · show (g.permits ++ [_]).length ≤ 1
      rw [hnone]
      exact Nat.le_refl 1
    · show true = true ↔ g.permits ++ [_] ≠ []
      simp
    · show false = true ↔ Permit.maintenance ∈ g.permits ++ [_]
      rw [hnone]
      simp
  rw [if_neg hidle]
  by_cases hlate : c.deadline - t.now = 0
  · rw [if_pos hlate]; exact ⟨hone, hpermits, hactive, hmaintenance⟩
  · rw [if_neg hlate]
    refine ⟨?_, hpermits, hactive, hmaintenance⟩
    show s.waiting = (g.waiters ++ [_]).length
    rw [hwaiting, List.length_append, List.length_singleton]

variable {g : Gate}

theorem Counts.enter (h : g.Counts) (started maxWait : Nat) (t : Turn) :
    (g.enter started maxWait t).Counts := by
  have hwaiting : g.state.waiting + 1 = g.waiters.length + 1 := by rw [h.waiting]
  exact @counts_turned g { g.state with waiting := g.state.waiting + 1 } hwaiting h.permits
    h.active h.maintenance _ t

theorem Counts.wake (h : g.Counts) (i : Nat) (t : Turn) : (g.wake i t).Counts := by
  unfold Gate.wake
  cases hfound : g.waiters[i]? with
  | none => exact h
  | some c =>
      have hi : i < g.waiters.length := (List.getElem?_eq_some_iff.mp hfound).1
      have hwaiting : g.state.waiting = (g.waiters.eraseIdx i).length + 1 := by
        rw [h.waiting, List.length_eraseIdx_of_lt hi]
        omega
      exact @counts_turned { g with waiters := g.waiters.eraseIdx i } g.state hwaiting h.permits
        h.active h.maintenance c t

theorem Counts.maintain (h : g.Counts) (locked : Bool) : (g.maintain locked).Counts := by
  unfold Gate.maintain GateState.maintenanceTryEnter
  by_cases hbusy : locked = true ∨ g.state.active = true ∨ g.state.waiting ≠ 0
  · rw [if_pos hbusy]; exact h
  · have hnone : g.permits = [] := by
      by_contra hne
      exact hbusy (Or.inr (Or.inl (h.active.mpr hne)))
    rw [if_neg hbusy]
    refine ⟨h.waiting, ?_, ?_, ?_⟩
    · show (g.permits ++ [_]).length ≤ 1
      rw [hnone]
      exact Nat.le_refl 1
    · show true = true ↔ g.permits ++ [_] ≠ []
      simp
    · show true = true ↔ Permit.maintenance ∈ g.permits ++ [_]
      simp

theorem Counts.drop (h : g.Counts) (i : Nat) : (g.drop i).Counts := by
  unfold Gate.drop
  by_cases hi : i < g.permits.length
  · have hnone : g.permits.eraseIdx i = [] := by
      rw [← List.length_eq_zero_iff, List.length_eraseIdx_of_lt hi]
      have hone := h.permits
      omega
    rw [if_pos hi]
    refine ⟨h.waiting, ?_, ?_, ?_⟩
    · show (g.permits.eraseIdx i).length ≤ 1
      rw [hnone]
      exact Nat.zero_le 1
    · show false = true ↔ g.permits.eraseIdx i ≠ []
      rw [hnone]
      simp
    · show false = true ↔ Permit.maintenance ∈ g.permits.eraseIdx i
      rw [hnone]
      simp
  · rw [if_neg hi]; exact h

/-- **With every permit dropped the gate is as it was made**, but for those who wait. -/
theorem Counts.idle (h : g.Counts) (hnone : g.permits = []) :
    g.state = { GateState.default with waiting := g.waiters.length } := by
  have hactive : g.state.active = false := by
    rw [Bool.eq_false_iff]
    exact fun hon => h.active.mp hon hnone
  have hmaintenance : g.state.maintenance = false := by
    rw [Bool.eq_false_iff]
    intro hon
    have hmem := h.maintenance.mp hon
    rw [hnone] at hmem
    cases hmem
  calc g.state = ⟨g.state.active, g.state.maintenance, g.state.waiting⟩ := rfl
    _ = ⟨false, false, g.waiters.length⟩ := by rw [hactive, hmaintenance, h.waiting]

/-- **Maintenance gets its permit only while nobody waits and no permit is out.** -/
theorem Counts.granted (h : g.Counts) {locked : Bool} {permit : Permit}
    (hgrant : (g.state.maintenanceTryEnter locked).1 = some permit) :
    g.waiters = [] ∧ g.permits = [] := by
  unfold GateState.maintenanceTryEnter at hgrant
  by_cases hbusy : locked = true ∨ g.state.active = true ∨ g.state.waiting ≠ 0
  · rw [if_pos hbusy] at hgrant; cases hgrant
  · refine ⟨?_, ?_⟩
    · rw [← List.length_eq_zero_iff, ← h.waiting]
      by_contra hne
      exact hbusy (Or.inr (Or.inr hne))
    · by_contra hne
      exact hbusy (Or.inr (Or.inl (h.active.mpr hne)))

end Gate

/-! ### The gates of a process -/

/-- The gates ever made, by address, and the static map of weak references to them. -/
structure Gates where
  heap : List Gate
  registry : List (String × Nat)
  deriving DecidableEq, Repr

namespace Gates

def start : Gates := ⟨[], []⟩

/-- `Weak::upgrade`: the gate is there as long as somebody owns it. -/
def upgrade (w : Gates) (a : Nat) : Option Gate := w.heap[a]?.filter fun g => 0 < g.strongCount

def update (w : Gates) (a : Nat) (f : Gate → Gate) : Gates := { w with heap := w.heap.modify a f }

/-- `publication_gate`: the gate of the key, or a new one in its place. -/
def publicationGate (w : Gates) (key : String) : Gates :=
  match (w.registry.find? fun e => e.1 = key).filter fun e => (w.upgrade e.2).isSome with
  | some e => w.update e.2 fun g => { g with stores := g.stores + 1 }
  | none =>
      { heap := w.heap ++ [.fresh key]
        registry := (w.registry.filter fun e => (w.upgrade e.2).isSome ∧ e.1 ≠ key)
          ++ [(key, w.heap.length)] }

inductive Event where
  | openStore (key : String)
  | closeStore (a : Nat)
  | enter (a started maxWait : Nat) (t : Turn)
  | wake (a i : Nat) (t : Turn)
  | maintain (a : Nat) (locked : Bool)
  | drop (a i : Nat)

def perform (w : Gates) : Event → Gates
  | .openStore key => w.publicationGate key
  | .closeStore a => w.update a fun g => { g with stores := g.stores - 1 }
  | .enter a started maxWait t => w.update a fun g => g.enter started maxWait t
  | .wake a i t => w.update a fun g => g.wake i t
  | .maintain a locked => w.update a fun g => g.maintain locked
  | .drop a i => w.update a fun g => g.drop i

/-- A store is borrowed by the calls that wait on its gate, so the last one stays while
any does, and it is a store that a call enters by. -/
def Possible (w : Gates) : Event → Prop
  | .closeStore a => ∀ g, w.heap[a]? = some g → g.stores = 1 → g.waiters = []
  | .enter a _ _ _ => ∀ g, w.heap[a]? = some g → 0 < g.stores
  | .maintain a _ => ∀ g, w.heap[a]? = some g → 0 < g.stores
  | _ => True

def Step (w w' : Gates) : Prop := ∃ e, w.Possible e ∧ w' = w.perform e

def Reached : Gates → Prop := Runs.Reachable (fun w => w = start) Step

/-- **What holds of the gates of a process**: besides the counts, a gate somebody owns
is the one the registry has for its key. -/
structure Kept (w : Gates) : Prop where
  counts : ∀ g ∈ w.heap, g.Counts
  borrowed : ∀ g ∈ w.heap, g.waiters ≠ [] → 0 < g.stores
  keyed : Table.Keyed Prod.fst w.registry
  registered : ∀ e ∈ w.registry, ∃ g, w.heap[e.2]? = some g ∧ g.key = e.1
  owned : ∀ (a : Nat) g, w.heap[a]? = some g → 0 < g.strongCount → (g.key, a) ∈ w.registry

theorem kept_start : start.Kept where
  counts := by intro g hg; cases hg
  borrowed := by intro g hg; cases hg
  keyed := Table.keyed_nil _
  registered := by intro e he; cases he
  owned := by intro a g hg; simp [start] at hg

variable {w w' : Gates}

/-- What an event on one gate must do to keep the invariant. -/
structure Keeps (g g' : Gate) : Prop where
  key : g'.key = g.key
  counts : g'.Counts
  borrowed : g'.waiters ≠ [] → 0 < g'.stores
  owned : 0 < g'.strongCount → 0 < g.strongCount

theorem Kept.update (h : w.Kept) {a : Nat} {f : Gate → Gate}
    (hf : ∀ g, w.heap[a]? = some g → Keeps g (f g)) : (w.update a f).Kept := by
  have hget : ∀ (b : Nat) g', (w.heap.modify a f)[b]? = some g' →
      ∃ g, w.heap[b]? = some g ∧ (g' = g ∨ b = a ∧ g' = f g) := by
    intro b g' hb
    rw [List.getElem?_modify] at hb
    obtain ⟨g, hg, hg'⟩ := Option.map_eq_some_iff.mp hb
    refine ⟨g, hg, ?_⟩
    by_cases hab : a = b
    · rw [if_pos hab] at hg'
      exact Or.inr ⟨hab.symm, hg'.symm⟩
    · rw [if_neg hab] at hg'
      exact Or.inl hg'.symm
  have hall : ∀ g' ∈ (w.update a f).heap, g'.Counts ∧ (g'.waiters ≠ [] → 0 < g'.stores) := by
    intro g' hg'
    obtain ⟨b, hb⟩ := List.mem_iff_getElem?.mp hg'
    obtain ⟨g, hg, hsame | ⟨rfl, rfl⟩⟩ := hget b g' hb
    · rw [hsame]
      exact ⟨h.counts g (List.mem_of_getElem? hg), h.borrowed g (List.mem_of_getElem? hg)⟩
    · exact ⟨(hf g hg).counts, (hf g hg).borrowed⟩
  refine ⟨fun g hg => (hall g hg).1, fun g hg => (hall g hg).2, h.keyed, ?_, ?_⟩
  · intro e he
    obtain ⟨g, hg, hkey⟩ := h.registered e he
    show ∃ g', (w.heap.modify a f)[e.2]? = some g' ∧ g'.key = e.1
    rw [List.getElem?_modify, hg]
    by_cases hae : a = e.2
    · exact ⟨f g, by simp [hae], (hf g (hae ▸ hg)).key.trans hkey⟩
    · exact ⟨g, by simp [hae], hkey⟩
  · intro b g' hb howned
    obtain ⟨g, hg, hsame | ⟨rfl, rfl⟩⟩ := hget b g' hb
    · rw [hsame] at howned ⊢
      exact h.owned b g hg howned
    · rw [(hf g hg).key]; exact h.owned b g hg ((hf g hg).owned howned)

/-! ### What one event keeps -/

theorem key_turned (g : Gate) (r : Entry × GateState) : (g.turned r).key = g.key := by
  unfold Gate.turned
  split <;> rfl

theorem stores_turned (g : Gate) (r : Entry × GateState) : (g.turned r).stores = g.stores := by
  unfold Gate.turned
  split <;> rfl

variable {g : Gate}

theorem keeps_enter (hc : g.Counts) (hopen : 0 < g.stores) (started maxWait : Nat) (t : Turn) :
    Keeps g (g.enter started maxWait t) where
  key := key_turned g _
  counts := hc.enter started maxWait t
  borrowed := by
    unfold Gate.enter
    rw [stores_turned]
    exact fun _ => hopen
  owned := fun _ => Nat.lt_of_lt_of_le hopen (Nat.le_add_right _ _)

theorem keeps_wake (hc : g.Counts) (hborrowed : g.waiters ≠ [] → 0 < g.stores) (i : Nat)
    (t : Turn) : Keeps g (g.wake i t) := by
  have hcounts := hc.wake i t
  unfold Gate.wake at hcounts ⊢
  cases hfound : g.waiters[i]? with
  | none => exact ⟨rfl, hc, hborrowed, id⟩
  | some c =>
      rw [hfound] at hcounts
      have hopen : 0 < g.stores := by
        refine hborrowed fun hnone => ?_
        rw [hnone] at hfound
        cases hfound
      refine ⟨key_turned _ _, hcounts, ?_, fun _ => Nat.lt_of_lt_of_le hopen (Nat.le_add_right _ _)⟩
      intro _
      dsimp only
      rwa [stores_turned]

theorem keeps_maintain (hc : g.Counts) (hopen : 0 < g.stores) (locked : Bool) :
    Keeps g (g.maintain locked) := by
  have hsame : (g.maintain locked).key = g.key ∧ (g.maintain locked).stores = g.stores := by
    unfold Gate.maintain
    split <;> exact ⟨rfl, rfl⟩
  refine ⟨hsame.1, hc.maintain locked, ?_, ?_⟩
  · rw [hsame.2]; exact fun _ => hopen
  · exact fun _ => Nat.lt_of_lt_of_le hopen (Nat.le_add_right _ _)

theorem keeps_drop (hc : g.Counts) (hborrowed : g.waiters ≠ [] → 0 < g.stores) (i : Nat) :
    Keeps g (g.drop i) := by
  have hcounts := hc.drop i
  unfold Gate.drop at hcounts ⊢
  by_cases hi : i < g.permits.length
  · rw [if_pos hi] at hcounts ⊢
    refine ⟨rfl, hcounts, hborrowed, fun _ => ?_⟩
    unfold Gate.strongCount
    omega
  · rw [if_neg hi]; exact ⟨rfl, hc, hborrowed, id⟩

theorem keeps_close (hc : g.Counts) (hborrowed : g.waiters ≠ [] → 0 < g.stores)
    (hlast : g.stores = 1 → g.waiters = []) : Keeps g { g with stores := g.stores - 1 } where
  key := rfl
  counts := ⟨hc.waiting, hc.permits, hc.active, hc.maintenance⟩
  borrowed := by
    intro hwaiters
    have hopen := hborrowed hwaiters
    have hmore : g.stores ≠ 1 := fun hone => hwaiters (hlast hone)
    show 0 < g.stores - 1
    omega
  owned := by
    unfold Gate.strongCount
    dsimp only
    omega

theorem upgrade_eq_some {a : Nat} :
    w.upgrade a = some g ↔ w.heap[a]? = some g ∧ 0 < g.strongCount := by
  unfold upgrade
  rw [Option.filter_eq_some_iff, decide_eq_true_eq]

/-- **Opening a store** finds the gate of its key, or makes one no gate is owned
beside. -/
theorem Kept.publicationGate (h : w.Kept) (key : String) : (w.publicationGate key).Kept := by
  unfold Gates.publicationGate
  cases hfound : (w.registry.find? fun e => e.1 = key).filter fun e => (w.upgrade e.2).isSome with
  | some e =>
      obtain ⟨-, hupgrade⟩ := Option.filter_eq_some_iff.mp hfound
      obtain ⟨g, hup⟩ := Option.isSome_iff_exists.mp hupgrade
      obtain ⟨hg, howned⟩ := upgrade_eq_some.mp hup
      refine h.update fun g' hg' => ?_
      obtain rfl : g = g' := Option.some.inj (hg.symm.trans hg')
      have hc := h.counts g (List.mem_of_getElem? hg)
      exact ⟨rfl, ⟨hc.waiting, hc.permits, hc.active, hc.maintenance⟩,
        fun _ => Nat.succ_pos _, fun _ => howned⟩
  | none =>
      -- a gate of this key that is owned would have been found
      have hother : ∀ (a : Nat) g, w.heap[a]? = some g → 0 < g.strongCount → g.key ≠ key := by
        rintro a g hg howned rfl
        have hentry := h.owned a g hg howned
        have hfind : (w.registry.find? fun e => e.1 = g.key) = some (g.key, a) := by
          cases hfind : w.registry.find? fun e => e.1 = g.key with
          | none =>
              have hnot := List.find?_eq_none.mp hfind _ hentry
              simp at hnot
          | some e =>
              have hkey : e.1 = g.key := by simpa using List.find?_some hfind
              rw [h.keyed.eq_of_key (List.mem_of_find?_eq_some hfind) hentry hkey]
        rw [hfind, Option.filter_eq_none_iff] at hfound
        exact hfound _ rfl (Option.isSome_iff_exists.mpr ⟨g, upgrade_eq_some.mpr ⟨hg, howned⟩⟩)
      refine ⟨?_, ?_, ?_, ?_, ?_⟩
      · intro g hg
        rcases List.mem_append.mp hg with hg | hg
        · exact h.counts g hg
        · rw [List.mem_singleton.mp hg]; exact Gate.counts_fresh key
      · intro g hg hwaiters
        rcases List.mem_append.mp hg with hg | hg
        · exact h.borrowed g hg hwaiters
        · rw [List.mem_singleton.mp hg] at hwaiters; exact absurd rfl hwaiters
      · refine (h.keyed.sublist List.filter_sublist).append_row fun e he => ?_
        have hkept := (List.mem_filter.mp he).2
        simp only [decide_eq_true_eq] at hkept
        exact hkept.2
      · intro e he
        rcases List.mem_append.mp he with he | he
        · obtain ⟨g, hg, hkey⟩ := h.registered e (List.mem_filter.mp he).1
          refine ⟨g, ?_, hkey⟩
          rw [List.getElem?_append_left (List.getElem?_eq_some_iff.mp hg).1]
          exact hg
        · rw [List.mem_singleton.mp he]
          exact ⟨.fresh key, List.getElem?_concat_length, rfl⟩
      · intro a g hg howned
        rw [List.mem_append]
        rcases Nat.lt_or_ge a w.heap.length with hlt | hge
        · have hold : w.heap[a]? = some g := by
            rwa [List.getElem?_append_left hlt] at hg
          left
          refine List.mem_filter.mpr ⟨h.owned a g hold howned, ?_⟩
          rw [decide_eq_true_eq]
          exact ⟨Option.isSome_iff_exists.mpr ⟨g, upgrade_eq_some.mpr ⟨hold, howned⟩⟩,
            hother a g hold howned⟩
        · right
          rw [List.getElem?_append_right hge, List.getElem?_singleton] at hg
          split at hg
          · obtain rfl := Option.some.inj hg
            rw [show a = w.heap.length by omega]
            exact List.mem_singleton_self _
          · cases hg

theorem kept_step (hstep : Step w w') (h : w.Kept) : w'.Kept := by
  obtain ⟨e, hpossible, rfl⟩ := hstep
  cases e with
  | openStore key => exact h.publicationGate key
  | closeStore a =>
      exact h.update fun g hg => keeps_close (h.counts g (List.mem_of_getElem? hg))
        (h.borrowed g (List.mem_of_getElem? hg)) (hpossible g hg)
  | enter a started maxWait t =>
      exact h.update fun g hg => keeps_enter (h.counts g (List.mem_of_getElem? hg))
        (hpossible g hg) started maxWait t
  | wake a i t =>
      exact h.update fun g hg => keeps_wake (h.counts g (List.mem_of_getElem? hg))
        (h.borrowed g (List.mem_of_getElem? hg)) i t
  | maintain a locked =>
      exact h.update fun g hg => keeps_maintain (h.counts g (List.mem_of_getElem? hg))
        (hpossible g hg) locked
  | drop a i =>
      exact h.update fun g hg => keeps_drop (h.counts g (List.mem_of_getElem? hg))
        (h.borrowed g (List.mem_of_getElem? hg)) i

theorem Reached.kept (h : Reached w) : w.Kept := by
  have hstep : ∀ u v, Step u v → u.Kept → v.Kept := fun u v huv hu => kept_step huv hu
  refine Runs.Reachable.keeps ?_ hstep h
  rintro _ rfl
  exact kept_start

end Gates

/-- **The publication gate.**  In every history of the gates of a process: a gate has
at most one permit out and counts exactly the publishers that wait; with every permit
dropped it is in its initial state but for those who still wait; maintenance is granted
a permit only while no publisher waits on the gate or holds it; and two gates of one key
are never in use at once. -/
theorem publication_gate {w : Gates} (h : w.Reached) :
    (∀ g ∈ w.heap, g.permits.length ≤ 1 ∧ g.state.waiting = g.waiters.length
        ∧ (g.permits = [] → g.state = { GateState.default with waiting := g.waiters.length })
        ∧ (g.permits = [] → g.waiters = [] → g.state = .default)
        ∧ ∀ locked permit, (g.state.maintenanceTryEnter locked).1 = some permit →
          g.waiters = [] ∧ g.permits = [])
      ∧ ∀ (a b : Nat) g g', w.heap[a]? = some g → w.heap[b]? = some g' → g.key = g'.key →
        (g.permits ≠ [] ∨ g.waiters ≠ []) → (g'.permits ≠ [] ∨ g'.waiters ≠ []) → a = b := by
  have hkept := h.kept
  refine ⟨fun g hg => ?_, ?_⟩
  · have hcounts := hkept.counts g hg
    refine ⟨hcounts.permits, hcounts.waiting, hcounts.idle, ?_, fun _ _ => hcounts.granted⟩
    intro hpermits hwaiters
    rw [hcounts.idle hpermits, hwaiters]
    rfl
  · have howned : ∀ (a : Nat) g, w.heap[a]? = some g → (g.permits ≠ [] ∨ g.waiters ≠ []) →
        (g.key, a) ∈ w.registry := by
      intro a g hg huse
      refine hkept.owned a g hg ?_
      unfold Gate.strongCount
      rcases huse with hpermits | hwaiters
      · have hpos := List.length_pos_iff.mpr hpermits
        omega
      · have hpos := hkept.borrowed g (List.mem_of_getElem? hg) hwaiters
        omega
    intro a b g g' hg hg' hkey huse huse'
    have hentry := hkept.keyed.eq_of_key (howned a g hg huse) (howned b g' hg' huse') hkey
    exact congrArg Prod.snd hentry

def Gates.sample : Gates :=
  ((start.perform (.openStore "key")).perform (.maintain 0 false)).perform (.enter 0 0 250 ⟨false, 1⟩)

theorem Gates.reached_sample : Gates.sample.Reached := by
  have hopen : ∀ (w : Gates), (∀ g ∈ w.heap, 0 < g.stores) →
      ∀ g, w.heap[0]? = some g → 0 < g.stores :=
    fun w hall g hg => hall g (List.mem_of_getElem? hg)
  have hstart : Gates.start.Reached := Runs.Reachable.start rfl
  have hmaintained := (hstart.then (.single ⟨.openStore "key", trivial, rfl⟩)).then
    (.single ⟨.maintain 0 false, hopen _ (by decide), rfl⟩)
  exact hmaintained.then (.single ⟨.enter 0 0 250 ⟨false, 1⟩, hopen _ (by decide), rfl⟩)

/-- The publisher of the sample is counted, and waits for a permit of maintenance. -/
theorem publication_gate_sample :
    Gates.sample.heap = [⟨"key", 1, ⟨true, true, 1⟩, [⟨0, 250, .maintenance⟩], [.maintenance]⟩]
      ∧ ∀ g ∈ Gates.sample.heap, g.permits.length ≤ 1 ∧ g.state.waiting = g.waiters.length :=
  ⟨by decide, fun g hg => ⟨((publication_gate Gates.reached_sample).1 g hg).1,
    ((publication_gate Gates.reached_sample).1 g hg).2.1⟩⟩

end Baleyg.Process
