/-
Closing a set of keys under a parent.

A worklist takes out the least key there is, looks it up, keeps what it finds, and puts the
parent of that, if it has one, back in.  Nothing remembers which keys were taken before, so a
key comes back once for every child of it that is taken, and the loop ends only where no chain
of parents goes round; then it has found whatever can be reached from the keys it began with,
each of them once, in the order of the keys.
-/
import Mathlib.Algebra.BigOperators.Group.List.Basic
import Mathlib.Algebra.Order.Ring.Nat
import Mathlib.Data.List.Sort

namespace Closure

open Relation (ReflTransGen)

variable {κ ρ : Type*} [LinearOrder κ]

/-- A key more in an ordered set. -/
def insert (k : κ) (set : List κ) : List κ :=
  if k ∈ set then set else set.orderedInsert (· ≤ ·) k

/-- An entry of an ordered map, in place of an earlier one of its key. -/
def put (k : κ) (v : ρ) : List (κ × ρ) → List (κ × ρ)
  | [] => [(k, v)]
  | entry :: m =>
      if k < entry.1 then (k, v) :: entry :: m
      else if k = entry.1 then (k, v) :: m
      else entry :: put k v m

/-- The worklist, for so many steps. -/
def close (find : κ → Option ρ) (parent : ρ → Option κ) :
    Nat → List κ → List (κ × ρ) → Option (List (κ × ρ))
  | _, [], m => some m
  | 0, _ :: _, _ => none
  | fuel + 1, k :: set, m =>
      match find k with
      | none => close find parent fuel set m
      | some v =>
          close find parent fuel ((parent v).elim set fun p => insert p set) (put k v m)

def Up (find : κ → Option ρ) (parent : ρ → Option κ) (a b : κ) : Prop :=
  ∃ v, find a = some v ∧ parent v = some b

/-! ### Ordered sets and maps -/

section Ordered

variable {k p : κ} {v w : ρ} {set : List κ} {m : List (κ × ρ)}

theorem mem_insert : p ∈ insert k set ↔ p = k ∨ p ∈ set := by
  unfold insert
  split_ifs with hmem
  · refine ⟨.inr, fun h => h.elim (fun hsame => hsame ▸ hmem) id⟩
  · rw [List.mem_orderedInsert]

theorem mem_put_self : (k, v) ∈ put k v m := by
  induction m with
  | nil => exact List.mem_cons_self
  | cons entry m ih =>
      unfold put
      split_ifs
      · exact List.mem_cons_self
      · exact List.mem_cons_self
      · exact List.mem_cons_of_mem _ ih

theorem mem_of_mem_put (h : (p, w) ∈ put k v m) : (p, w) = (k, v) ∨ (p, w) ∈ m := by
  induction m with
  | nil => exact .inl (List.mem_singleton.mp h)
  | cons entry m ih =>
      unfold put at h
      split_ifs at h
      · exact List.mem_cons.mp h
      · rcases List.mem_cons.mp h with h | h
        · exact .inl h
        · exact .inr (List.mem_cons_of_mem _ h)
      · rcases List.mem_cons.mp h with h | h
        · exact .inr (h ▸ List.mem_cons_self)
        · exact (ih h).imp_right (List.mem_cons_of_mem _)

theorem mem_put_of_ne (hne : p ≠ k) (h : (p, w) ∈ m) : (p, w) ∈ put k v m := by
  induction m with
  | nil => cases h
  | cons entry m ih =>
      unfold put
      split_ifs with hlt heq
      · exact List.mem_cons_of_mem _ h
      · rcases List.mem_cons.mp h with rfl | h
        · exact absurd heq.symm hne
        · exact List.mem_cons_of_mem _ h
      · rcases List.mem_cons.mp h with rfl | h
        · exact List.mem_cons_self
        · exact List.mem_cons_of_mem _ (ih h)

theorem sorted_put (h : (m.map Prod.fst).Pairwise (· < ·)) :
    ((put k v m).map Prod.fst).Pairwise (· < ·) := by
  induction m with
  | nil => exact List.pairwise_singleton _ _
  | cons entry m ih =>
      rw [List.map_cons, List.pairwise_cons] at h
      unfold put
      split_ifs with hlt heq
      · rw [List.map_cons, List.map_cons, List.pairwise_cons, List.pairwise_cons]
        refine ⟨fun p hp => ?_, h.1, h.2⟩
        rcases List.mem_cons.mp hp with rfl | hp
        · exact hlt
        · exact lt_trans hlt (h.1 p hp)
      · rw [List.map_cons, List.pairwise_cons]
        refine ⟨fun p hp => ?_, h.2⟩
        show k < p
        rw [heq]
        exact h.1 p hp
      · rw [List.map_cons, List.pairwise_cons]
        refine ⟨fun p hp => ?_, ih h.2⟩
        obtain ⟨⟨p', w⟩, hmem, rfl⟩ := List.mem_map.mp hp
        rcases mem_of_mem_put hmem with hsame | hmem
        · cases hsame; exact lt_of_le_of_ne (not_lt.mp hlt) (Ne.symm heq)
        · exact h.1 _ (List.mem_map_of_mem hmem)

end Ordered

/-! ### What the worklist finds -/

section Found

variable {find : κ → Option ρ} {parent : ρ → Option κ} {start set : List κ} {m result : List (κ × ρ)}
  {k : κ} {v : ρ}

/-- What holds at every step of the worklist that began with `start`. -/
structure Sound (find : κ → Option ρ) (parent : ρ → Option κ) (start set : List κ)
    (m : List (κ × ρ)) : Prop where
  sorted : (m.map Prod.fst).Pairwise (· < ·)
  found : ∀ k v, (k, v) ∈ m →
    find k = some v ∧ ∃ s ∈ start, ReflTransGen (Up find parent) s k
  pending : ∀ k ∈ set, ∃ s ∈ start, ReflTransGen (Up find parent) s k
  /-- What can be reached has been found, or can be reached from what is left. -/
  left : ∀ s ∈ start, ∀ k v, ReflTransGen (Up find parent) s k → find k = some v →
    (k, v) ∈ m ∨ ∃ p ∈ set, ReflTransGen (Up find parent) p k

theorem sound_start : Sound find parent start start [] :=
  ⟨List.Pairwise.nil, fun _ _ h => absurd h List.not_mem_nil, fun k hk => ⟨k, hk, .refl⟩,
    fun s hs _ _ hreach _ => .inr ⟨s, hs, hreach⟩⟩

theorem Sound.skip (h : Sound find parent start (k :: set) m) (hnone : find k = none) :
    Sound find parent start set m := by
  refine ⟨h.sorted, h.found, fun p hp => h.pending p (List.mem_cons_of_mem _ hp),
    fun s hs p w hreach hw => ?_⟩
  rcases h.left s hs p w hreach hw with hmem | ⟨q, hq, hqp⟩
  · exact .inl hmem
  rcases List.mem_cons.mp hq with rfl | hq
  · rcases hqp.cases_head with rfl | ⟨_, ⟨v, hv, -⟩, -⟩
    · rw [hnone] at hw; cases hw
    · rw [hnone] at hv; cases hv
  · exact .inr ⟨q, hq, hqp⟩

theorem Sound.take (h : Sound find parent start (k :: set) m) (hv : find k = some v) :
    Sound find parent start ((parent v).elim set fun p => insert p set) (put k v m) := by
  obtain ⟨s, hs, hsk⟩ := h.pending k List.mem_cons_self
  have hset : ∀ p ∈ set, p ∈ (parent v).elim set fun p => insert p set := fun p hp => by
    cases parent v with
    | none => exact hp
    | some q => exact mem_insert.mpr (.inr hp)
  refine ⟨sorted_put h.sorted, fun p w hp => ?_, fun p hp => ?_, fun s hs p w hreach hw => ?_⟩
  · rcases mem_of_mem_put hp with hsame | hp
    · cases hsame; exact ⟨hv, s, hs, hsk⟩
    · exact h.found p w hp
  · cases hparent : parent v with
    | none => rw [hparent] at hp; exact h.pending p (List.mem_cons_of_mem _ hp)
    | some q =>
        rw [hparent] at hp
        rcases mem_insert.mp hp with rfl | hp
        · exact ⟨s, hs, hsk.tail ⟨v, hv, hparent⟩⟩
        · exact h.pending p (List.mem_cons_of_mem _ hp)
  · by_cases hpk : p = k
    · subst hpk
      rw [hv] at hw
      cases hw
      exact .inl mem_put_self
    rcases h.left s hs p w hreach hw with hmem | ⟨q, hq, hqp⟩
    · exact .inl (mem_put_of_ne hpk hmem)
    rcases List.mem_cons.mp hq with rfl | hq
    · rcases hqp.cases_head with rfl | ⟨next, ⟨v', hv', hnext⟩, hrest⟩
      · exact absurd rfl hpk
      · rw [hv] at hv'
        cases hv'
        refine .inr ⟨next, ?_, hrest⟩
        rw [hnext]
        exact mem_insert.mpr (.inl rfl)
    · exact .inr ⟨q, hset q hq, hqp⟩

theorem Sound.close {fuel : Nat} (h : Sound find parent start set m)
    (hclose : close find parent fuel set m = some result) : Sound find parent start [] result := by
  induction fuel generalizing set m with
  | zero =>
      cases set with
      | nil => cases hclose; exact h
      | cons k set => cases hclose
  | succ fuel ih =>
      cases set with
      | nil => cases hclose; exact h
      | cons k set =>
          unfold Closure.close at hclose
          cases hfind : find k with
          | none => rw [hfind] at hclose; exact ih (h.skip hfind) hclose
          | some v => rw [hfind] at hclose; exact ih (h.take hfind) hclose

/-- **The worklist finds exactly what can be reached, in order and each key once.** -/
theorem close_spec {fuel : Nat} (hclose : close find parent fuel start [] = some result) :
    (result.map Prod.fst).Pairwise (· < ·) ∧ ∀ k v, (k, v) ∈ result ↔
      find k = some v ∧ ∃ s ∈ start, ReflTransGen (Up find parent) s k := by
  have h := sound_start.close hclose
  refine ⟨h.sorted, fun k v => ⟨h.found k v, ?_⟩⟩
  rintro ⟨hv, s, hs, hreach⟩
  rcases h.left s hs k v hreach hv with hmem | ⟨p, hp, -⟩
  · exact hmem
  · cases hp

/-! ### Where parents do not go round, it ends -/

/-- What is left to do: every key may yet come back as often as it has ancestors. -/
def weight (rank : κ → Nat) (set : List κ) : Nat := (set.map fun k => rank k + 1).sum

theorem weight_insert (rank : κ → Nat) (k : κ) (set : List κ) :
    weight rank (insert k set) ≤ rank k + 1 + weight rank set := by
  unfold insert weight
  split_ifs with hmem
  · omega
  · rw [((List.perm_orderedInsert (· ≤ ·) k set).map _).sum_eq, List.map_cons, List.sum_cons]

/-- **So many steps are enough.** -/
theorem close_ends {rank : κ → Nat} (hrank : ∀ a b, Up find parent a b → rank b < rank a)
    {fuel : Nat} (hfuel : weight rank set ≤ fuel) :
    ∃ result, close find parent fuel set m = some result := by
  induction fuel generalizing set m with
  | zero =>
      cases set with
      | nil => exact ⟨m, rfl⟩
      | cons k set =>
          unfold weight at hfuel
          rw [List.map_cons, List.sum_cons] at hfuel
          omega
  | succ fuel ih =>
      cases set with
      | nil => exact ⟨m, rfl⟩
      | cons k set =>
          have hweight : weight rank (k :: set) = rank k + 1 + weight rank set := by
            unfold weight
            rw [List.map_cons, List.sum_cons]
          unfold close
          cases hfind : find k with
          | none => exact ih (by omega)
          | some v =>
              refine ih ?_
              cases hparent : parent v with
              | none =>
                  show weight rank set ≤ fuel
                  omega
              | some p =>
                  have hlt := hrank k p ⟨v, hfind, hparent⟩
                  have hle := weight_insert rank p set
                  show weight rank (insert p set) ≤ fuel
                  omega

end Found

end Closure
