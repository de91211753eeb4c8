/-
Maps of counts.

A map from keys to counts that holds no zero is one way to keep a multiset: an entry
is made with its first element, raised and lowered with the others, and removed with
its last.  `Counts` says which elements a map stands for, and the two operations are
the arrival and the departure of one.
-/
import Mathlib.Data.List.Nodup

namespace Tally

variable {κ : Type*} [DecidableEq κ]

/-- The count kept for a key, none for a key without an entry. -/
def count (k : κ) : List (κ × Nat) → Nat
  | [] => 0
  | e :: t => if e.1 = k then e.2 else count k t

def bump (k : κ) : List (κ × Nat) → List (κ × Nat)
  | [] => [(k, 1)]
  | e :: t => if e.1 = k then (k, e.2 + 1) :: t else e :: bump k t

/-- One less of a key; the last one takes the entry with it. -/
def drop (k : κ) : List (κ × Nat) → List (κ × Nat)
  | [] => []
  | e :: t =>
      if e.1 = k then if e.2 - 1 = 0 then t else (k, e.2 - 1) :: t
      else e :: drop k t

/-- **The map stands for the elements of a list.** -/
structure Counts (t : List (κ × Nat)) (l : List κ) : Prop where
  keyed : (t.map Prod.fst).Nodup
  positive : ∀ e ∈ t, 0 < e.2
  count : ∀ k, count k t = l.count k

theorem counts_nil : Counts ([] : List (κ × Nat)) [] where
  keyed := List.nodup_nil
  positive := by intro e he; cases he
  count := fun _ => rfl

variable {k : κ} {t : List (κ × Nat)}

theorem count_eq_zero (h : k ∉ t.map Prod.fst) : count k t = 0 := by
  induction t with
  | nil => rfl
  | cons e t ih =>
      rw [List.map_cons, List.mem_cons, not_or] at h
      unfold count
      rw [if_neg (Ne.symm h.1)]
      exact ih h.2

theorem count_bump (k k' : κ) (t : List (κ × Nat)) :
    count k' (bump k t) = count k' t + if k = k' then 1 else 0 := by
  induction t with
  | nil =>
      unfold bump count count
      by_cases hk : k = k'
      · simp [hk]
      · simp [hk]
  | cons e t ih =>
      unfold bump
      by_cases he : e.1 = k
      · rw [if_pos he]
        unfold count
        by_cases hk : k = k'
        · simp [he, hk]
        · simp [he, hk]
      · rw [if_neg he]
        unfold count
        by_cases hk : e.1 = k'
        · have hne : k ≠ k' := fun h => he (hk.trans h.symm)
          simp [hk, hne]
        · rw [if_neg hk, if_neg hk]; exact ih

theorem count_drop (h : (t.map Prod.fst).Nodup) (k k' : κ) :
    count k' (drop k t) = count k' t - if k = k' then 1 else 0 := by
  induction t with
  | nil =>
      unfold drop count
      simp
  | cons e t ih =>
      obtain ⟨hnot, hrest⟩ := List.nodup_cons.mp h
      unfold drop
      by_cases he : e.1 = k
      · rw [if_pos he]
        by_cases hlast : e.2 - 1 = 0
        · rw [if_pos hlast]
          conv_rhs => unfold count
          by_cases hk : k = k'
          · rw [if_pos (he.trans hk), if_pos hk, hlast]
            exact count_eq_zero (hk ▸ he ▸ hnot)
          · rw [if_neg (fun hc => hk (he.symm.trans hc)), if_neg hk]; rfl
        · rw [if_neg hlast]
          unfold count
          by_cases hk : k = k'
          · simp [he, hk]
          · simp [he, hk]
      · rw [if_neg he]
        unfold count
        by_cases hk : e.1 = k'
        · have hne : k ≠ k' := fun h => he (hk.trans h.symm)
          simp [hk, hne]
        · rw [if_neg hk, if_neg hk]; exact ih hrest

theorem mem_keys_bump {k' : κ} : k' ∈ (bump k t).map Prod.fst ↔ k' = k ∨ k' ∈ t.map Prod.fst := by
  induction t with
  | nil => simp [bump]
  | cons e t ih =>
      unfold bump
      by_cases he : e.1 = k
      · rw [if_pos he, List.map_cons, List.map_cons, List.mem_cons, List.mem_cons, he]
        simp
      · rw [if_neg he, List.map_cons, List.map_cons, List.mem_cons, List.mem_cons, ih]
        exact or_left_comm

theorem drop_sublist (k : κ) (t : List (κ × Nat)) :
    ((drop k t).map Prod.fst).Sublist (t.map Prod.fst) := by
  induction t with
  | nil => exact List.Sublist.refl _
  | cons e t ih =>
      unfold drop
      by_cases he : e.1 = k
      · rw [if_pos he]
        by_cases hlast : e.2 - 1 = 0
        · rw [if_pos hlast]; exact List.sublist_cons_self _ _
        · rw [if_neg hlast, List.map_cons, List.map_cons, he]
      · rw [if_neg he]; exact ih.cons_cons _

variable {t : List (κ × Nat)} {l : List κ}

/-- **An element arrives.** -/
theorem Counts.bump (h : Counts t l) (k : κ) : Counts (bump k t) (k :: l) where
  keyed := by
    have hkeyed := h.keyed
    clear h
    induction t with
    | nil => exact List.nodup_singleton k
    | cons e t ih =>
        obtain ⟨hnot, hrest⟩ := List.nodup_cons.mp hkeyed
        unfold Tally.bump
        by_cases he : e.1 = k
        · rw [if_pos he, List.map_cons]; exact he ▸ hkeyed
        · rw [if_neg he, List.map_cons, List.nodup_cons, mem_keys_bump]
          exact ⟨fun hc => hc.elim he hnot, ih hrest⟩
  positive := by
    have hpositive := h.positive
    clear h
    induction t with
    | nil =>
        intro e he
        rw [List.mem_singleton.mp he]
        exact Nat.one_pos
    | cons e t ih =>
        have hhead := hpositive e List.mem_cons_self
        have hrest := ih fun x hx => hpositive x (List.mem_cons_of_mem e hx)
        unfold Tally.bump
        split
        · intro x hx
          rcases List.mem_cons.mp hx with rfl | hx
          · exact Nat.succ_pos _
          · exact hpositive x (List.mem_cons_of_mem e hx)
        · intro x hx
          rcases List.mem_cons.mp hx with rfl | hx
          · exact hhead
          · exact hrest x hx
  count := by
    intro k'
    rw [count_bump, h.count, List.count_cons]
    by_cases hk : k = k'
    · simp [hk]
    · simp [hk]

/-- **An element departs.** -/
theorem Counts.drop (h : Counts t l) (k : κ) : Counts (drop k t) (l.erase k) where
  keyed := h.keyed.sublist (drop_sublist k t)
  positive := by
    have hpositive := h.positive
    clear h
    induction t with
    | nil => intro e he; cases he
    | cons e t ih =>
        have hhead := hpositive e List.mem_cons_self
        have hrest := ih fun x hx => hpositive x (List.mem_cons_of_mem e hx)
        have htail : ∀ x ∈ t, 0 < x.2 := fun x hx => hpositive x (List.mem_cons_of_mem e hx)
        unfold Tally.drop
        split
        · split
          · exact htail
          · rename_i hmore
            intro x hx
            rcases List.mem_cons.mp hx with rfl | hx
            · exact Nat.pos_of_ne_zero hmore
            · exact htail x hx
        · intro x hx
          rcases List.mem_cons.mp hx with rfl | hx
          · exact hhead
          · exact hrest x hx
  count := by
    intro k'
    rw [count_drop h.keyed, h.count, List.count_erase]
    by_cases hk : k = k'
    · simp [hk]
    · simp [hk]

/-- **A key has an entry exactly while it has an element.** -/
theorem Counts.mem_keys (h : Counts t l) : k ∈ t.map Prod.fst ↔ k ∈ l := by
  rw [← @List.count_pos_iff _ _ _ k l, ← h.count]
  constructor
  · intro hk
    have hpositive := h.positive
    clear h
    induction t with
    | nil => cases hk
    | cons e t ih =>
        unfold Tally.count
        by_cases he : e.1 = k
        · rw [if_pos he]; exact hpositive e List.mem_cons_self
        · rw [if_neg he]
          rw [List.map_cons, List.mem_cons] at hk
          exact ih (hk.resolve_left (Ne.symm he)) fun x hx => hpositive x (List.mem_cons_of_mem e hx)
  · intro hk
    by_contra hnot
    rw [count_eq_zero hnot] at hk
    exact Nat.lt_irrefl 0 hk

end Tally
