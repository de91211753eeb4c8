/-
Registers: maps kept as the list of their rows.

A map whose values carry their key can be kept as a list of values no two of which share
one.  `get` finds the row of a key, `alter` changes it where it stands, `remove` takes it
out, and `put` puts a row in place of the one with its key.  Properties of all rows are
kept by whatever keeps them of one row, and a count of rows changes by at most the one
row that was changed.
-/
import Baleyg.Lib.Table

namespace Register

open Table (Keyed)

variable {α κ : Type*} [DecidableEq κ] {key : α → κ} {rows : List α} {k : κ} {a : α}

/-- The row of a key. -/
def get (key : α → κ) (k : κ) (rows : List α) : Option α := rows.find? fun a => key a = k

/-- The row of a key, changed in place. -/
def alter (key : α → κ) (k : κ) (f : α → α) (rows : List α) : List α :=
  rows.map fun a => if key a = k then f a else a

/-- Every row but that of a key. -/
def remove (key : α → κ) (k : κ) (rows : List α) : List α := rows.filter fun a => key a ≠ k

/-- A row, in place of the one with its key. -/
def put (key : α → κ) (a : α) (rows : List α) : List α := remove key (key a) rows ++ [a]

theorem mem_of_get (h : get key k rows = some a) : a ∈ rows ∧ key a = k :=
  ⟨List.mem_of_find?_eq_some h, of_decide_eq_true (List.find?_some (p := fun a => key a = k) h)⟩

/-- Where keys are distinct, the row of a key is the one that has it. -/
theorem get_eq_some (h : Keyed key rows) : get key k rows = some a ↔ a ∈ rows ∧ key a = k := by
  constructor
  · intro hget; exact mem_of_get hget
  · rintro ⟨hmem, hkey⟩
    cases hget : get key k rows with
    | none =>
        have hnone := List.find?_eq_none.mp hget a hmem
        exact absurd (decide_eq_true hkey) hnone
    | some b =>
        obtain ⟨hb, hkb⟩ := mem_of_get hget
        rw [h.eq_of_key hmem hb (hkey.trans hkb.symm)]

theorem get_eq_none : get key k rows = none ↔ ∀ a ∈ rows, key a ≠ k := by
  unfold get
  rw [List.find?_eq_none]
  exact forall₂_congr fun a _ => by rw [decide_eq_true_eq]

/-- The order of rows makes no difference. -/
theorem get_eq_of_perm {rows' : List α} (h : Keyed key rows) (hperm : rows'.Perm rows) :
    get key k rows' = get key k rows := by
  refine (h.find?_perm hperm.symm fun a b ha hb => ?_).symm
  rw [of_decide_eq_true ha, of_decide_eq_true hb]

/-- The last row of a key is as good as the first, where there is one only. -/
theorem get_reverse_eq_of_perm {rows' : List α} (h : Keyed key rows) (hperm : rows'.Perm rows) :
    get key k rows'.reverse = get key k rows.reverse := by
  have hkeyed : Keyed key rows.reverse := by
    unfold Keyed
    rw [List.map_reverse, List.nodup_reverse]
    exact h
  refine get_eq_of_perm hkeyed ?_
  exact (List.reverse_perm rows').trans (hperm.trans (List.reverse_perm rows).symm)

section Alter

variable {f : α → α}

theorem mem_alter {b : α} :
    b ∈ alter key k f rows ↔ (b ∈ rows ∧ key b ≠ k) ∨ ∃ a ∈ rows, key a = k ∧ f a = b := by
  unfold alter
  rw [List.mem_map]
  constructor
  · rintro ⟨a, ha, rfl⟩
    by_cases hk : key a = k
    · rw [if_pos hk]; exact .inr ⟨a, ha, hk, rfl⟩
    · rw [if_neg hk]; exact .inl ⟨ha, hk⟩
  · rintro (⟨hb, hk⟩ | ⟨a, ha, hk, rfl⟩)
    · exact ⟨b, hb, if_neg hk⟩
    · exact ⟨a, ha, if_pos hk⟩

theorem keys_alter (hf : ∀ a, key (f a) = key a) : (alter key k f rows).map key = rows.map key := by
  unfold alter
  rw [List.map_map]
  refine List.map_congr_left fun a _ => ?_
  show key (if key a = k then f a else a) = key a
  split
  · exact hf a
  · rfl

theorem keyed_alter (h : Keyed key rows) (hf : ∀ a, key (f a) = key a) :
    Keyed key (alter key k f rows) := by
  unfold Keyed
  rw [keys_alter hf]
  exact h

theorem get_alter (hf : ∀ a, key (f a) = key a) (h : get key k rows = some a) :
    get key k (alter key k f rows) = some (f a) := by
  induction rows with
  | nil => cases h
  | cons b rows ih =>
      unfold get alter at *
      rw [List.map_cons, List.find?_cons]
      rw [List.find?_cons] at h
      by_cases hk : key b = k
      · rw [decide_eq_true hk] at h
        cases h
        rw [if_pos hk, decide_eq_true ((hf a).trans hk)]
      · rw [decide_eq_false hk] at h
        rw [if_neg hk, decide_eq_false hk]
        exact ih h

/-- The rows of other keys are left alone. -/
theorem get_alter_of_ne (hf : ∀ a, key (f a) = key a) {j : κ} (hj : j ≠ k) :
    get key j (alter key k f rows) = get key j rows := by
  induction rows with
  | nil => rfl
  | cons b rows ih =>
      unfold get alter at *
      rw [List.map_cons, List.find?_cons, List.find?_cons, ih]
      by_cases hk : key b = k
      · rw [if_pos hk, decide_eq_false, decide_eq_false]
        · rw [hk]; exact hj.symm
        · rw [hf b, hk]; exact hj.symm
      · rw [if_neg hk]

theorem alter_alter {g : α → α} (hf : ∀ a, key (f a) = key a) :
    alter key k g (alter key k f rows) = alter key k (g ∘ f) rows := by
  unfold alter
  rw [List.map_map]
  refine List.map_congr_left fun a _ => ?_
  by_cases hk : key a = k
  · simp only [Function.comp_apply, if_pos hk, if_pos ((hf a).trans hk)]
  · simp only [Function.comp_apply, if_neg hk]

theorem alter_eq_self (h : ∀ a ∈ rows, key a = k → f a = a) : alter key k f rows = rows := by
  unfold alter
  refine (List.map_congr_left fun a ha => ?_).trans (List.map_id _)
  split
  · exact h a ha ‹_›
  · rfl

theorem remove_alter (hf : ∀ a, key (f a) = key a) :
    remove key k (alter key k f rows) = remove key k rows := by
  induction rows with
  | nil => rfl
  | cons a rows ih =>
      unfold remove alter at *
      rw [List.map_cons]
      by_cases hk : key a = k
      · rw [if_pos hk, List.filter_cons_of_neg, List.filter_cons_of_neg]
        · exact ih
        · simpa using hk
        · simpa using (hf a).trans hk
      · rw [if_neg hk, List.filter_cons_of_pos, List.filter_cons_of_pos, ih]
        · simpa using hk
        · simpa using hk

/-- No more rows pass, if the one that is altered passed before. -/
theorem countP_alter_le {p : α → Bool} (h : ∀ a ∈ rows, key a = k → p (f a) = true → p a = true) :
    (alter key k f rows).countP p ≤ rows.countP p := by
  unfold alter
  rw [List.countP_map]
  refine List.countP_mono_left fun a ha hp => ?_
  simp only [Function.comp_apply] at hp
  split at hp
  · exact h a ha ‹_› hp
  · exact hp

theorem countP_alter (h : Keyed key rows) {p : α → Bool} (ha : a ∈ rows) :
    (alter key (key a) f rows).countP p + [a].countP p = rows.countP p + [f a].countP p := by
  induction rows with
  | nil => cases ha
  | cons b rows ih =>
      have hfresh : ∀ c ∈ rows, key c ≠ key b := fun c hc hkey =>
        (List.nodup_cons.mp h).1 (hkey ▸ List.mem_map_of_mem hc)
      unfold alter at *
      rw [List.map_cons]
      rcases List.mem_cons.mp ha with rfl | ha
      · have hothers : (rows.map fun c => if key c = key a then f c else c) = rows :=
          alter_eq_self fun c hc hkey => absurd hkey (hfresh c hc)
        rw [hothers, if_pos rfl]
        simp only [List.countP_cons, List.countP_nil]
        omega
      · have hrest := ih (h.sublist (List.sublist_cons_self b rows)) ha
        rw [if_neg fun hkey => hfresh a ha hkey.symm]
        simp only [List.countP_cons, List.countP_nil] at hrest ⊢
        omega

/-- At most one row more passes. -/
theorem countP_alter_le_succ (h : Keyed key rows) {p : α → Bool} :
    (alter key k f rows).countP p ≤ rows.countP p + 1 := by
  by_cases hmem : ∃ a ∈ rows, key a = k
  · obtain ⟨a, ha, rfl⟩ := hmem
    have hcount := countP_alter (f := f) (p := p) h ha
    have hle : [f a].countP p ≤ 1 := List.countP_le_length
    omega
  · rw [alter_eq_self fun a ha hk => absurd ⟨a, ha, hk⟩ hmem]; exact Nat.le_succ _

end Alter

theorem mem_remove : a ∈ remove key k rows ↔ a ∈ rows ∧ key a ≠ k := by
  unfold remove
  rw [List.mem_filter, decide_eq_true_eq]

theorem get_remove_of_ne {j : κ} (hj : j ≠ k) : get key j (remove key k rows) = get key j rows := by
  induction rows with
  | nil => rfl
  | cons b rows ih =>
      unfold get remove at *
      by_cases hk : key b = k
      · rw [List.filter_cons_of_neg (by simpa using hk), List.find?_cons, ih, decide_eq_false]
        rw [hk]
        exact hj.symm
      · rw [List.filter_cons_of_pos (by simpa using hk), List.find?_cons, List.find?_cons, ih]

theorem keyed_remove (h : Keyed key rows) : Keyed key (remove key k rows) :=
  h.sublist List.filter_sublist

theorem remove_eq_self (h : ∀ a ∈ rows, key a ≠ k) : remove key k rows = rows :=
  List.filter_eq_self.mpr fun a ha => decide_eq_true (h a ha)

theorem countP_remove {p : α → Bool} (h : ∀ a ∈ rows, key a = k → p a = false) :
    (remove key k rows).countP p = rows.countP p := by
  unfold remove
  rw [List.countP_filter]
  refine List.countP_congr fun a ha => ?_
  rw [Bool.and_eq_true, decide_eq_true_eq, and_iff_left_iff_imp]
  intro hp hk
  rw [h a ha hk] at hp
  cases hp

theorem length_remove_lt (h : a ∈ rows) : (remove key (key a) rows).length < rows.length := by
  unfold remove
  rw [List.length_filter_lt_length_iff_exists]
  refine ⟨a, h, fun hne => ?_⟩
  exact of_decide_eq_true hne rfl

theorem mem_put {b : α} : b ∈ put key a rows ↔ (b ∈ rows ∧ key b ≠ key a) ∨ b = a := by
  unfold put
  rw [List.mem_append, mem_remove, List.mem_singleton]

theorem get_put_of_ne {j : κ} (hj : j ≠ key a) : get key j (put key a rows) = get key j rows := by
  have hrest : get key j (remove key (key a) rows) = get key j rows := get_remove_of_ne hj
  unfold put get at *
  rw [List.find?_append, hrest, List.find?_singleton, decide_eq_false hj.symm]
  exact Option.or_none

/-- The row that was put is the row of its key. -/
theorem get_put_self : get key (key a) (put key a rows) = some a := by
  have hgone : get key (key a) (remove key (key a) rows) = none :=
    get_eq_none.mpr fun b hb => (mem_remove.mp hb).2
  unfold put get at *
  rw [List.find?_append, hgone, List.find?_singleton, decide_eq_true rfl]
  rfl

theorem countP_put_le {p : α → Bool} : (put key a rows).countP p ≤ rows.countP p + [a].countP p := by
  unfold put
  rw [List.countP_append]
  exact Nat.add_le_add_right (List.filter_sublist.countP_le) _

/-- Keys stay distinct. -/
theorem keyed_put (h : Keyed key rows) : Keyed key (put key a rows) :=
  (keyed_remove h).append_row fun _ hb => (mem_remove.mp hb).2

end Register
