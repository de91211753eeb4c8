/-
Tables kept as lists of rows.

A relational table is a list whose rows carry a key no two of them share.  Three
statements are enough for a store that never updates a row in place: an INSERT at
the end, an INSERT that does nothing when the key is taken, and a DELETE that
takes at most so many of the rows a condition picks (`DELETE … LIMIT n`), so that
a large tree can be removed a batch at a time.

Everything below is about an arbitrary row type and an arbitrary key.
-/
import Mathlib.Data.List.Nodup
import Mathlib.Data.List.Perm.Subperm

namespace Table

variable {α κ : Type*}

/-! ### Keys -/

/-- No two rows share a key. -/
def Keyed (key : α → κ) (rows : List α) : Prop :=
  (rows.map key).Nodup

theorem keyed_nil (key : α → κ) : Keyed key [] :=
  List.nodup_nil

variable {key : α → κ} {rows rows' : List α} {a : α} {p : α → Bool}

theorem Keyed.eq_of_key (h : Keyed key rows) {b : α} (ha : a ∈ rows) (hb : b ∈ rows)
    (hab : key a = key b) : a = b :=
  List.inj_on_of_nodup_map h ha hb hab

theorem Keyed.sublist (h : Keyed key rows) (hsub : rows'.Sublist rows) : Keyed key rows' :=
  List.Pairwise.sublist (hsub.map key) h

theorem Keyed.append_row (h : Keyed key rows) (ha : ∀ b ∈ rows, key b ≠ key a) :
    Keyed key (rows ++ [a]) := by
  unfold Keyed
  rw [List.map_append, List.nodup_append]
  refine ⟨h, by simp, ?_⟩
  intro k hk k' hk'
  obtain ⟨b, hb, rfl⟩ := List.mem_map.mp hk
  rw [List.map_singleton, List.mem_singleton] at hk'
  rw [hk']
  exact ha b hb

theorem Keyed.find?_perm (h : Keyed key rows) (hperm : rows.Perm rows')
    (hp : ∀ a b, p a = true → p b = true → key a = key b) : rows.find? p = rows'.find? p := by
  cases hfound : rows'.find? p with
  | none =>
      rw [List.find?_eq_none] at hfound ⊢
      intro a ha
      exact hfound a (hperm.mem_iff.mp ha)
  | some b =>
      have hb : b ∈ rows := hperm.mem_iff.mpr (List.mem_of_find?_eq_some hfound)
      have hpb : p b = true := List.find?_some hfound
      cases hfind : rows.find? p with
      | none => exact absurd hpb (List.find?_eq_none.mp hfind b hb)
      | some a =>
          have ha : a ∈ rows := List.mem_of_find?_eq_some hfind
          have hab : a = b := h.eq_of_key ha hb (hp a b (List.find?_some hfind) hpb)
          rw [hab]

/-! ### Rows a condition picks -/

theorem filter_append_of_none {added : List α} (h : ∀ a ∈ added, p a = false) :
    (rows ++ added).filter p = rows.filter p := by
  rw [List.filter_append]
  have hnil : added.filter p = [] := by
    rw [List.filter_eq_nil_iff]
    intro a ha
    rw [h a ha]
    exact Bool.false_ne_true
  rw [hnil, List.append_nil]

theorem filter_eq_of_sublist (hsub : rows'.Sublist rows) (hnodup : rows.Nodup)
    (hkeep : ∀ a ∈ rows, p a = true → a ∈ rows') : rows'.filter p = rows.filter p := by
  have hsub' : (rows'.filter p).Sublist (rows.filter p) := hsub.filter p
  refine hsub'.eq_of_length_le ?_
  refine (List.subperm_of_subset (hnodup.filter p) fun a ha => ?_).length_le
  rw [List.mem_filter] at ha ⊢
  exact ⟨hkeep a ha.1 ha.2, ha.2⟩

theorem Keyed.nodup (h : Keyed key rows) : rows.Nodup :=
  List.Nodup.of_map key h

theorem countP_lt {q : α → Bool} (h : ∀ a ∈ rows, p a = true → q a = true) (ha : a ∈ rows)
    (hq : q a = true) (hp : p a = false) : rows.countP p < rows.countP q := by
  induction rows with
  | nil => cases ha
  | cons b rows ih =>
      have hrest : rows.countP p ≤ rows.countP q :=
        List.countP_mono_left fun c hc => h c (List.mem_cons_of_mem b hc)
      rw [List.countP_cons, List.countP_cons]
      rcases List.mem_cons.mp ha with rfl | ha
      · rw [hq, hp]
        simp only [if_true, Bool.false_eq_true, if_false]
        omega
      · have hlt := ih (fun c hc => h c (List.mem_cons_of_mem b hc)) ha
        have hb := h b List.mem_cons_self
        by_cases hpb : p b = true
        · rw [if_pos hpb, if_pos (hb hpb)]; omega
        · rw [if_neg hpb]; omega

/-! ### The least row -/

/-- The least row of an order (`ORDER BY … LIMIT 1`), the earlier of two equal ones. -/
def first (before : α → α → Bool) : List α → Option α
  | [] => none
  | a :: rows =>
      match first before rows with
      | none => some a
      | some b => if before b a then some b else some a

theorem first_mem {before : α → α → Bool} (h : first before rows = some a) : a ∈ rows := by
  induction rows generalizing a with
  | nil => simp [first] at h
  | cons b rows ih =>
      unfold first at h
      cases hrest : first before rows with
      | none =>
          rw [hrest] at h
          simp only [Option.some.injEq] at h
          rw [h]
          exact List.mem_cons_self
      | some c =>
          rw [hrest] at h
          by_cases hcb : before c b = true
          · simp only [if_pos hcb, Option.some.injEq] at h
            exact List.mem_cons_of_mem b (ih (hrest.trans (congrArg some h)))
          · simp only [if_neg hcb, Option.some.injEq] at h
            rw [h]
            exact List.mem_cons_self

theorem first_eq_none {before : α → α → Bool} : first before rows = none ↔ rows = [] := by
  cases rows with
  | nil => simp [first]
  | cons a rows =>
      unfold first
      cases first before rows with
      | none => simp
      | some b => by_cases hba : before b a = true <;> simp [hba]

/-! ### Deleting a batch -/

/-- Delete the first `n` rows the condition picks. -/
def deleteUpTo (p : α → Bool) : Nat → List α → List α
  | 0, rows => rows
  | _ + 1, [] => []
  | n + 1, a :: rows => if p a then deleteUpTo p n rows else a :: deleteUpTo p (n + 1) rows

variable {p : α → Bool}

theorem deleteUpTo_sublist (p : α → Bool) (n : Nat) (rows : List α) :
    (deleteUpTo p n rows).Sublist rows := by
  fun_induction deleteUpTo p n rows with
  | case1 rows => exact List.Sublist.refl rows
  | case2 n => exact List.Sublist.refl []
  | case3 n a rows ha ih => exact ih.cons a
  | case4 n a rows ha ih => exact ih.cons_cons a

theorem mem_deleteUpTo_of_not {n : Nat} (ha : a ∈ rows) (hp : p a = false) :
    a ∈ deleteUpTo p n rows := by
  fun_induction deleteUpTo p n rows with
  | case1 | case2 => exact ha
  | case3 n b rows hb ih =>
      rcases List.mem_cons.mp ha with rfl | ha
      · rw [hp] at hb; exact absurd hb Bool.false_ne_true
      · exact ih ha
  | case4 n b rows hb ih =>
      rcases List.mem_cons.mp ha with rfl | ha
      · exact List.mem_cons_self
      · exact List.mem_cons_of_mem b (ih ha)

/-- **How much a batch deletes**: what the condition picked, up to the limit. -/
theorem length_deleteUpTo (p : α → Bool) (n : Nat) (rows : List α) :
    (deleteUpTo p n rows).length + min n (rows.countP p) = rows.length := by
  fun_induction deleteUpTo p n rows with
  | case1 | case2 => simp
  | case3 n a rows ha ih => rw [List.countP_cons_of_pos ha, List.length_cons]; omega
  | case4 n a rows ha ih =>
      rw [List.countP_cons_of_neg ha, List.length_cons, List.length_cons]
      omega

/-- **A batch that stays under its limit took everything.** -/
theorem not_of_mem_deleteUpTo {n : Nat} (hn : rows.length - (deleteUpTo p n rows).length < n)
    (ha : a ∈ deleteUpTo p n rows) : p a = false := by
  have hlen := length_deleteUpTo p n rows
  have hcount : rows.countP p < n := by omega
  clear hn hlen
  fun_induction deleteUpTo p n rows with
  | case1 rows => omega
  | case2 n => cases ha
  | case3 n b rows hb ih =>
      rw [List.countP_cons_of_pos hb] at hcount
      exact ih ha (by omega)
  | case4 n b rows hb ih =>
      rw [List.countP_cons_of_neg hb] at hcount
      rcases List.mem_cons.mp ha with rfl | ha
      · exact Bool.eq_false_iff.mpr hb
      · exact ih ha hcount

end Table
