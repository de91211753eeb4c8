/-
Rows in groups, and the numbers of the rows of a group.

`group` is what a map from a key to a vector of rows has under a key once the vector is
sorted; `keys` are the keys of that map, in their order.  Rows are numbered when the rows of
every group, in order, have the numbers from zero up.  Two ways to number them come up: to
give every row the place it has in its sorted group, and to count, while the rows arrive in
an order that is the sorted one already.
-/
import Mathlib.Data.List.Dedup
import Mathlib.Data.List.Sort

namespace Groups

variable {α β κ κ' : Type} [DecidableEq κ]

def keys (key : α → κ) (before : κ → κ → Bool) (rows : List α) : List κ :=
  (rows.map key).dedup.mergeSort before

/-- The rows of a key, in order. -/
def group (key : α → κ) (le : α → α → Bool) (rows : List α) (k : κ) : List α :=
  (rows.filter fun row => key row = k).mergeSort le

/-- **The rows of every group, in order, have the numbers from zero up.** -/
def Numbered (key : α → κ) (le : α → α → Bool) (number : α → Nat) (rows : List α) : Prop :=
  ∀ k, (group key le rows k).map number = List.range (group key le rows k).length

section Group

variable {key : α → κ} {le : α → α → Bool} {rows : List α} {k : κ}

theorem mem_keys {before : κ → κ → Bool} : k ∈ keys key before rows ↔ ∃ row ∈ rows, key row = k := by
  unfold keys
  rw [(List.mergeSort_perm _ _).mem_iff, List.mem_dedup, List.mem_map]

theorem group_perm : (group key le rows k).Perm (rows.filter fun row => key row = k) :=
  List.mergeSort_perm _ _

theorem mem_group {row : α} : row ∈ group key le rows k ↔ row ∈ rows ∧ key row = k := by
  rw [group_perm.mem_iff, List.mem_filter, decide_eq_true_iff]

theorem group_nodup (h : rows.Nodup) : (group key le rows k).Nodup :=
  group_perm.nodup_iff.mpr (h.filter _)

theorem group_of_pairwise (h : rows.Pairwise fun a b => key a = key b → le a b = true) :
    group key le rows k = rows.filter fun row => key row = k := by
  refine List.mergeSort_of_pairwise (List.pairwise_filter.mpr (h.imp ?_))
  intro a b hab ha hb
  rw [decide_eq_true_iff] at ha hb
  exact hab (ha.trans hb.symm)

theorem group_map {key' : β → κ} {le' : β → β → Bool} {f : α → β}
    (hkey : ∀ row ∈ rows, key' (f row) = key row)
    (hle : ∀ a ∈ rows, ∀ b ∈ rows, le a b = le' (f a) (f b)) :
    group key' le' (rows.map f) k = (group key le rows k).map f := by
  have hfilter : (rows.map f).filter (fun row => key' row = k) =
      (rows.filter fun row => key row = k).map f := by
    rw [List.filter_map]
    congr 1
    refine List.filter_congr fun row hrow => ?_
    show decide (key' (f row) = k) = _
    rw [hkey row hrow]
  unfold group
  rw [hfilter, List.map_mergeSort]
  intro a ha b hb
  exact hle a (List.mem_of_mem_filter ha) b (List.mem_of_mem_filter hb)

variable {more : List α} {number : α → Nat}

theorem group_append_left (h : ∀ row ∈ more, key row ≠ k) :
    group key le (rows ++ more) k = group key le rows k := by
  have hnone : more.filter (fun row => key row = k) = [] :=
    List.filter_eq_nil_iff.mpr fun row hrow => by simpa using h row hrow
  unfold group
  rw [List.filter_append, hnone, List.append_nil]

theorem group_append_right (h : ∀ row ∈ rows, key row ≠ k) :
    group key le (rows ++ more) k = group key le more k := by
  have hnone : rows.filter (fun row => key row = k) = [] :=
    List.filter_eq_nil_iff.mpr fun row hrow => by simpa using h row hrow
  unfold group
  rw [List.filter_append, hnone, List.nil_append]

theorem numbered_nil : Numbered key le number [] := by
  intro k
  unfold group
  rw [List.filter_nil, List.mergeSort_nil]
  rfl

theorem Numbered.rekey {key' : α → κ'} [DecidableEq κ'] (h : Numbered key le number rows)
    (hkey : ∀ a ∈ rows, ∀ b ∈ rows, key' a = key' b ↔ key a = key b) :
    Numbered key' le number rows := by
  intro k
  by_cases hk : ∃ row ∈ rows, key' row = k
  · obtain ⟨row, hrow, rfl⟩ := hk
    have hsame : group key' le rows (key' row) = group key le rows (key row) := by
      unfold group
      congr 1
      exact List.filter_congr fun a ha => decide_eq_decide.mpr (hkey a ha row hrow)
    rw [hsame]
    exact h (key row)
  · have hnone : rows.filter (fun row => key' row = k) = [] :=
      List.filter_eq_nil_iff.mpr fun row hrow hrow' =>
        hk ⟨row, hrow, of_decide_eq_true hrow'⟩
    unfold group
    rw [hnone, List.mergeSort_nil]
    rfl

theorem Numbered.pairwise (h : Numbered key le number rows) :
    rows.Pairwise fun a b => key a = key b → number a ≠ number b := by
  rw [List.pairwise_iff_forall_sublist]
  intro a b hab hkey hnumber
  have hnodup : ((rows.filter fun row => key row = key b).map number).Nodup := by
    have hgroup : (group key le rows (key b)).Perm _ := group_perm
    rw [← (hgroup.map number).nodup_iff, h (key b)]
    exact List.nodup_range
  have hsub : [a, b].Sublist (rows.filter fun row => key row = key b) := by
    have hfilter := hab.filter fun row => key row = key b
    rwa [List.filter_cons_of_pos (by simpa using hkey), List.filter_cons_of_pos (by simp),
      List.filter_nil] at hfilter
  have hpair := hnodup.sublist (hsub.map number)
  rw [List.map_cons, List.map_cons, List.map_nil, List.nodup_cons, List.mem_singleton] at hpair
  exact hpair.1 hnumber

theorem Numbered.map {key' : β → κ} {le' : β → β → Bool} {number' : β → Nat} {f : α → β}
    (h : Numbered key le number rows) (hkey : ∀ row ∈ rows, key' (f row) = key row)
    (hle : ∀ a ∈ rows, ∀ b ∈ rows, le a b = le' (f a) (f b))
    (hnumber : ∀ row ∈ rows, number' (f row) = number row) :
    Numbered key' le' number' (rows.map f) := by
  intro k
  rw [group_map hkey hle, List.map_map, List.length_map, ← h k]
  exact List.map_congr_left fun row hrow => hnumber row (mem_group.mp hrow).1

/-- **Rows of other keys do not disturb a numbering.** -/
theorem Numbered.append (h : Numbered key le number rows) (hmore : Numbered key le number more)
    (hkeys : ∀ a ∈ rows, ∀ b ∈ more, key a ≠ key b) : Numbered key le number (rows ++ more) := by
  intro k
  by_cases hk : ∃ row ∈ rows, key row = k
  · obtain ⟨row, hrow, rfl⟩ := hk
    rw [group_append_left fun b hb => (hkeys row hrow b hb).symm]
    exact h _
  · rw [group_append_right fun row hrow hkey => hk ⟨row, hrow, hkey⟩]; exact hmore k

/-- Rows that are numbered part by part are, where no two parts share a key. -/
theorem numbered_flatMap {parts : List β} {f : β → List α}
    (h : ∀ part ∈ parts, Numbered key le number (f part))
    (hkeys : parts.Pairwise fun x y => ∀ a ∈ f x, ∀ b ∈ f y, key a ≠ key b) :
    Numbered key le number (parts.flatMap f) := by
  induction parts with
  | nil => exact numbered_nil
  | cons part parts ih =>
      rw [List.pairwise_cons] at hkeys
      rw [List.flatMap_cons]
      refine (h part List.mem_cons_self).append
        (ih (fun x hx => h x (List.mem_cons_of_mem part hx)) hkeys.2) fun a ha b hb => ?_
      obtain ⟨other, hother, hb⟩ := List.mem_flatMap.mp hb
      exact hkeys.1 other hother a ha b hb

/-- **Rows that come in order and are counted are numbered.**  One more row, behind all of
its key and with their count for a number, is. -/
theorem Numbered.concat {row : α} (h : Numbered key le number rows)
    (hordered : (rows ++ [row]).Pairwise fun a b => key a = key b → le a b = true)
    (hnumber : number row = (rows.filter fun a => key a = key row).length) :
    Numbered key le number (rows ++ [row]) := by
  intro k
  have hrows := h k
  rw [group_of_pairwise (List.pairwise_append.mp hordered).1] at hrows
  rw [group_of_pairwise hordered, List.filter_append, List.map_append, hrows]
  by_cases hk : key row = k
  · subst hk
    rw [List.filter_cons_of_pos (by simp), List.filter_nil, List.map_singleton, hnumber,
      List.length_append, List.length_singleton, List.range_succ]
  · rw [List.filter_cons_of_neg (by simpa using hk), List.filter_nil, List.map_nil,
      List.append_nil, List.append_nil]

end Group

/-! ### The places of the rows -/

section Place

variable [DecidableEq α] {key : α → κ} {le : α → α → Bool} {rows : List α}

def place (key : α → κ) (le : α → α → Bool) (rows : List α) (row : α) : Nat :=
  (group key le rows (key row)).idxOf row

theorem map_idxOf {l : List α} (h : l.Nodup) : l.map l.idxOf = List.range l.length := by
  refine List.ext_getElem (by rw [List.length_map, List.length_range]) fun i hi hi' => ?_
  rw [List.getElem_map, List.getElem_range, h.idxOf_getElem]

/-- **Rows numbered by their places are numbered.** -/
theorem numbered_place (h : rows.Nodup) : Numbered key le (place key le rows) rows := by
  intro k
  have hgroup : (group key le rows k).Nodup := group_nodup h
  rw [← map_idxOf hgroup]
  refine List.map_congr_left fun row hrow => ?_
  unfold place
  rw [(mem_group.mp hrow).2]

theorem place_inj {a b : α} (ha : a ∈ rows) (hkey : key a = key b)
    (h : place key le rows a = place key le rows b) : a = b := by
  unfold place at h
  rw [← hkey] at h
  exact (List.idxOf_inj (mem_group.mpr ⟨ha, rfl⟩)).mp h

theorem mem_zipIdx_group {row : α} {k : κ} {i : Nat} (h : rows.Nodup)
    (hrow : (row, i) ∈ (group key le rows k).zipIdx) : row ∈ rows ∧ i = place key le rows row := by
  obtain ⟨-, hi, hget⟩ := List.mem_zipIdx hrow
  have hmem : row ∈ group key le rows k := by
    rw [hget]
    exact List.getElem_mem _
  obtain ⟨hrows, hkey⟩ := mem_group.mp hmem
  refine ⟨hrows, ?_⟩
  simp only [Nat.sub_zero] at hget
  unfold place
  rw [hkey]
  conv_rhs => rw [hget, (group_nodup h).idxOf_getElem]

theorem place_mem_zipIdx {row : α} (hrow : row ∈ rows) :
    (row, place key le rows row) ∈ (group key le rows (key row)).zipIdx := by
  have hmem : row ∈ group key le rows (key row) := mem_group.mpr ⟨hrow, rfl⟩
  rw [List.mem_zipIdx_iff_getElem?]
  exact List.getElem?_eq_some_iff.mpr ⟨List.idxOf_lt_length_of_mem hmem, List.getElem_idxOf _⟩

end Place

end Groups
