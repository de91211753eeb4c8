/-
The best few of a list.

Rows are ranked by a key of a linear order, the least first.  `ordered` puts rows in the order of
their keys, and `best` takes so many off its beginning.  Where no two rows share a key the choice
is the only one there is: whatever was left out ranks behind everything that was taken, and
something is left out only when as many were taken as could be.
-/
import Mathlib.Algebra.BigOperators.Group.List.Basic
import Mathlib.Data.List.Nodup
import Mathlib.Data.List.Sort

namespace Ranking

variable {α κ : Type*} [LinearOrder κ] {key : α → κ} {rows : List α} {n : Nat} {a b : α}

def ordered (key : α → κ) (rows : List α) : List α :=
  rows.insertionSort fun a b => key a ≤ key b

def best (key : α → κ) (n : Nat) (rows : List α) : List α := (ordered key rows).take n

theorem perm_ordered (key : α → κ) (rows : List α) : (ordered key rows).Perm rows :=
  List.perm_insertionSort _ rows

theorem mem_ordered : a ∈ ordered key rows ↔ a ∈ rows := (perm_ordered key rows).mem_iff

theorem length_ordered : (ordered key rows).length = rows.length := (perm_ordered key rows).length_eq

theorem pairwise_ordered (key : α → κ) (rows : List α) :
    (ordered key rows).Pairwise fun a b => key a ≤ key b := by
  have : Std.Total fun a b : α => key a ≤ key b := ⟨fun a b => le_total (key a) (key b)⟩
  have : IsTrans α fun a b => key a ≤ key b := ⟨fun _ _ _ => le_trans⟩
  exact List.pairwise_insertionSort _ rows

theorem pairwise_ordered_lt (hkeys : (rows.map key).Nodup) :
    (ordered key rows).Pairwise fun a b => key a < key b := by
  have hnodup : ((ordered key rows).map key).Nodup :=
    ((perm_ordered key rows).map key).nodup_iff.mpr hkeys
  have hne : (ordered key rows).Pairwise fun a b => key a ≠ key b :=
    List.pairwise_map.mp hnodup
  exact (pairwise_ordered key rows).imp₂ (fun a b hle hne => lt_of_le_of_ne hle hne) hne

/-- **Rows whose keys differ are ordered alike, however they came.** -/
theorem ordered_eq_of_perm {rows' : List α} (hperm : rows'.Perm rows)
    (hkeys : (rows.map key).Nodup) : ordered key rows' = ordered key rows := by
  refine List.Perm.eq_of_pairwise ?_ (pairwise_ordered key rows') (pairwise_ordered key rows)
    ((perm_ordered key rows').trans (hperm.trans (perm_ordered key rows).symm))
  intro a b ha hb hab hba
  have ha' : a ∈ rows := hperm.mem_iff.mp (mem_ordered.mp ha)
  exact List.inj_on_of_nodup_map hkeys ha' (mem_ordered.mp hb) (le_antisymm hab hba)

theorem mem_of_best (h : a ∈ best key n rows) : a ∈ rows :=
  mem_ordered.mp (List.mem_of_mem_take h)

theorem length_best : (best key n rows).length = min n rows.length := by
  unfold best
  rw [List.length_take, length_ordered]

theorem best_sublist : (best key n rows).Sublist (ordered key rows) := List.take_sublist _ _

/-- **Whatever is left out ranks behind what is taken.** -/
theorem best_lt (hkeys : (rows.map key).Nodup) (ha : a ∈ best key n rows) (hb : b ∈ rows)
    (hout : b ∉ best key n rows) : key a < key b := by
  have hsplit := List.take_append_drop n (ordered key rows)
  have hsorted := pairwise_ordered_lt hkeys
  rw [← hsplit, List.pairwise_append] at hsorted
  have hmem : b ∈ (ordered key rows).take n ++ (ordered key rows).drop n := by
    rw [hsplit]
    exact mem_ordered.mpr hb
  rcases List.mem_append.mp hmem with h | h
  · exact absurd h hout
  · exact hsorted.2.2 a ha b h

/-- **And nothing is left out while there is room.** -/
theorem length_best_of_out (hb : b ∈ rows) (hout : b ∉ best key n rows) :
    (best key n rows).length = n := by
  rw [length_best, Nat.min_eq_left]
  by_contra hlt
  have hall : best key n rows = ordered key rows := by
    refine List.take_of_length_le ?_
    rw [length_ordered]
    omega
  exact hout (by rw [hall]; exact mem_ordered.mpr hb)

end Ranking
