/-
Maps as lists of their entries.

A map that is only ever added to is the list of what was added, the last entry first, and
`List.lookup` finds the entry that counts.  Where every entry of a key has one value, where
it stands does not matter.
-/
import Mathlib.Data.List.Nodup

namespace Lookup

variable {κ β : Type} [BEq κ] [LawfulBEq κ] {l : List (κ × β)} {k : κ} {v : β}

theorem mem_of_lookup (h : l.lookup k = some v) : (k, v) ∈ l := by
  obtain ⟨before, after, rfl, -⟩ := List.lookup_eq_some_iff.mp h
  exact List.mem_append_right before List.mem_cons_self

theorem lookup_eq_none : l.lookup k = none ↔ k ∉ l.map Prod.fst := by
  rw [List.lookup_eq_none_iff, List.mem_map, not_exists]
  refine forall_congr' fun entry => ?_
  rw [not_and, bne_iff_ne, ne_comm]

/-- **An entry is found if every entry of its key has its value.** -/
theorem lookup_of_unique (h : (k, v) ∈ l) (hunique : ∀ v', (k, v') ∈ l → v' = v) :
    l.lookup k = some v := by
  cases hfound : l.lookup k with
  | none => exact absurd (List.mem_map_of_mem h) (lookup_eq_none.mp hfound)
  | some v' => rw [hunique v' (mem_of_lookup hfound)]

theorem lookup_of_nodup (h : (k, v) ∈ l) (hnodup : (l.map Prod.fst).Nodup) :
    l.lookup k = some v := by
  refine lookup_of_unique h fun v' hv' => ?_
  have heq := List.inj_on_of_nodup_map hnodup hv' h rfl
  rw [Prod.mk.injEq] at heq
  exact heq.2

end Lookup
