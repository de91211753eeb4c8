/-
Reading a list in pages.

A page is asked for at an offset and says where the next one starts, if there is one.  `Covers`
is what a page owes to whoever follows it: it accounts for the rows from its offset up to the next
one, shows those of them that can be shown, leaves at least one row behind, and ends the reading
only at the end.  That is enough for a reader who follows the offsets to come to an end and to
have been shown every row once.
-/
import Mathlib.Data.List.Basic

namespace Paging

variable {α β ε π : Type}

/-- The pages met by following the offsets, where the last one says it is the last. -/
def follow (page : Nat → Except ε π) (next : π → Option Nat) : Nat → Nat → Option (List π)
  | 0, _ => none
  | fuel + 1, offset =>
      match page offset with
      | .error _ => none
      | .ok p =>
          match next p with
          | none => some [p]
          | some later => (follow page next fuel later).map (p :: ·)

/-- **What a page at an offset accounts for.** -/
structure Covers (rows : List α) (present : α → Option β) (offset : Nat) (items : List β)
    (next : Option Nat) (count : Nat) : Prop where
  shown : items = ((rows.drop offset).take count).filterMap present
  advances : ∀ later, next = some later →
    later = offset + count ∧ 0 < count ∧ offset + count ≤ rows.length
  ends : next = none → rows.length ≤ offset + count

/-- **Following the offsets comes to an end and shows every row once.** -/
theorem follow_covers {rows : List α} {present : α → Option β} {page : Nat → Except ε π}
    {next : π → Option Nat} {items : π → List β}
    (hpage : ∀ offset ≤ rows.length, ∃ p count, page offset = .ok p ∧
      Covers rows present offset (items p) (next p) count)
    {fuel offset : Nat} (hoffset : offset ≤ rows.length) (hfuel : rows.length - offset < fuel) :
    ∃ pages, follow page next fuel offset = some pages ∧
      pages.flatMap items = (rows.drop offset).filterMap present := by
  induction fuel generalizing offset with
  | zero => omega
  | succ fuel ih =>
      obtain ⟨p, count, hp, hcovers⟩ := hpage offset hoffset
      unfold follow
      rw [hp]
      cases hnext : next p with
      | none =>
          have hends := hcovers.ends hnext
          refine ⟨[p], ?_, ?_⟩
          · simp only [hnext]
          · rw [List.flatMap_singleton, hcovers.shown, List.take_of_length_le]
            rw [List.length_drop]
            omega
      | some later =>
          obtain ⟨hlater, hpos, hle⟩ := hcovers.advances later hnext
          have hwithin : later ≤ rows.length := by omega
          obtain ⟨pages, hpages, hitems⟩ := ih hwithin (by omega)
          refine ⟨p :: pages, ?_, ?_⟩
          · simp only [hnext, hpages, Option.map_some]
          · rw [List.flatMap_cons, hitems, hcovers.shown, hlater, ← List.drop_drop,
              ← List.filterMap_append, List.take_append_drop]

end Paging
