/-
Climbing from a key to what is above it.

A walk goes up from a key as long as there is something above and it has not been there before.
What it has seen is shared by the walks that come after, so a walk that meets an earlier one may
stop: everything further up has been seen.  Chains that go round are no exception, and as there
are only so many keys with something above them, every walk ends.
-/
import Mathlib.Algebra.BigOperators.Group.List.Basic

namespace Climb

open Relation (ReflTransGen)

variable {κ : Type*} [DecidableEq κ]

/-- What is above a key, and the keys there can be something above. -/
structure Ladder (κ : Type*) where
  up : κ → Option κ
  domain : List κ
  bounded : ∀ k p, up k = some p → k ∈ domain

namespace Ladder

/-- The keys that a walk may still go up from. -/
def fresh (l : Ladder κ) (seen : List κ) : Nat := (l.domain.filter fun k => k ∉ seen).length

variable {l : Ladder κ} {seen : List κ} {k p x : κ}

theorem fresh_cons_le : l.fresh (k :: seen) ≤ l.fresh seen := by
  unfold fresh
  refine List.Sublist.length_le (List.monotone_filter_right _ fun a ha => ?_)
  rw [decide_eq_true_eq] at ha ⊢
  exact fun hmem => ha (List.mem_cons_of_mem k hmem)

theorem fresh_cons_lt (hk : k ∉ seen) (hup : l.up k = some p) :
    l.fresh (k :: seen) < l.fresh seen := by
  have hfilter : l.domain.filter (fun a => a ∉ k :: seen)
      = (l.domain.filter fun a => a ∉ seen).filter fun a => a ≠ k := by
    rw [List.filter_filter]
    refine List.filter_congr fun a _ => ?_
    simp only [List.mem_cons, not_or, ne_eq, Bool.decide_and]
  unfold fresh
  rw [hfilter, List.length_filter_lt_length_iff_exists]
  have hmem : k ∈ l.domain.filter fun a => a ∉ seen :=
    List.mem_filter.mpr ⟨l.bounded k p hup, decide_eq_true hk⟩
  exact ⟨k, hmem, fun hne => of_decide_eq_true hne rfl⟩

end Ladder

def climb (l : Ladder κ) (seen : List κ) : Option κ → List κ
  | none => seen
  | some k => if k ∈ seen then seen else climb l (k :: seen) (l.up k)
termination_by current => l.fresh seen + current.toList.length
decreasing_by
  rename_i hk
  cases hup : l.up k with
  | none =>
      have hle : l.fresh (k :: seen) ≤ l.fresh seen := Ladder.fresh_cons_le
      exact Nat.lt_succ_of_le hle
  | some p =>
      have hlt : l.fresh (k :: seen) < l.fresh seen := Ladder.fresh_cons_lt hk hup
      exact Nat.succ_lt_succ hlt

/-- The walks from several keys, one after the other. -/
def climbs (l : Ladder κ) (keys : List κ) : List κ :=
  keys.foldl (fun seen k => climb l seen (some k)) []

def Above (l : Ladder κ) (k p : κ) : Prop := l.up k = some p

section Climb

variable {l : Ladder κ} {seen keys : List κ} {current : Option κ} {k p x : κ}

theorem climb_mono (h : x ∈ seen) : x ∈ climb l seen current := by
  induction seen, current using climb.induct l with
  | case1 seen => rw [climb]; exact h
  | case2 seen k hk => rw [climb, if_pos hk]; exact h
  | case3 seen k hk ih => rw [climb, if_neg hk]; exact ih (List.mem_cons_of_mem k h)

theorem mem_climb_self : k ∈ climb l seen (some k) := by
  rw [climb]
  split
  · assumption
  · exact climb_mono List.mem_cons_self

theorem above_of_mem (h : x ∈ climb l seen current) :
    x ∈ seen ∨ ∃ k, current = some k ∧ ReflTransGen (Above l) k x := by
  induction seen, current using climb.induct l with
  | case1 seen => rw [climb] at h; exact .inl h
  | case2 seen k hk => rw [climb, if_pos hk] at h; exact .inl h
  | case3 seen k hk ih =>
      rw [climb, if_neg hk] at h
      rcases ih h with hmem | ⟨p, hup, habove⟩
      · rcases List.mem_cons.mp hmem with rfl | hmem
        · exact .inr ⟨x, rfl, .refl⟩
        · exact .inl hmem
      · exact .inr ⟨k, rfl, .head hup habove⟩

/-- Everything right above a key of the list is in it. -/
def Closed (l : Ladder κ) (seen : List κ) : Prop := ∀ k ∈ seen, ∀ p, Above l k p → p ∈ seen

/-- **A walk closes what it has seen**: on the way only the key it is at is missing. -/
theorem closed_climb (h : ∀ k ∈ seen, ∀ p, Above l k p → p ∈ seen ∨ current = some p) :
    Closed l (climb l seen current) := by
  induction seen, current using climb.induct l with
  | case1 seen =>
      rw [climb]
      intro k hk p hp
      rcases h k hk p hp with hmem | hnone
      · exact hmem
      · cases hnone
  | case2 seen k hk =>
      rw [climb, if_pos hk]
      intro a ha p hp
      rcases h a ha p hp with hmem | hsame
      · exact hmem
      · cases hsame; exact hk
  | case3 seen k hk ih =>
      rw [climb, if_neg hk]
      refine ih fun a ha p hp => ?_
      rcases List.mem_cons.mp ha with rfl | ha
      · exact .inr hp
      · rcases h a ha p hp with hmem | hsame
        · exact .inl (List.mem_cons_of_mem k hmem)
        · cases hsame; exact .inl List.mem_cons_self

theorem Closed.climb (h : Closed l seen) : Closed l (climb l seen current) :=
  closed_climb fun k hk p hp => .inl (h k hk p hp)

omit [DecidableEq κ] in
theorem Closed.above (h : Closed l seen) (hk : k ∈ seen) (habove : ReflTransGen (Above l) k x) :
    x ∈ seen := by
  induction habove with
  | refl => exact hk
  | tail _ hstep ih => exact h _ ih _ hstep

/-- The walks so far: what they have seen is closed, and is what is above their keys. -/
theorem climbs_from (hclosed : Closed l seen) :
    Closed l (keys.foldl (fun seen k => climb l seen (some k)) seen) ∧
      ∀ x, x ∈ keys.foldl (fun seen k => climb l seen (some k)) seen ↔
        x ∈ seen ∨ ∃ k ∈ keys, ReflTransGen (Above l) k x := by
  induction keys generalizing seen with
  | nil =>
      refine ⟨hclosed, fun x => ⟨.inl, ?_⟩⟩
      rintro (h | ⟨k, hk, -⟩)
      · exact h
      · cases hk
  | cons k keys ih =>
      have hnext : Closed l (Climb.climb l seen (some k)) := hclosed.climb
      obtain ⟨hrest, hmem⟩ := ih hnext
      refine ⟨hrest, fun x => ?_⟩
      rw [List.foldl_cons, hmem x]
      constructor
      · rintro (hx | ⟨j, hj, habove⟩)
        · rcases above_of_mem hx with hx | ⟨j, hj, habove⟩
          · exact .inl hx
          · cases hj; exact .inr ⟨k, List.mem_cons_self, habove⟩
        · exact .inr ⟨j, List.mem_cons_of_mem k hj, habove⟩
      · rintro (hx | ⟨j, hj, habove⟩)
        · exact .inl (climb_mono hx)
        · rcases List.mem_cons.mp hj with rfl | hj
          · exact .inl (hclosed.climb.above mem_climb_self habove)
          · exact .inr ⟨j, hj, habove⟩

/-- **The walks see whatever is above their keys, and nothing else.** -/
theorem mem_climbs : x ∈ climbs l keys ↔ ∃ k ∈ keys, ReflTransGen (Above l) k x := by
  have hempty : Closed l ([] : List κ) := fun _ hk => absurd hk List.not_mem_nil
  unfold climbs
  rw [(climbs_from hempty).2 x]
  exact ⟨fun h => h.resolve_left List.not_mem_nil, .inr⟩

end Climb

end Climb
