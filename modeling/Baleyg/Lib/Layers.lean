/-
Depths as distances.

A walk in breadth gives every node it meets a depth.  Whether these are the distances from the
root can be seen of the result: along no edge does the depth grow by more than one, and every
node but the root has an edge from a node one level up.  `Path` counts the edges of a path.
-/
import Mathlib.Data.List.Basic

namespace Layers

variable {α : Type*} {R : α → α → Prop}

inductive Path (R : α → α → Prop) : Nat → α → α → Prop
  | here (a : α) : Path R 0 a a
  | along {n : Nat} {a b c : α} (h : Path R n a b) (hbc : R b c) : Path R (n + 1) a c

/-- The length of a shortest path. -/
def Distance (R : α → α → Prop) (root a : α) (n : Nat) : Prop :=
  Path R n root a ∧ ∀ m, Path R m root a → n ≤ m

/-- What a walk in breadth has to keep of its depths. -/
structure Layered (R : α → α → Prop) (root : α) (depth : α → Nat → Prop) : Prop where
  start : depth root 0
  top : ∀ a, depth a 0 → a = root
  /-- An edge leads down one level at most. -/
  edge : ∀ a b n, depth a n → R a b → ∃ m ≤ n + 1, depth b m
  /-- Every level is reached from the one above. -/
  origin : ∀ a n, depth a (n + 1) → ∃ b, depth b n ∧ R b a
  unique : ∀ a n m, depth a n → depth a m → n = m

variable {root : α} {depth : α → Nat → Prop}

theorem Layered.path_depth (h : Layered R root depth) {n : Nat} {a : α} (hpath : Path R n root a) :
    ∃ m ≤ n, depth a m := by
  generalize hroot : root = r at hpath
  induction hpath with
  | here a => subst hroot; exact ⟨0, Nat.le_refl 0, h.start⟩
  | along _ hbc ih =>
      obtain ⟨m, hm, hdepth⟩ := ih hroot
      obtain ⟨k, hk, hdepth'⟩ := h.edge _ _ m hdepth hbc
      exact ⟨k, by omega, hdepth'⟩

theorem Layered.exists_path (h : Layered R root depth) {n : Nat} {a : α} (hdepth : depth a n) :
    Path R n root a := by
  induction n generalizing a with
  | zero => rw [h.top a hdepth]; exact .here root
  | succ n ih =>
      obtain ⟨b, hb, hba⟩ := h.origin a n hdepth
      exact .along (ih hb) hba

/-- **A depth is the length of a shortest path.** -/
theorem Layered.distance (h : Layered R root depth) {n : Nat} {a : α} (hdepth : depth a n) :
    Distance R root a n := by
  refine ⟨h.exists_path hdepth, fun m hm => ?_⟩
  obtain ⟨k, hk, hk'⟩ := h.path_depth hm
  have heq := h.unique a n k hdepth hk'
  omega

end Layers
