/-
What a stateful computation returns, whatever the state it starts in.

Many computations carry a state only for counting, for names and for warnings, and what is to be
said of the value they return holds from every state.  `Produces x P` says just that, so the state
never shows up in such a proof: a bind hands the property of the first value to the rest, and a
loop carries it from one item to the next.
-/
import Mathlib.Data.List.Basic

namespace Stateful

variable {σ α β : Type} {P Q : α → Prop}

/-- **What is returned from every state.** -/
def Produces (x : StateM σ α) (P : α → Prop) : Prop := ∀ s, P (x.run s).1

theorem Produces.mono {x : StateM σ α} (h : Produces x P) (hPQ : ∀ a, P a → Q a) :
    Produces x Q := fun s => hPQ _ (h s)

theorem produces_pure {a : α} (h : P a) : Produces (pure a : StateM σ α) P := fun _ => h

theorem Produces.bind {x : StateM σ β} {f : β → StateM σ α} {R : β → Prop} (h : Produces x R)
    (hf : ∀ b, R b → Produces (f b) P) : Produces (x >>= f) P := fun s => hf _ (h s) _

theorem produces_bind {x : StateM σ β} {f : β → StateM σ α} (hf : ∀ b, Produces (f b) P) :
    Produces (x >>= f) P := fun _ => hf _ _

theorem Produces.ite {c : Prop} [Decidable c] {x y : StateM σ α} (hx : c → Produces x P)
    (hy : ¬ c → Produces y P) : Produces (if c then x else y) P := by
  by_cases hc : c
  · rw [if_pos hc]; exact hx hc
  · rw [if_neg hc]; exact hy hc

end Stateful
