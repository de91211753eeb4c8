/-
Calls that read a state which others change.

A call is a program of reads: at each it sees the state of that moment, and goes on by what it
saw; whatever lies between two reads is the caller's own.  Nothing holds the state still
meanwhile, so all that is known of a call that is over is that each of its checks held at some
moment, and that these moments came one after another.  `Runs` says that with the moments: a
program that stood at one moment stands at another as something else.  It composes like the
programs do (`runs_bind`), which is all that is needed to read a fact with its moment off a
program; and it goes by where the call really stood, so that the part of a call which is one of
its programs has a definite end.
-/
import Mathlib.Init

namespace Calls

/-- What a call does next, which may depend on the state at which it looks. -/
inductive Prog (S α : Type) where
  | done (a : α)
  | fail
  | read (next : S → Prog S α)

namespace Prog

variable {S α β : Type}

def bind : Prog S α → (α → Prog S β) → Prog S β
  | done a, f => f a
  | fail, _ => fail
  | read next, f => read fun s => (next s).bind f

instance : Monad (Prog S) where
  pure := done
  bind := bind

theorem bind_bind {γ : Type} (p : Prog S α) (f : α → Prog S β) (g : β → Prog S γ) :
    (p >>= f) >>= g = p >>= fun a => f a >>= g := by
  change (p.bind f).bind g = p.bind fun a => (f a).bind g
  induction p with
  | done | fail => rfl
  | read next ih =>
      unfold bind
      exact congrArg read (funext fun s => ih s)

def ask (f : S → α) : Prog S α := read fun s => done (f s)

def ensure (c : S → Prop) [DecidablePred c] : Prog S Unit :=
  read fun s => if c s then done () else fail

def require (c : Prop) [Decidable c] : Prog S Unit := if c then done () else fail

def given : Option α → Prog S α
  | some a => done a
  | none => fail

/-- The second is asked only if the first is so. -/
def both (p q : Prog S Bool) : Prog S Bool := do
  let a ← p
  if a = true then q else done false

/-- The second is asked only if the first is not so. -/
def either (p q : Prog S Bool) : Prog S Bool := do
  let a ← p
  if a = true then done true else q

/-- A call with something in place of a failure. -/
def attempt (a : α) : Prog S α → Prog S α
  | done c => done c
  | fail => done a
  | read next => read fun s => (next s).attempt a

/-- What comes of a call if nobody interferes. -/
def solo (s : S) : Prog S α → Option α
  | done a => some a
  | fail => none
  | read next => (next s).solo s

end Prog

/-! ### What a call has read -/

section Reads

variable {S α β : Type} {w : Nat → S} {stands : Nat → Prog S α → Prop} {b m n t : Nat}
  {p q : Prog S α}

/-- A call that stood as the one program at `b` stands as the other from `n` on, which is just
after its last read. -/
inductive Runs (w : Nat → S) (stands : Nat → Prog S α → Prop) :
    Nat → Prog S α → Nat → Prog S α → Prop where
  | rest {b : Nat} {p : Prog S α} (h : stands b p) : Runs w stands b p b p
  | read {b t n : Nat} {next : S → Prog S α} {q : Prog S α} (hle : b ≤ t)
      (hwaits : ∀ s, b ≤ s → s ≤ t → stands s (.read next))
      (h : Runs w stands (t + 1) (next (w t)) n q) : Runs w stands b (.read next) n q

theorem Runs.le (h : Runs w stands b p n q) : b ≤ n := by
  induction h with
  | rest => exact Nat.le_refl _
  | read hle _ _ ih => omega

theorem Runs.begun (h : Runs w stands b p n q) : stands b p := by
  cases h with
  | rest h => exact h
  | read hle hwaits _ => exact hwaits b (Nat.le_refl b) hle

theorem Runs.between (h : Runs w stands b p n q) (hb : b ≤ t) (hn : t ≤ n) :
    ∃ r, stands t r := by
  induction h with
  | rest h => rw [Nat.le_antisymm hn hb]; exact ⟨_, h⟩
  | @read b t' n next q hle hwaits _ ih =>
      by_cases ht : t ≤ t'
      · exact ⟨_, hwaits t hb ht⟩
      · exact ih (Nat.lt_of_not_le ht) hn

theorem Runs.last {a : α} (h : Runs w stands b p n (.done a)) :
    p = .done a ∨ ∃ t next, n = t + 1 ∧ stands t (.read next) := by
  generalize hq : Prog.done a = q at h
  induction h with
  | rest => exact .inl rfl
  | @read b t n next q hle hwaits h ih =>
      rcases ih hq with hdone | hlast
      · rw [hdone, ← hq] at h
        cases h
        exact .inr ⟨t, next, rfl, hwaits t hle (Nat.le_refl t)⟩
      · exact .inr hlast

theorem Runs.snoc {next : S → Prog S α} (h : Runs w stands b p n (.read next)) (hle : n ≤ t)
    (hwaits : ∀ s, n ≤ s → s ≤ t → stands s (.read next)) (ht : stands (t + 1) (next (w t))) :
    Runs w stands b p (t + 1) (next (w t)) := by
  generalize hq : Prog.read next = q at h
  induction h with
  | rest => rw [← hq]; exact .read hle hwaits (.rest ht)
  | read hle' hwaits' _ ih => exact .read hle' hwaits' (ih hle hwaits hq)

/-- Only the states between the two moments matter. -/
theorem Runs.congr {w' : Nat → S} (h : Runs w stands b p n q)
    (hsame : ∀ t, b ≤ t → t < n → w' t = w t) : Runs w' stands b p n q := by
  induction h with
  | rest h => exact .rest h
  | @read b t n next q hle hwaits h ih =>
      have hlt : t < n := h.le
      refine .read hle hwaits ?_
      rw [hsame t hle hlt]
      exact ih fun t' ht' => hsame t' (by omega)

theorem runs_done {a c : α} (h : Runs w stands b (.done a) n (.done c)) : b = n ∧ a = c := by
  cases h
  exact ⟨rfl, rfl⟩

/-- **A composed call is over at the moment at which its second part is, and its first part was
over before that began.** -/
theorem runs_bind {stands : Nat → Prog S β → Prop} {p : Prog S α} {f : α → Prog S β} {c : β}
    (h : Runs w stands b (p >>= f) n (.done c)) :
    ∃ m a, Runs w (fun t p => stands t (p >>= f)) b p m (.done a) ∧
      Runs w stands m (f a) n (.done c) := by
  induction p generalizing b with
  | done a =>
      exact ⟨b, a, .rest h.begun, h⟩
  | fail => cases h
  | read next ih =>
      cases h with
      | read hle hwaits h =>
          obtain ⟨m, a, hfirst, hrest⟩ := ih _ h
          exact ⟨m, a, .read hle hwaits hfirst, hrest⟩

theorem runs_ask {stands : Nat → Prog S β → Prop} {f : S → α} {g : α → Prog S β} {c : β}
    (h : Runs w stands b (Prog.ask f >>= g) n (.done c)) :
    ∃ t, b ≤ t ∧ Runs w stands (t + 1) (g (f (w t))) n (.done c) := by
  obtain ⟨m, a, hask, h⟩ := runs_bind h
  cases hask with
  | read hle _ hask =>
      obtain ⟨rfl, rfl⟩ := runs_done hask
      exact ⟨_, hle, h⟩

theorem runs_ensure {stands : Nat → Prog S Unit → Prop} {c : S → Prop} [DecidablePred c] {u : Unit}
    (h : Runs w stands b (Prog.ensure c) n (.done u)) : ∃ t, b ≤ t ∧ n = t + 1 ∧ c (w t) := by
  cases h with
  | @read _ t _ _ _ hle _ h =>
      by_cases hc : c (w t)
      · simp only [hc, if_true] at h
        obtain ⟨rfl, -⟩ := runs_done h
        exact ⟨t, hle, rfl, hc⟩
      · simp only [hc, if_false] at h
        cases h

theorem runs_require {stands : Nat → Prog S Unit → Prop} {c : Prop} [Decidable c] {u : Unit}
    (h : Runs w stands b (Prog.require c) n (.done u)) : b = n ∧ c := by
  unfold Prog.require at h
  by_cases hc : c
  · rw [if_pos hc] at h; exact ⟨(runs_done h).1, hc⟩
  · rw [if_neg hc] at h; cases h

theorem runs_given {o : Option α} {a : α} (h : Runs w stands b (Prog.given o) n (.done a)) :
    b = n ∧ o = some a := by
  cases o with
  | none => cases h
  | some a' =>
      obtain ⟨rfl, rfl⟩ := runs_done h
      exact ⟨rfl, rfl⟩

theorem runs_require_bind {stands : Nat → Prog S β → Prop} {c : Prop} [Decidable c]
    {g : Unit → Prog S β} {a : β} (h : Runs w stands b (Prog.require c >>= g) n (.done a)) :
    c ∧ Runs w stands b (g ()) n (.done a) := by
  obtain ⟨m, _, hrequire, h⟩ := runs_bind h
  obtain ⟨rfl, hc⟩ := runs_require hrequire
  exact ⟨hc, h⟩

theorem runs_given_bind {stands : Nat → Prog S β → Prop} {o : Option α} {g : α → Prog S β} {c : β}
    (h : Runs w stands b (Prog.given o >>= g) n (.done c)) :
    ∃ a, o = some a ∧ Runs w stands b (g a) n (.done c) := by
  obtain ⟨m, a, hgiven, h⟩ := runs_bind h
  obtain ⟨rfl, ha⟩ := runs_given hgiven
  exact ⟨a, ha, h⟩

theorem runs_attempt {stands : Nat → Prog S α → Prop} {a c : α}
    (h : Runs w stands b (p.attempt a) n (.done c)) :
    c = a ∨ Runs w (fun t p => stands t (p.attempt a)) b p n (.done c) := by
  induction p generalizing b with
  | done d =>
      obtain ⟨rfl, rfl⟩ := runs_done h
      exact .inr (.rest h.begun)
  | fail => exact .inl (runs_done h).2.symm
  | read next ih =>
      cases h with
      | read hle hwaits h =>
          rcases ih _ h with ha | hrest
          · exact .inl ha
          · exact .inr (.read hle hwaits hrest)

/-! ### Calls by their first and last moment -/

/-- A call that began at the one moment and was over at the other. -/
abbrev Ran (w : Nat → S) (b : Nat) (p : Prog S α) (n : Nat) (a : α) : Prop :=
  Runs w (fun _ _ => True) b p n (.done a)

theorem ran_ask {f : S → α} {a : α} (h : Ran w b (Prog.ask f) n a) :
    ∃ t, b ≤ t ∧ n = t + 1 ∧ a = f (w t) := by
  cases h with
  | read hle _ h =>
      obtain ⟨rfl, rfl⟩ := runs_done h
      exact ⟨_, hle, rfl, rfl⟩

theorem ran_both {p q : Prog S Bool} (h : Ran w b (p.both q) n true) :
    ∃ m, Ran w b p m true ∧ Ran w m q n true := by
  obtain ⟨m, a, hp, h⟩ := runs_bind h
  by_cases ha : a = true
  · rw [ha] at hp
    rw [if_pos ha] at h
    exact ⟨m, hp, h⟩
  · rw [if_neg ha] at h; exact absurd (runs_done h).2 Bool.false_ne_true

theorem ran_either {p q : Prog S Bool} (h : Ran w b (p.either q) n false) :
    ∃ m, Ran w b p m false ∧ Ran w m q n false := by
  obtain ⟨m, a, hp, h⟩ := runs_bind h
  by_cases ha : a = true
  · rw [if_pos ha] at h; exact absurd (runs_done h).2.symm Bool.false_ne_true
  · rw [Bool.eq_false_iff.mpr ha] at hp
    rw [if_neg ha] at h
    exact ⟨m, hp, h⟩

theorem ran_of_solo {s : S} {a : α} (h : p.solo s = some a) (b : Nat) :
    ∃ n, Ran (fun _ => s) b p n a := by
  induction p generalizing b with
  | done c =>
      obtain rfl : c = a := Option.some.inj h
      exact ⟨b, .rest trivial⟩
  | fail => exact absurd h.symm (Option.some_ne_none a)
  | read next ih =>
      obtain ⟨n, hn⟩ := ih s h (b + 1)
      exact ⟨n, .read (Nat.le_refl b) (fun _ _ _ => trivial) hn⟩

/-! ### Moments -/

def Sampled (w : Nat → S) (b n : Nat) (P : S → Prop) : Prop := ∃ t, b ≤ t ∧ t < n ∧ P (w t)

theorem Sampled.mono {P : S → Prop} (h : Sampled w m n P) {b' n' : Nat} (hb : b' ≤ m)
    (hn : n ≤ n') : Sampled w b' n' P := by
  obtain ⟨t, hle, hlt, hP⟩ := h
  exact ⟨t, Nat.le_trans hb hle, Nat.lt_of_lt_of_le hlt hn, hP⟩

theorem sampled_ensure {stands : Nat → Prog S Unit → Prop} {c : S → Prop} [DecidablePred c]
    {u : Unit} (h : Runs w stands b (Prog.ensure c) n (.done u)) : Sampled w b n c := by
  obtain ⟨t, hle, rfl, hc⟩ := runs_ensure h
  exact ⟨t, hle, Nat.lt_succ_self t, hc⟩

end Reads

end Calls
