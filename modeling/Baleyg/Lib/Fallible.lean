/-
Stateful computations that can fail half-way.

`EStateM ε σ α` keeps the state a computation had reached when it raised, which
is exactly what a program does that performs several effects and is stopped
between two of them: the effects already made stay made.  `Yields x s Q E` says
what such a computation guarantees from `s`: `Q` of the value and state it
returns with, `E` of the error and state it raises with.  Every construct of a
computation has one rule, stated as an equivalence so that `simp` can push
`Yields` through a whole program.

`Carries R x` is the coarser statement most frame facts need: wherever `x` stops,
and whether or not it raised, the final state is `R`-related to the first.  For a
preorder `R` it only has to be proved of the primitive effects.
-/
import Mathlib.Data.List.Forall2

namespace Fallible

variable {σ ε ε' α β : Type}

/-- The state a computation stops in, whether it returned or raised. -/
def final (x : EStateM ε σ α) (s : σ) : σ :=
  match x s with
  | .ok _ t => t
  | .error _ t => t

/-- **What a computation guarantees from a state.** -/
def Yields (x : EStateM ε σ α) (s : σ) (Q : α → σ → Prop) (E : ε → σ → Prop) : Prop :=
  match x s with
  | .ok a t => Q a t
  | .error e t => E e t

/-- Go on when the condition holds and raise otherwise. -/
def ensure {m : Type → Type} [Monad m] [MonadExceptOf ε m] (c : Prop) [Decidable c] (e : ε) :
    m Unit :=
  if c then pure () else throw e

/-- Run a computation on a part of the state. -/
def zoom {τ : Type} (part : σ → τ) (put : τ → σ → σ) (x : EStateM ε τ α) : EStateM ε σ α :=
  fun s =>
    match x (part s) with
    | .ok a t => .ok a (put t s)
    | .error e t => .error e (put t s)

/-- Run a computation and hand its outcome back as a value. -/
def attempt (x : EStateM ε σ α) : EStateM ε' σ (Except ε α) := fun s =>
  match x s with
  | .ok a t => .ok (.ok a) t
  | .error e t => .ok (.error e) t

theorem get_bind_run {f : σ → EStateM ε σ α} {s : σ} : (EStateM.get >>= f) s = f s s := rfl

/-! ### One rule per construct -/

section Rules

variable {s : σ} {Q : α → σ → Prop} {E : ε → σ → Prop}

variable {a : α} {e : ε} {t : σ} {x : EStateM ε σ α}

@[simp] theorem yields_pure : Yields (pure a : EStateM ε σ α) s Q E ↔ Q a s := Iff.rfl

@[simp] theorem yields_throw : Yields (throw e : EStateM ε σ α) s Q E ↔ E e s := Iff.rfl

@[simp] theorem yields_get {Q : σ → σ → Prop} :
    Yields (get : EStateM ε σ σ) s Q E ↔ Q s s := Iff.rfl

@[simp] theorem yields_set {Q : PUnit → σ → Prop} :
    Yields (set t : EStateM ε σ PUnit) s Q E ↔ Q ⟨⟩ t := Iff.rfl

@[simp] theorem yields_modify {f : σ → σ} {Q : PUnit → σ → Prop} :
    Yields (modify f : EStateM ε σ PUnit) s Q E ↔ Q ⟨⟩ (f s) := Iff.rfl

@[simp] theorem yields_bind {x : EStateM ε σ β} {f : β → EStateM ε σ α} :
    Yields (x >>= f) s Q E ↔ Yields x s (fun b t => Yields (f b) t Q E) E := by
  show Yields (EStateM.bind x f) s Q E ↔ _
  unfold Yields EStateM.bind
  cases x s <;> rfl

@[simp] theorem yields_ensure {c : Prop} [Decidable c] {Q : Unit → σ → Prop} :
    Yields (ensure c e) s Q E ↔ (c → Q () s) ∧ (¬ c → E e s) := by
  unfold ensure
  split <;> rename_i h <;> simp only [h, true_imp_iff, false_imp_iff, not_true_eq_false,
    not_false_eq_true, and_true, true_and]
  · exact yields_pure
  · exact Iff.rfl

@[simp] theorem yields_attempt {x : EStateM ε σ β} {Q : Except ε β → σ → Prop}
    {E : ε' → σ → Prop} :
    Yields (attempt x) s Q E
      ↔ Yields x s (fun b t => Q (.ok b) t) (fun e t => Q (.error e) t) := by
  unfold Yields attempt
  cases x s <;> rfl

@[simp] theorem yields_zoom {τ : Type} {part : σ → τ} {put : τ → σ → σ} {x : EStateM ε τ α} :
    Yields (zoom part put x) s Q E
      ↔ Yields x (part s) (fun a t => Q a (put t s)) (fun e t => E e (put t s)) := by
  unfold Yields zoom
  cases x (part s) <;> rfl

theorem Yields.mono {Q' : α → σ → Prop} {E' : ε → σ → Prop} (h : Yields x s Q E)
    (hQ : ∀ a t, Q a t → Q' a t) (hE : ∀ e t, E e t → E' e t) : Yields x s Q' E' := by
  unfold Yields at h ⊢
  cases hx : x s <;> simp only [hx] at h ⊢
  · exact hQ _ _ h
  · exact hE _ _ h

/-- **A loop over a list**: what holds of the elements done so far is kept by one
more. -/
theorem yields_forM {f : β → EStateM ε σ PUnit} {xs : List β} {I : List β → σ → Prop}
    (hstep : ∀ done, ∀ x ∈ xs, ∀ t, I done t → Yields (f x) t (fun _ u => I (done ++ [x]) u) E)
    (h : I [] s) : Yields (xs.forM f) s (fun _ t => I xs t) E := by
  suffices hsuff : ∀ done rest t, (∀ x ∈ rest, x ∈ xs) → I done t →
      Yields (rest.forM f) t (fun _ u => I (done ++ rest) u) E by
    have hall := hsuff [] xs s (fun _ hx => hx) h
    rwa [List.nil_append] at hall
  intro done rest
  induction rest generalizing done with
  | nil =>
      intro t _ ht
      show Yields (pure ⟨⟩ : EStateM ε σ PUnit) t _ _
      rw [yields_pure, List.append_nil]
      exact ht
  | cons x rest ih =>
      intro t hin ht
      show Yields (f x >>= fun _ => rest.forM f) t _ _
      rw [yields_bind]
      refine (hstep done x (hin x List.mem_cons_self) t ht).mono (fun _ u hu => ?_)
        fun _ _ he => he
      have hrest := ih (done ++ [x]) u (fun y hy => hin y (List.mem_cons_of_mem x hy)) hu
      rwa [List.append_assoc, List.singleton_append] at hrest

theorem Yields.and {Q' : α → σ → Prop} {E' : ε → σ → Prop} (h : Yields x s Q E)
    (h' : Yields x s Q' E') :
    Yields x s (fun a t => Q a t ∧ Q' a t) (fun e t => E e t ∧ E' e t) := by
  unfold Yields at h h' ⊢
  cases hx : x s <;> simp only [hx] at h h' ⊢ <;> exact ⟨h, h'⟩

theorem Yields.exists_ok (h : Yields x s Q fun _ _ => False) : ∃ a t, x s = .ok a t ∧ Q a t := by
  unfold Yields at h
  cases hx : x s with
  | ok a t => rw [hx] at h; exact ⟨a, t, rfl, h⟩
  | error e t => rw [hx] at h; exact h.elim

theorem Yields.exists_error (h : Yields x s (fun _ _ => False) E) :
    ∃ e t, x s = .error e t ∧ E e t := by
  unfold Yields at h
  cases hx : x s with
  | ok a t => rw [hx] at h; exact h.elim
  | error e t => rw [hx] at h; exact ⟨e, t, rfl, h⟩

theorem Yields.of_ok (h : Yields x s Q E) (hx : x s = .ok a t) : Q a t := by
  unfold Yields at h
  rwa [hx] at h

theorem Yields.of_error (h : Yields x s Q E) (hx : x s = .error e t) : E e t := by
  unfold Yields at h
  rwa [hx] at h

theorem Yields.of_eq_ok (hx : x s = .ok a t) (h : Q a t) : Yields x s Q E := by
  unfold Yields
  rwa [hx]

theorem Yields.raises (h : Yields x s (fun _ _ => False) fun e' u => e' = e ∧ u = t) :
    x s = .error e t := by
  obtain ⟨_, _, hx, rfl, rfl⟩ := h.exists_error
  exact hx

theorem Yields.returns {x : EStateM ε σ Unit} (h : Yields x s (fun _ u => u = t) fun _ _ => False) :
    x s = .ok () t := by
  obtain ⟨_, _, hx, rfl⟩ := h.exists_ok
  exact hx

theorem Yields.final {P : σ → Prop} (h : Yields x s (fun _ t => P t) fun _ t => P t) :
    P (final x s) := by
  unfold Yields at h
  unfold Fallible.final
  cases hx : x s <;> simpa only [hx] using h

end Rules

/-! ### Computations without state

A transaction body reads one snapshot, so it is a plain `Except`; these peel a
successful one apart.
-/

variable {f : α → Except ε β} {xs : List α} {ys : List β} {R : α → β → Prop}

theorem bind_eq_ok {x : Except ε α} {b : β} : (x >>= f) = .ok b ↔ ∃ a, x = .ok a ∧ f a = .ok b := by
  cases x with
  | error e =>
      constructor
      · intro h; cases h
      · rintro ⟨a, ha, -⟩
        cases ha
  | ok a =>
      constructor
      · intro h; exact ⟨a, rfl, h⟩
      · rintro ⟨a', ha, hf⟩
        cases ha
        exact hf

theorem ensure_eq_ok {c : Prop} [Decidable c] {e : ε} {u : Unit} :
    (ensure c e : Except ε Unit) = .ok u ↔ c := by
  unfold ensure
  split
  · rename_i h
    exact ⟨fun _ => h, fun _ => rfl⟩
  · rename_i h
    constructor
    · intro hthrow; cases hthrow
    · intro hc; exact absurd hc h

theorem ensure_bind_eq_ok {c : Prop} [Decidable c] {e : ε} {x : Except ε β} {b : β} :
    (ensure c e >>= fun _ => x) = .ok b ↔ c ∧ x = .ok b := by
  rw [bind_eq_ok]
  constructor
  · rintro ⟨_, hc, hx⟩
    exact ⟨ensure_eq_ok.mp hc, hx⟩
  · rintro ⟨hc, hx⟩
    exact ⟨(), ensure_eq_ok.mpr hc, hx⟩

/-- **A traversal succeeds element by element.** -/
theorem mapM_eq_ok : xs.mapM f = .ok ys ↔ List.Forall₂ (fun x y => f x = .ok y) xs ys := by
  induction xs generalizing ys with
  | nil =>
      rw [List.forall₂_nil_left_iff]
      constructor
      · intro h
        cases h
        rfl
      · rintro rfl
        rfl
  | cons x xs ih =>
      rw [List.mapM_cons, bind_eq_ok, List.forall₂_cons_left_iff]
      constructor
      · rintro ⟨y, hy, h⟩
        obtain ⟨zs, hzs, h⟩ := bind_eq_ok.mp h
        cases h
        exact ⟨y, zs, hy, ih.mp hzs, rfl⟩
      · rintro ⟨y, zs, hy, hzs, rfl⟩
        exact ⟨y, hy, bind_eq_ok.mpr ⟨zs, ih.mpr hzs, rfl⟩⟩

theorem exists_of_forall₂_left (h : List.Forall₂ R xs ys) {x : α} (hx : x ∈ xs) :
    ∃ y ∈ ys, R x y := by
  induction h with
  | nil => cases hx
  | @cons z y xs ys hy hys ih =>
      rcases List.mem_cons.mp hx with rfl | hx
      · exact ⟨y, List.mem_cons_self, hy⟩
      · obtain ⟨y', hy', hxy⟩ := ih hx
        exact ⟨y', List.mem_cons_of_mem y hy', hxy⟩

theorem exists_of_forall₂_right (h : List.Forall₂ R xs ys) {y : β} (hy : y ∈ ys) :
    ∃ x ∈ xs, R x y :=
  exists_of_forall₂_left h.flip hy

theorem map_eq_of_forall₂ {γ : Type} {f : α → γ} {g : β → γ} (h : List.Forall₂ R xs ys)
    (hR : ∀ x y, R x y → g y = f x) : ys.map g = xs.map f := by
  induction h with
  | nil => rfl
  | cons hxy _ ih => rw [List.map_cons, List.map_cons, hR _ _ hxy, ih]

theorem pairwise_of_forall₂ {S : α → α → Prop} {T : β → β → Prop} (h : List.Forall₂ R xs ys)
    (hxs : xs.Pairwise S) (hT : ∀ x y x' y', R x y → R x' y' → S x x' → T y y') :
    ys.Pairwise T := by
  induction h with
  | nil => exact .nil
  | cons hxy hrest ih =>
      rw [List.pairwise_cons] at hxs ⊢
      refine ⟨fun y' hy' => ?_, ih hxs.2⟩
      obtain ⟨x', hx', hxy'⟩ := exists_of_forall₂_right hrest hy'
      exact hT _ _ _ _ hxy hxy' (hxs.1 x' hx')

theorem mem_of_mapM_eq_ok (h : xs.mapM f = .ok ys) {y : β} (hy : y ∈ ys) : ∃ x ∈ xs, f x = .ok y :=
  exists_of_forall₂_right (mapM_eq_ok.mp h) hy

theorem exists_of_mapM_eq_ok (h : xs.mapM f = .ok ys) {x : α} (hx : x ∈ xs) :
    ∃ y ∈ ys, f x = .ok y :=
  exists_of_forall₂_left (mapM_eq_ok.mp h) hx

/-- A step with one outcome makes the whole a `map`. -/
theorem eq_map_of_mapM_eq_ok {g : α → β} (h : xs.mapM f = .ok ys)
    (hg : ∀ x ∈ xs, ∀ y, f x = .ok y → y = g x) : ys = xs.map g := by
  have hall := mapM_eq_ok.mp h
  clear h
  induction hall with
  | nil => rfl
  | cons hxy _ ih =>
      rw [List.map_cons, ← hg _ List.mem_cons_self _ hxy,
        ← ih fun x hx => hg x (List.mem_cons_of_mem _ hx)]

theorem mapM_returns (h : ∀ x ∈ xs, ∃ y, f x = .ok y) : ∃ ys, xs.mapM f = .ok ys := by
  induction xs with
  | nil => exact ⟨[], rfl⟩
  | cons x xs ih =>
      obtain ⟨y, hy⟩ := h x List.mem_cons_self
      obtain ⟨ys, hys⟩ := ih fun x' hx' => h x' (List.mem_cons_of_mem x hx')
      refine ⟨y :: ys, ?_⟩
      rw [List.mapM_cons, hy, hys]
      rfl

theorem forM_eq_ok {f : α → Except ε PUnit.{1}} {u : PUnit} :
    xs.forM f = .ok u ↔ ∀ x ∈ xs, f x = .ok ⟨⟩ := by
  induction xs with
  | nil => exact ⟨fun _ _ hx => absurd hx List.not_mem_nil, fun _ => rfl⟩
  | cons x xs ih =>
      show (f x >>= fun _ => xs.forM f) = .ok u ↔ _
      rw [bind_eq_ok, List.forall_mem_cons]
      constructor
      · rintro ⟨_, hx, hxs⟩
        exact ⟨hx, ih.mp hxs⟩
      · rintro ⟨hx, hxs⟩
        exact ⟨⟨⟩, hx, ih.mpr hxs⟩

theorem mem_of_filterMapM_eq_ok {f : α → Except ε (Option β)} (h : xs.filterMapM f = .ok ys) {y : β}
    (hy : y ∈ ys) : ∃ x ∈ xs, f x = .ok (some y) := by
  induction xs generalizing ys with
  | nil => cases h; cases hy
  | cons x xs ih =>
      rw [List.filterMapM_cons, bind_eq_ok] at h
      obtain ⟨z, hz, h⟩ := h
      cases z with
      | none =>
          obtain ⟨x', hx', hfx'⟩ := ih h hy
          exact ⟨x', List.mem_cons_of_mem x hx', hfx'⟩
      | some z =>
          obtain ⟨zs, hzs, h⟩ := bind_eq_ok.mp h
          cases h
          rcases List.mem_cons.mp hy with rfl | hy
          · exact ⟨x, List.mem_cons_self, hz⟩
          · obtain ⟨x', hx', hfx'⟩ := ih hzs hy
            exact ⟨x', List.mem_cons_of_mem x hx', hfx'⟩

/-! ### Relations every effect respects -/

/-- Wherever the computation stops, its final state is `R`-related to its first. -/
def Carries (R : σ → σ → Prop) (x : EStateM ε σ α) : Prop :=
  ∀ s, Yields x s (fun _ t => R s t) fun _ t => R s t

section Carries

variable {R : σ → σ → Prop}

theorem Carries.final {x : EStateM ε σ α} (h : Carries R x) (s : σ) : R s (final x s) :=
  (h s).final

theorem carries_pure [Std.Refl R] (a : α) : Carries R (pure a : EStateM ε σ α) :=
  fun s => Std.Refl.refl s

theorem carries_throw [Std.Refl R] (e : ε) : Carries R (throw e : EStateM ε σ α) :=
  fun s => Std.Refl.refl s

theorem carries_get [Std.Refl R] : Carries R (get : EStateM ε σ σ) :=
  fun s => Std.Refl.refl s

theorem carries_ensure [Std.Refl R] (c : Prop) [Decidable c] (e : ε) :
    Carries R (ensure c e : EStateM ε σ Unit) := fun s =>
  yields_ensure.mpr ⟨fun _ => Std.Refl.refl s, fun _ => Std.Refl.refl s⟩

/-- **Sequencing keeps a preorder.** -/
theorem Carries.bind [IsTrans σ R] {x : EStateM ε σ β} {f : β → EStateM ε σ α}
    (hx : Carries R x) (hf : ∀ b, Carries R (f b)) : Carries R (x >>= f) := by
  intro s
  rw [yields_bind]
  refine (hx s).mono (fun b t ht => ?_) fun _ _ h => h
  exact (hf b t).mono (fun _ _ h => IsTrans.trans _ _ _ ht h)
    fun _ _ h => IsTrans.trans _ _ _ ht h

theorem Carries.attempt {x : EStateM ε σ α} (hx : Carries R x) :
    Carries R (attempt x : EStateM ε' σ (Except ε α)) := fun s =>
  yields_attempt.mpr (hx s)

theorem Carries.ite {c : Prop} [Decidable c] {x y : EStateM ε σ α} (hx : Carries R x)
    (hy : Carries R y) : Carries R (if c then x else y) := by
  split
  · exact hx
  · exact hy

end Carries

end Fallible
