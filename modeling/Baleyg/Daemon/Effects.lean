/-
What each operation of the registry does.

Apart from the operations on clients, the expiry of browsers and the marking of a
checkout as busy, everything an operation does is a few moves: it records what it found
of one checkout's pending work, frees or takes out an entry that has no client, adds one
nobody has attached to, opens a runtime, and the like.  `Move` lists them, each operation
is shown once to make nothing but moves wherever it stops, and every invariant is then
proved of one move.  `Calm` is what a client can see of moves: clients, and the deadline
that depends on them, are left alone.
-/
import Baleyg.Lib.Runs
import Baleyg.Daemon.Registry

namespace Baleyg.Daemon

open Fallible (Yields Carries ensure yields_bind yields_get yields_set yields_modify yields_pure
  yields_throw yields_ensure)
open Relation (ReflTransGen)
open Table (Keyed)

/-! ### One entry -/

namespace Registry

variable (r : Registry)

/-- The entry is marked as having work pending, or as having none. -/
def marked (k : String) (pending : Bool) : Registry :=
  r.alter k fun e => { e with pendingWork := pending }

/-- The entry is released, and its runtime is gone. -/
def freed (k : String) : Registry :=
  { r.alter k fun e => { e with pendingWork := false, released := true } with
    runtimes := r.runtimes.erase k }

def without (k : String) : Registry :=
  { r with entries := Register.remove Entry.key k r.entries, runtimes := r.runtimes.erase k }

end Registry

section Specs

variable {r : Registry} {k : String} {o : Outside} {identity : Identity}

theorem yields_theEntry {Q : Entry → Registry → Prop} {E : SelectionError → Registry → Prop}
    (hQ : ∀ e, r.entry k = some e → Q e r) (hE : ∀ error, E error r) :
    Yields (theEntry k) r Q E := by
  unfold theEntry
  rw [yields_bind, yields_get]
  cases hentry : r.entry k with
  | none => exact hE _
  | some e => exact hQ e hentry

theorem eq_of_entry (hkeyed : Keyed Entry.key r.entries) {e a : Entry} (he : r.entry k = some e)
    (ha : a ∈ r.entries) (hk : a.key = k) : e = a := by
  obtain ⟨hmem, hkey⟩ := Register.mem_of_get he
  exact hkeyed.eq_of_key hmem ha (hkey.trans hk.symm)

theorem marked_eq_self (hkeyed : Keyed Entry.key r.entries) {e : Entry} (he : r.entry k = some e) :
    r.marked k e.pendingWork = r := by
  unfold Registry.marked Registry.alter
  rw [Register.alter_eq_self]
  intro a ha hk
  rw [eq_of_entry hkeyed he ha hk]

/-- When the pending work of a checkout may be found to be what it is found to be. -/
structure Found (r : Registry) (k : String) (e : Entry) (pending : Bool) : Prop where
  entry : r.entry k = some e
  cause : pending = e.pendingWork ∨ (e.externalWork = true ∧ pending = true) ∨ k ∈ r.runtimes
  external : e.externalWork = true → pending = true

/-- **What a look at pending work does**: it records what it returns. -/
theorem yields_refreshPendingWork (hkeyed : Keyed Entry.key r.entries) {probe : String → Probe} :
    Yields (refreshPendingWork probe k) r
      (fun pending r' => r' = r.marked k pending ∧ ∃ e, Found r k e pending)
      (fun _ r' => r' = r) := by
  unfold refreshPendingWork
  rw [yields_bind]
  refine yields_theEntry (fun e he => ?_) fun _ => rfl
  rw [yields_bind, yields_get]
  by_cases hexternal : e.externalWork = true
  · rw [if_pos hexternal, yields_bind, yields_modify]
    exact ⟨rfl, e, he, .inr (.inl ⟨hexternal, rfl⟩), fun _ => rfl⟩
  · rw [if_neg hexternal]
    by_cases hruntime : k ∈ r.runtimes
    · rw [if_pos hruntime]
      cases probe k with
      | unavailable => exact rfl
      | reads pending =>
          show Yields (_ >>= _) _ _ _
          rw [yields_bind, yields_modify]
          exact ⟨rfl, e, he, .inr (.inr hruntime), fun h => absurd h hexternal⟩
    · rw [if_neg hruntime]
      exact ⟨(marked_eq_self hkeyed he).symm, e, he, .inl rfl, fun h => absurd h hexternal⟩

theorem yields_releaseRuntime :
    Yields (releaseRuntime o.drain k) r
      (fun drained r' => if drained = true then r' = { r with runtimes := r.runtimes.erase k }
        else r' = r)
      (fun _ r' => r' = r) := by
  unfold releaseRuntime
  rw [yields_bind, yields_get]
  by_cases hruntime : k ∈ r.runtimes
  · rw [if_pos hruntime]
    cases o.drain k with
    | unavailable | busy => exact rfl
    | drained =>
        show Yields (_ >>= _) _ _ _
        rw [yields_bind, yields_modify]
        exact rfl
  · rw [if_neg hruntime]
    show r = { r with runtimes := r.runtimes.erase k }
    rw [Finset.erase_eq_of_notMem hruntime]

theorem freed_eq : ({ r.marked k false with runtimes := r.runtimes.erase k } : Registry).alter k
    (fun e => { e with released := true }) = r.freed k := by
  have hcompose : Register.alter Entry.key k (fun e => { e with released := true })
        (Register.alter Entry.key k (fun e => { e with pendingWork := false }) r.entries)
      = Register.alter Entry.key k (fun e => { e with pendingWork := false, released := true })
        r.entries := Register.alter_alter fun _ => rfl
  unfold Registry.freed Registry.marked Registry.alter
  rw [hcompose]

/-- **What a release does**: a checkout without clients or pending work is freed, any
other has its pending work recorded. -/
theorem yields_release (hkeyed : Keyed Entry.key r.entries) :
    Yields (release o k) r
      (fun released r' => if released = true then
          r' = r.freed k ∧ ∃ e, r.entry k = some e ∧ e.Idle ∧ e.externalWork = false
        else ∃ pending, r' = r.marked k pending ∧ ∃ e, Found r k e pending)
      (fun _ r' => r' = r ∨ ∃ pending, r' = r.marked k pending ∧ ∃ e, Found r k e pending) := by
  unfold release
  rw [yields_bind]
  refine (yields_refreshPendingWork hkeyed).mono ?_ fun _ _ h => .inl h
  rintro pending r' ⟨rfl, e, hfound⟩
  have hentry : (r.marked k pending).entry k = some { e with pendingWork := pending } :=
    Register.get_alter (f := fun e : Entry => { e with pendingWork := pending })
      (fun _ => rfl) hfound.entry
  rw [yields_bind]
  refine yields_theEntry (fun e' he' => ?_) fun _ => .inr ⟨pending, rfl, e, hfound⟩
  rw [hentry] at he'
  cases he'
  split
  · exact ⟨pending, rfl, e, hfound⟩
  · rename_i hclear
    obtain ⟨hsessions, hclear⟩ := not_or.mp hclear
    obtain ⟨hbrowser, hpending⟩ := not_or.mp hclear
    have hfalse : pending = false := Bool.eq_false_iff.mpr hpending
    subst hfalse
    rw [yields_bind]
    refine yields_releaseRuntime.mono ?_ ?_
    · intro drained u hu
      by_cases hdrained : drained = true
      · rw [if_pos hdrained] at hu ⊢
        subst hu
        rw [yields_bind, yields_modify]
        refine ⟨freed_eq, e, hfound.entry, ⟨not_not.mp hsessions, not_not.mp hbrowser⟩, ?_⟩
        exact Bool.eq_false_iff.mpr fun h => Bool.false_ne_true (hfound.external h)
      · rw [if_neg hdrained] at hu ⊢
        subst hu
        exact ⟨false, rfl, e, hfound⟩
    · rintro _ u rfl
      exact .inr ⟨false, rfl, e, hfound⟩

/-- An entry at rest is released. -/
theorem yields_release_of_idle (hkeyed : Keyed Entry.key r.entries) {e : Entry}
    (he : r.entry k = some e) (hidle : e.Idle) (hwork : e.pendingWork = false)
    (hexternal : e.externalWork = false) (hruntime : k ∉ r.runtimes) :
    Yields (release o k) r (fun released r' => released = true ∧ r' = r.freed k)
      fun _ _ => False := by
  have hfreed : r.alter k (fun e => { e with released := true }) = r.freed k := by
    have hmarked := marked_eq_self hkeyed he
    rw [hwork] at hmarked
    rw [← freed_eq, hmarked, Finset.erase_eq_of_notMem hruntime]
  unfold release refreshPendingWork releaseRuntime
  rw [yields_bind, yields_bind]
  simp only [theEntry, yields_bind, yields_get, he, if_neg hruntime, hwork, hexternal, yields_pure,
    Bool.false_eq_true, if_false, if_true, or_false, hidle.1, hidle.2, ne_eq, not_true,
    yields_modify]
  exact ⟨trivial, hfreed⟩

theorem freed_without : ({ r.freed k with
    entries := Register.remove Entry.key k (r.freed k).entries } : Registry) = r.without k := by
  have hremove : Register.remove Entry.key k (r.freed k).entries
      = Register.remove Entry.key k r.entries := Register.remove_alter fun _ => rfl
  rw [hremove]
  rfl

/-- **What a replacement does**: an entry of another identity is taken out, or has its
pending work recorded. -/
theorem yields_retireReplaced (hkeyed : Keyed Entry.key r.entries) :
    Yields (retireReplaced o identity) r
      (fun _ r' => (r' = r ∧ ∀ e, r.entry identity.rootKey = some e → e.identity = identity) ∨
        (r' = r.without identity.rootKey ∧
          ∃ e, r.entry identity.rootKey = some e ∧ e.Idle ∧ e.identity ≠ identity))
      (fun _ r' => r' = r ∨ ∃ pending e, r' = r.marked identity.rootKey pending ∧
        Found r identity.rootKey e pending ∧ e.identity ≠ identity) := by
  unfold retireReplaced
  rw [yields_bind, yields_get]
  cases hentry : r.entry identity.rootKey with
  | none =>
      refine .inl ⟨rfl, fun e he => ?_⟩
      cases he
  | some e =>
      show Yields (if e.identity = identity then pure () else _) r _ _
      split
      · rename_i hsame
        refine .inl ⟨rfl, fun e' he' => ?_⟩
        cases he'
        exact hsame
      · rename_i hother
        rw [yields_bind, yields_ensure]
        refine ⟨fun _ => ?_, fun _ => .inl rfl⟩
        rw [yields_bind]
        refine (yields_release hkeyed).mono ?_ ?_
        · intro released u hu
          rw [yields_bind, yields_ensure]
          constructor
          · intro hreleased
            rw [if_pos hreleased] at hu
            obtain ⟨rfl, e', he', hidle, -⟩ := hu
            rw [hentry] at he'
            cases he'
            rw [yields_modify]
            exact .inr ⟨freed_without, e, rfl, hidle, hother⟩
          · intro hbusy
            rw [if_neg hbusy] at hu
            obtain ⟨pending, rfl, e', hfound⟩ := hu
            have he' := hfound.entry
            rw [hentry] at he'
            cases he'
            exact .inr ⟨pending, e, rfl, hfound, hother⟩
        · rintro _ u (rfl | ⟨pending, rfl, e', hfound⟩)
          · exact .inl rfl
          · have he' := hfound.entry
            rw [hentry] at he'
            cases he'
            exact .inr ⟨pending, e, rfl, hfound, hother⟩

theorem retireReplaced_eq (hkeyed : Keyed Entry.key r.entries) {e : Entry}
    (he : r.entry identity.rootKey = some e) (hother : e.identity ≠ identity)
    (hretire : canRetireReplaced o identity r = true) (hidle : e.Idle)
    (hwork : e.pendingWork = false) (hexternal : e.externalWork = false)
    (hruntime : identity.rootKey ∉ r.runtimes) :
    retireReplaced o identity r = .ok () (r.without identity.rootKey) := by
  refine Yields.returns ?_
  unfold retireReplaced
  rw [yields_bind, yields_get, he]
  show Yields (if e.identity = identity then pure () else _) r _ _
  rw [if_neg hother, yields_bind, yields_ensure]
  refine ⟨fun _ => ?_, fun h => h hretire⟩
  rw [yields_bind]
  refine (yields_release_of_idle hkeyed he hidle hwork hexternal hruntime).mono ?_ fun _ _ h => h
  rintro _ _ ⟨rfl, rfl⟩
  rw [yields_bind, yields_ensure]
  refine ⟨fun _ => ?_, fun h => h rfl⟩
  rw [yields_modify]
  exact freed_without

/-- Nothing to replace, nothing retired. -/
theorem retireReplaced_of_none (hnew : r.entry identity.rootKey = none) :
    retireReplaced o identity r = .ok () r := by
  refine Yields.returns ?_
  unfold retireReplaced
  rw [yields_bind, yields_get, hnew]
  exact rfl

end Specs

/-! ### Moves -/

/-- One change an operation makes to a registry. -/
inductive Move (r : Registry) : Registry → Prop
  | marked {k : String} {e : Entry} {pending : Bool} (found : Found r k e pending) :
      Move r (r.marked k pending)
  | freed {k : String} {e : Entry} (entry : r.entry k = some e) (idle : e.Idle)
      (free : e.externalWork = false) : Move r (r.freed k)
  | settled {k : String} {e : Entry} (entry : r.entry k = some e) (idle : e.Idle)
      (released : e.released = true) : Move r (r.alter k fun e => { e with releaseAt := none })
  | without {k : String} {e : Entry} (entry : r.entry k = some e) (idle : e.Idle) :
      Move r (r.without k)
  | added {identity : Identity} (registration : Option CheckoutOptions)
      (entry : r.entry identity.rootKey = none) : Move r (r.insert (.inert identity registration))
  | registered (k : String) (options : CheckoutOptions) :
      Move r (r.alter k fun e => { e with registration := some options })
  | opened {k : String} {e : Entry} (entry : r.entry k = some e) (released : e.released = false) :
      Move r { r with runtimes := insert k r.runtimes }
  | scanned (cache : Option (Nat × Bool)) (count : Nat) :
      Move r { r with orphanScanCache := cache, orphanScanCount := count }
  | reordered {entries : List Entry} (perm : entries.Perm r.entries) :
      Move r { r with entries := entries }

theorem Move.keyed {r r' : Registry} (h : Move r r') (hkeyed : Keyed Entry.key r.entries) :
    Keyed Entry.key r'.entries := by
  cases h with
  | marked | freed | settled | registered => exact Register.keyed_alter hkeyed fun _ => rfl
  | without => exact Register.keyed_remove hkeyed
  | added => exact Register.keyed_put hkeyed
  | opened | scanned => exact hkeyed
  | reordered perm => exact (perm.map Entry.key).nodup_iff.mpr hkeyed

/-- **No move makes two entries of one key.** -/
theorem keyed_of_moves {r r' : Registry} (h : ReflTransGen Move r r')
    (hkeyed : Keyed Entry.key r.entries) : Keyed Entry.key r'.entries :=
  Runs.keeps_run (I := fun r => Keyed Entry.key r.entries) (fun _ _ h => h.keyed) h hkeyed

/-- A computation that only makes moves, wherever it stops. -/
def Moves {ε α : Type} (x : EStateM ε Registry α) : Prop :=
  ∀ r, Keyed Entry.key r.entries →
    Yields x r (fun _ r' => ReflTransGen Move r r') fun _ r' => ReflTransGen Move r r'

section Moves

variable {ε α β : Type} {o : Outside} {k : String} {identity : Identity}

theorem Moves.bind {x : EStateM ε Registry α} {f : α → EStateM ε Registry β} (hx : Moves x)
    (hf : ∀ a, Moves (f a)) : Moves (x >>= f) := by
  intro r hkeyed
  rw [yields_bind]
  refine (hx r hkeyed).mono (fun a r' hmoves => ?_) fun _ _ h => h
  refine (hf a r' (keyed_of_moves hmoves hkeyed)).mono (fun _ _ h => ?_) fun _ _ h => ?_
  · exact hmoves.trans h
  · exact hmoves.trans h

theorem moves_pure (a : α) : Moves (pure a : EStateM ε Registry α) := fun _ _ => .refl

theorem moves_get : Moves (get : EStateM ε Registry Registry) := fun _ _ => .refl

theorem moves_ensure (c : Prop) [Decidable c] (e : ε) :
    Moves (ensure c e : EStateM ε Registry Unit) := fun _ _ =>
  yields_ensure.mpr ⟨fun _ => .refl, fun _ => .refl⟩

theorem moves_refreshPendingWork (probe : String → Probe) : Moves (refreshPendingWork probe k) := by
  intro r hkeyed
  refine (yields_refreshPendingWork hkeyed).mono ?_ ?_
  · rintro pending r' ⟨rfl, e, hfound⟩
    exact .single (.marked hfound)
  · rintro _ r' rfl
    exact .refl

theorem moves_release : Moves (release o k) := by
  intro r hkeyed
  refine (yields_release hkeyed).mono ?_ ?_
  · intro released r' h
    split at h
    · obtain ⟨rfl, e, he, hidle, hfree⟩ := h
      exact .single (.freed he hidle hfree)
    · obtain ⟨pending, rfl, e, hfound⟩ := h
      exact .single (.marked hfound)
  · rintro _ r' (rfl | ⟨pending, rfl, e, hfound⟩)
    · exact .refl
    · exact .single (.marked hfound)

theorem moves_retireReplaced : Moves (retireReplaced o identity) := by
  intro r hkeyed
  refine (yields_retireReplaced hkeyed).mono ?_ ?_
  · rintro _ r' (⟨rfl, -⟩ | ⟨rfl, e, he, hidle, -⟩)
    · exact .refl
    · exact .single (.without he hidle)
  · rintro _ r' (rfl | ⟨pending, e, rfl, hfound, -⟩)
    · exact .refl
    · exact .single (.marked hfound)

theorem moves_canRegister (valid : Except SelectionError Unit) (options : CheckoutOptions) :
    Moves (canRegister o valid identity options) := by
  refine (moves_ensure _ _).bind fun _ => ?_
  cases valid with
  | error e => exact fun _ _ => .refl
  | ok _ =>
      refine moves_retireReplaced.bind fun _ => moves_get.bind fun r => ?_
      cases r.entry identity.rootKey with
      | none => exact moves_pure _
      | some e => exact moves_ensure _ _

theorem moves_register (options : CheckoutOptions) : Moves (register o identity options) := by
  refine (moves_ensure _ _).bind fun _ => moves_retireReplaced.bind fun _ r _ => ?_
  rw [yields_bind, yields_get]
  cases hentry : r.entry identity.rootKey with
  | none =>
      show Yields (set _) r _ _
      rw [yields_set]
      exact .single (.added (some options) hentry)
  | some e =>
      show Yields (ensure _ _ >>= _) r _ _
      rw [yields_bind, yields_ensure]
      refine ⟨fun _ => ?_, fun _ => .refl⟩
      split
      · exact .refl
      · rw [yields_bind, yields_ensure]
        refine ⟨fun _ => ?_, fun _ => .refl⟩
        rw [yields_set]
        exact .single (.registered identity.rootKey options)

theorem moves_lookupIndexed (l : Lookup) : Moves (lookupIndexed l k) := by
  intro r _
  unfold lookupIndexed
  rw [yields_bind, yields_get]
  cases hentry : r.entry k with
  | some e => exact .refl
  | none =>
      cases hindexed : l.indexed with
      | error e => exact .refl
      | ok identity =>
          show Yields (ensure _ _ >>= _) r _ _
          rw [yields_bind, yields_ensure]
          refine ⟨fun hkey => ?_, fun _ => .refl⟩
          unfold registerDiscovered
          rw [yields_modify]
          refine .single (.added none ?_)
          rw [hkey]
          exact hentry

theorem moves_browserIdentity (l : Lookup) : Moves (browserIdentity o l k) := by
  refine (moves_ensure _ _).bind fun _ => (moves_lookupIndexed l).bind fun _ r hkeyed => ?_
  rw [yields_bind, yields_get]
  cases hentry : r.entry k with
  | none => exact .refl
  | some e =>
      show Yields (if l.rediscovered = true then pure e.identity else _) r _ _
      split
      · exact .refl
      · cases l.current with
        | none => exact .refl
        | some current =>
            show Yields (ensure _ _ >>= _) r _ _
            rw [yields_bind, yields_ensure]
            refine ⟨fun hcurrent => ?_, fun _ => .refl⟩
            obtain ⟨hkey, hother⟩ := hcurrent
            rw [yields_bind]
            refine (yields_retireReplaced hkeyed).mono ?_ ?_
            · rintro _ r' (⟨rfl, hsame⟩ | ⟨rfl, e', he', hidle, -⟩)
              · exact absurd (hsame e (hkey ▸ hentry)) hother
              · rw [yields_bind]
                unfold registerDiscovered
                rw [yields_modify, yields_pure]
                have hgone : (r.without current.rootKey).entry current.rootKey = none :=
                  Register.get_eq_none.mpr fun a ha => (Register.mem_remove.mp ha).2
                exact .tail (.single (.without he' hidle)) (.added none hgone)
            · rintro _ r' (rfl | ⟨pending, e', rfl, hfound, -⟩)
              · exact .refl
              · exact .single (.marked hfound)

theorem moves_activate (opens : Except String Unit) : Moves (activate opens k) := by
  intro r _
  unfold activate
  rw [yields_bind, yields_get]
  cases hentry : r.entry k with
  | none => exact .refl
  | some e =>
      show Yields (ensure _ _ >>= _) r _ _
      rw [yields_bind, yields_ensure]
      refine ⟨fun hclient => ?_, fun _ => .refl⟩
      split
      · exact .refl
      · cases opens with
        | error error => exact .refl
        | ok _ =>
            show Yields (set _) r _ _
            rw [yields_set]
            exact .single (.opened hentry hclient.1)

theorem moves_releaseDue (due : List String) : Moves (releaseDue o due) := by
  induction due with
  | nil => exact moves_pure _
  | cons k rest ih =>
      intro r hkeyed
      unfold releaseDue
      rw [yields_bind]
      refine (yields_release hkeyed).mono ?_ ?_
      · intro released r' h
        by_cases hreleased : released = true
        · rw [if_pos hreleased] at h ⊢
          obtain ⟨rfl, e, he, hidle, hfree⟩ := h
          rw [yields_bind, yields_modify]
          have hfreed : (r.freed k).entry k = some { e with pendingWork := false, released := true } :=
            Register.get_alter (f := fun e : Entry => { e with pendingWork := false, released := true })
              (fun _ => rfl) he
          have hmoves : ReflTransGen Move r
              ((r.freed k).alter k fun e => { e with releaseAt := none }) :=
            .tail (.single (.freed he hidle hfree)) (.settled hfreed hidle rfl)
          rw [yields_bind]
          refine (ih _ (keyed_of_moves hmoves hkeyed)).mono (fun more u hu => ?_) fun _ u hu => ?_
          · exact hmoves.trans hu
          · exact hmoves.trans hu
        · rw [if_neg hreleased] at h ⊢
          obtain ⟨pending, rfl, e, hfound⟩ := h
          have hmoves : ReflTransGen Move r (r.marked k pending) := .single (.marked hfound)
          refine (ih _ (keyed_of_moves hmoves hkeyed)).mono (fun _ u hu => ?_) fun _ u hu => ?_
          · exact hmoves.trans hu
          · exact hmoves.trans hu
      · rintro _ r' (rfl | ⟨pending, rfl, e, hfound⟩)
        · exact .refl
        · exact .single (.marked hfound)

theorem moves_anyBusy (probe : String → Probe) (keys : List String) : Moves (anyBusy probe keys) := by
  induction keys with
  | nil => exact moves_pure _
  | cons k rest ih =>
      exact (moves_refreshPendingWork probe).bind fun _ => ih.bind fun _ => moves_pure _

theorem moves_orphanPending (now : Nat) : Moves (orphanPending o now) := by
  intro r _
  unfold orphanPending
  rw [yields_bind, yields_get]
  cases r.orphanScanCache with
  | none => exact .single (.scanned _ _)
  | some cache =>
      obtain ⟨till, pending⟩ := cache
      show Yields (if now < till then pure pending else _) r _ _
      split
      · exact .refl
      · exact .single (.scanned _ _)

end Moves

/-! ### What a client sees of moves -/

/-- What may become of an entry: it keeps its clients, and is released only without any. -/
structure Entry.Follows (e e' : Entry) : Prop where
  key : e'.key = e.key
  sessions : e'.sessions = e.sessions
  browser : e'.browserUntil = e.browserUntil
  rest : (e'.released = e.released ∧ e'.releaseAt = e.releaseAt) ∨
    (e.Idle ∧ e'.released = true ∧ (e'.releaseAt = e.releaseAt ∨ e'.releaseAt = none))

structure Entry.Inert (e : Entry) : Prop where
  idle : e.Idle
  released : e.released = true
  releaseAt : e.releaseAt = none

/-- **An operation that leaves the clients alone.** -/
structure Calm (r r' : Registry) : Prop where
  keyed : Keyed Entry.key r'.entries
  exit : r'.idleExitAt = r.idleExitAt
  origin : ∀ e' ∈ r'.entries, (∃ e ∈ r.entries, e.Follows e') ∨ e'.Inert
  clients : ∀ e ∈ r.entries, ¬ e.Idle → ∃ e' ∈ r'.entries, e.Follows e'

namespace Entry

variable {e e' e'' : Entry}

theorem Follows.refl (e : Entry) : e.Follows e := ⟨rfl, rfl, rfl, .inl ⟨rfl, rfl⟩⟩

theorem Follows.idle_iff (h : e.Follows e') : e'.Idle ↔ e.Idle := by
  unfold Idle
  rw [h.sessions, h.browser]

theorem Follows.trans (h : e.Follows e') (h' : e'.Follows e'') : e.Follows e'' := by
  refine ⟨h'.key.trans h.key, h'.sessions.trans h.sessions, h'.browser.trans h.browser, ?_⟩
  rcases h.rest with ⟨hreleased, hat⟩ | ⟨hidle, hreleased, hat⟩
  · rcases h'.rest with ⟨hreleased', hat'⟩ | ⟨hidle', hreleased', hat'⟩
    · exact .inl ⟨hreleased'.trans hreleased, hat'.trans hat⟩
    · exact .inr ⟨h.idle_iff.mp hidle', hreleased', by rwa [hat] at hat'⟩
  · rcases h'.rest with ⟨hreleased', hat'⟩ | ⟨-, hreleased', hat'⟩
    · exact .inr ⟨hidle, hreleased'.trans hreleased, by rwa [hat']⟩
    · refine .inr ⟨hidle, hreleased', ?_⟩
      rcases hat' with hsame | hnone
      · rwa [hsame]
      · exact .inr hnone

theorem Follows.inert (h : e.Follows e') (he : e.Inert) : e'.Inert := by
  refine ⟨h.idle_iff.mpr he.idle, ?_, ?_⟩
  · rcases h.rest with ⟨hreleased, -⟩ | ⟨-, hreleased, -⟩
    · rw [hreleased]; exact he.released
    · exact hreleased
  · rcases h.rest with ⟨-, hat⟩ | ⟨-, -, hat | hat⟩
    · exact hat.trans he.releaseAt
    · exact hat.trans he.releaseAt
    · exact hat

end Entry

namespace Calm

variable {r r' r'' : Registry} {k : String}

theorem of_perm (hkeyed : Keyed Entry.key r.entries) (h : r'.entries.Perm r.entries)
    (hexit : r'.idleExitAt = r.idleExitAt) : Calm r r' := by
  refine ⟨(h.map Entry.key).nodup_iff.mpr hkeyed, hexit, fun e he => ?_, fun e he _ => ?_⟩
  · exact .inl ⟨e, h.mem_iff.mp he, .refl e⟩
  · exact ⟨e, h.mem_iff.mpr he, .refl e⟩

theorem refl (h : Keyed Entry.key r.entries) : Calm r r := .of_perm h (.refl _) rfl

theorem trans (h : Calm r r') (h' : Calm r' r'') : Calm r r'' := by
  refine ⟨h'.keyed, h'.exit.trans h.exit, fun e'' he'' => ?_, fun e he hclient => ?_⟩
  · rcases h'.origin e'' he'' with ⟨e', he', hfollows'⟩ | hinert
    · rcases h.origin e' he' with ⟨e, he, hfollows⟩ | hinert
      · exact .inl ⟨e, he, hfollows.trans hfollows'⟩
      · exact .inr (hfollows'.inert hinert)
    · exact .inr hinert
  · obtain ⟨e', he', hfollows⟩ := h.clients e he hclient
    obtain ⟨e'', he'', hfollows'⟩ :=
      h'.clients e' he' fun hidle => hclient (hfollows.idle_iff.mp hidle)
    exact ⟨e'', he'', hfollows.trans hfollows'⟩

theorem alter {f : Entry → Entry} (hkeyed : Keyed Entry.key r.entries)
    (hentries : r'.entries = Register.alter Entry.key k f r.entries)
    (hexit : r'.idleExitAt = r.idleExitAt) (hkey : ∀ e, (f e).key = e.key)
    (hf : ∀ e ∈ r.entries, e.key = k → e.Follows (f e)) : Calm r r' := by
  refine ⟨?_, hexit, fun e' he' => ?_, fun e he _ => ?_⟩
  · rw [hentries]; exact Register.keyed_alter hkeyed hkey
  · rw [hentries] at he'
    rcases Register.mem_alter.mp he' with ⟨he, -⟩ | ⟨e, he, hk, rfl⟩
    · exact .inl ⟨e', he, .refl e'⟩
    · exact .inl ⟨e, he, hf e he hk⟩
  · rw [hentries]
    by_cases hk : e.key = k
    · exact ⟨f e, Register.mem_alter.mpr (.inr ⟨e, he, hk, rfl⟩), hf e he hk⟩
    · exact ⟨e, Register.mem_alter.mpr (.inl ⟨he, hk⟩), .refl e⟩

theorem without (hkeyed : Keyed Entry.key r.entries) {e : Entry} (he : r.entry k = some e)
    (hidle : e.Idle) : Calm r (r.without k) := by
  refine ⟨Register.keyed_remove hkeyed, rfl, fun e' he' => ?_, fun a ha hclient => ?_⟩
  · exact .inl ⟨e', (Register.mem_remove.mp he').1, .refl e'⟩
  · refine ⟨a, Register.mem_remove.mpr ⟨ha, fun hk => ?_⟩, .refl a⟩
    obtain rfl := eq_of_entry hkeyed he ha hk
    exact hclient hidle

theorem insert (hkeyed : Keyed Entry.key r.entries) {e : Entry} (hnew : r.entry e.key = none)
    (he : e.Inert) : Calm r (r.insert e) := by
  refine ⟨Register.keyed_put hkeyed, rfl, fun e' he' => ?_, fun a ha _ => ?_⟩
  · rcases Register.mem_put.mp he' with ⟨hold, -⟩ | rfl
    · exact .inl ⟨e', hold, .refl e'⟩
    · exact .inr he
  · exact ⟨a, Register.mem_put.mpr (.inl ⟨ha, Register.get_eq_none.mp hnew a ha⟩), .refl a⟩

/-- **A move is calm.** -/
theorem of_move (hkeyed : Keyed Entry.key r.entries) (h : Move r r') : Calm r r' := by
  cases h with
  | marked => exact .alter hkeyed rfl rfl (fun _ => rfl) fun _ _ _ => ⟨rfl, rfl, rfl, .inl ⟨rfl, rfl⟩⟩
  | freed he hidle =>
      refine .alter hkeyed rfl rfl (fun _ => rfl) fun a ha hk => ?_
      obtain rfl := eq_of_entry hkeyed he ha hk
      exact ⟨rfl, rfl, rfl, .inr ⟨hidle, rfl, .inl rfl⟩⟩
  | settled he hidle hreleased =>
      refine .alter hkeyed rfl rfl (fun _ => rfl) fun a ha hk => ?_
      obtain rfl := eq_of_entry hkeyed he ha hk
      exact ⟨rfl, rfl, rfl, .inr ⟨hidle, hreleased, .inr rfl⟩⟩
  | without he hidle => exact .without hkeyed he hidle
  | added registration hnew => exact .insert hkeyed hnew ⟨⟨rfl, rfl⟩, rfl, rfl⟩
  | registered =>
      exact .alter hkeyed rfl rfl (fun _ => rfl) fun _ _ _ => ⟨rfl, rfl, rfl, .inl ⟨rfl, rfl⟩⟩
  | opened | scanned => exact .of_perm hkeyed (.refl _) rfl
  | reordered perm => exact .of_perm hkeyed perm rfl

theorem of_moves (hkeyed : Keyed Entry.key r.entries) (h : ReflTransGen Move r r') : Calm r r' := by
  induction h with
  | refl => exact .refl hkeyed
  | tail _ hlast ih => exact ih.trans (.of_move ih.keyed hlast)

end Calm

end Baleyg.Daemon
