/-
Attachments, and the operations of the registry as steps.

An attachment first takes an entry of another identity out of the way, then either
gives an entry of its own a client or adds one, and an attachment that raises is seen in
that other entry only.  `Operation` lists everything that can be asked of a registry;
`perform` is the registry it is left with, whether it answered or raised.
-/
import Baleyg.Daemon.Effects

namespace Baleyg.Daemon

open Fallible (Yields ensure final yields_bind yields_get yields_set yields_modify yields_ensure)
open Relation (ReflTransGen)
open Table (Keyed)

/-! ### Attachments -/

def Replaced (identity : Identity) (r r' : Registry) : Prop :=
  r' = r ∨ (r' = r.without identity.rootKey ∧
    ∃ e, r.entry identity.rootKey = some e ∧ e.Idle ∧ e.identity ≠ identity)

/-- **What an attachment that raises has done**: nothing but to an entry of another
identity, which is taken out or has its pending work recorded. -/
def Spared (identity : Identity) (r r' : Registry) : Prop :=
  r' = r ∨ ∃ e, r.entry identity.rootKey = some e ∧ e.identity ≠ identity ∧
    ((e.Idle ∧ r' = r.without identity.rootKey) ∨
      ∃ pending, Found r identity.rootKey e pending ∧ r' = r.marked identity.rootKey pending)

/-- How a checkout gets a client. -/
inductive Admitted (session : Option Nat) (identity : Identity) (r : Registry) : Registry → Prop
  | again {e : Entry} (entry : r.entry identity.rootKey = some e)
      (room : e.released = true → r.activeCount < maxActiveCheckouts) :
      Admitted session identity r
        { r.alter identity.rootKey (Entry.attached session) with idleExitAt := none }
  | first (entry : r.entry identity.rootKey = none) (room : r.activeCount < maxActiveCheckouts) :
      Admitted session identity r
        { r.insert (Entry.first session identity) with idleExitAt := none }

section Attach

variable {r r' : Registry} {o : Outside} {session : Option Nat} {identity : Identity}

theorem Replaced.spared (h : Replaced identity r r') : Spared identity r r' := by
  rcases h with rfl | ⟨rfl, e, he, hidle, hother⟩
  · exact .inl rfl
  · exact .inr ⟨e, he, hother, .inl ⟨hidle, rfl⟩⟩

theorem Spared.moves (h : Spared identity r r') : ReflTransGen Move r r' := by
  rcases h with rfl | ⟨e, he, -, ⟨hidle, rfl⟩ | ⟨pending, hfound, rfl⟩⟩
  · exact .refl
  · exact .single (.without he hidle)
  · exact .single (.marked hfound)

theorem yields_retireReplaced_spared (hkeyed : Keyed Entry.key r.entries) :
    Yields (retireReplaced o identity) r (fun _ r' => Replaced identity r r')
      fun _ r' => Spared identity r r' := by
  refine (yields_retireReplaced hkeyed).mono ?_ ?_
  · rintro _ r' (⟨rfl, -⟩ | ⟨rfl, e, he, hidle, hother⟩)
    · exact .inl rfl
    · exact .inr ⟨rfl, e, he, hidle, hother⟩
  · rintro _ r' (rfl | ⟨pending, e, rfl, hfound, hother⟩)
    · exact .inl rfl
    · exact .inr ⟨e, hfound.entry, hother, .inr ⟨pending, hfound, rfl⟩⟩

/-- **What an attachment does.** -/
theorem yields_attach (hkeyed : Keyed Entry.key r.entries) :
    Yields (attach o session identity) r
      (fun _ r' => ∃ r₁, Replaced identity r r₁ ∧ Admitted session identity r₁ r')
      fun _ r' => Spared identity r r' := by
  unfold attach
  rw [yields_bind]
  refine (yields_retireReplaced_spared hkeyed).mono ?_ fun _ _ h => h
  intro _ r₁ hreplaced
  have hspared := hreplaced.spared
  rw [yields_bind, yields_get]
  cases hentry : r₁.entry identity.rootKey with
  | some e =>
      show Yields (ensure _ _ >>= _) r₁ _ _
      rw [yields_bind, yields_ensure]
      refine ⟨fun _ => ?_, fun _ => hspared⟩
      rw [yields_bind, yields_ensure]
      refine ⟨fun hroom => ?_, fun _ => hspared⟩
      rw [yields_bind, yields_ensure]
      refine ⟨fun _ => ?_, fun _ => hspared⟩
      rw [yields_bind, yields_set]
      refine ⟨r₁, hreplaced, .again hentry fun hreleased => ?_⟩
      exact Nat.lt_of_not_le fun hfull => hroom ⟨hreleased, hfull⟩
  | none =>
      show Yields (ensure _ _ >>= _) r₁ _ _
      rw [yields_bind, yields_ensure]
      refine ⟨fun hroom => ?_, fun _ => hspared⟩
      rw [yields_bind, yields_ensure]
      refine ⟨fun _ => ?_, fun _ => hspared⟩
      rw [yields_bind, yields_set]
      exact ⟨r₁, hreplaced, .first hentry (Nat.lt_of_not_le hroom)⟩

/-- An attachment to a checkout that is not known succeeds while there is room. -/
theorem attach_of_room {r₁ : Registry} (hretire : retireReplaced o identity r = .ok () r₁)
    (hnew : r₁.entry identity.rootKey = none) (hroom : r₁.activeCount < maxActiveCheckouts)
    (hcloned : o.cloned = true) : ∃ a, attach o session identity r
      = .ok a { r₁.insert (Entry.first session identity) with idleExitAt := none } := by
  have hyields : Yields (attach o session identity) r
      (fun _ r' => r' = { r₁.insert (Entry.first session identity) with idleExitAt := none })
      fun _ _ => False := by
    unfold attach
    rw [yields_bind]
    refine .of_eq_ok hretire ?_
    rw [yields_bind, yields_get, hnew]
    show Yields (ensure _ _ >>= _) r₁ _ _
    rw [yields_bind, yields_ensure]
    refine ⟨fun _ => ?_, fun h => h (Nat.not_le_of_lt hroom)⟩
    rw [yields_bind, yields_ensure]
    exact ⟨fun _ => rfl, fun h => h hcloned⟩
  obtain ⟨a, _, hok, rfl⟩ := hyields.exists_ok
  exact ⟨a, hok⟩

theorem attach_of_full {r₁ : Registry} (hretire : retireReplaced o identity r = .ok () r₁)
    (hnew : r₁.entry identity.rootKey = none) (hfull : maxActiveCheckouts ≤ r₁.activeCount) :
    attach o session identity r = .error .checkoutCapacity r₁ := by
  refine Yields.raises ?_
  unfold attach
  rw [yields_bind]
  refine .of_eq_ok hretire ?_
  rw [yields_bind, yields_get, hnew]
  show Yields (ensure _ _ >>= _) r₁ _ _
  rw [yields_bind, yields_ensure]
  exact ⟨fun h => absurd hfull h, fun _ => ⟨rfl, rfl⟩⟩

theorem yields_attachLaunch (hkeyed : Keyed Entry.key r.entries) {s : Nat} :
    Yields (attachLaunch o s identity) r
      (fun _ r' => ∃ r₁, Replaced identity r r₁ ∧ Admitted (some s) identity r₁ r')
      fun _ r' => Spared identity r r' := by
  unfold attachLaunch
  rw [yields_bind, yields_ensure]
  exact ⟨fun _ => yields_attach hkeyed, fun _ => .inl rfl⟩

theorem yields_select (hkeyed : Keyed Entry.key r.entries) {m : Membership} {s : Nat} :
    Yields (select o m s) r
      (fun _ r' => ∃ identity r₁, m.check = .ok identity ∧ Replaced identity r r₁ ∧
        Admitted (some s) identity r₁ r')
      fun _ r' => r' = r ∨ ∃ identity, m.check = .ok identity ∧ Spared identity r r' := by
  unfold select
  cases hcheck : m.check with
  | error e => exact .inl rfl
  | ok identity =>
      refine (yields_attach hkeyed).mono ?_ fun _ _ h => .inr ⟨identity, rfl, h⟩
      rintro _ r' ⟨r₁, hreplaced, hadmitted⟩
      exact ⟨identity, r₁, rfl, hreplaced, hadmitted⟩

def Registry.browsed (r : Registry) (k : String) (now : Nat) : Registry :=
  { r.alter k fun e => { e with browserUntil := some (now + browserIdleDelay), releaseAt := none } with
    idleExitAt := none }

theorem yields_browserRequestAt (hkeyed : Keyed Entry.key r.entries) {now : Nat} :
    Yields (browserRequestAt o identity now) r
      (fun _ r' => ∃ r₁ r₂, Replaced identity r r₁ ∧ Admitted none identity r₁ r₂ ∧
        r' = r₂.browsed identity.rootKey now)
      fun _ r' => Spared identity r r' := by
  unfold browserRequestAt
  rw [yields_bind]
  refine (yields_attach hkeyed).mono ?_ fun _ _ h => h
  rintro _ r₂ ⟨r₁, hreplaced, hadmitted⟩
  exact ⟨r₁, r₂, hreplaced, hadmitted, rfl⟩

end Attach

/-! ### Operations -/

/-- What can be asked of a registry, with what it then reads outside. -/
inductive Operation where
  | attachLaunch (o : Outside) (session : Nat) (launch : Identity)
  | select (o : Outside) (m : Membership) (session : Nat)
  | browserRequest (o : Outside) (identity : Identity)
  | disconnect (session : Nat)
  | setPendingWork (k : String) (pending : Bool)
  | refreshPendingWork (probe : String → Probe) (k : String)
  | release (o : Outside) (k : String)
  | retireReplaced (o : Outside) (identity : Identity)
  | canRegister (o : Outside) (valid : Except SelectionError Unit) (identity : Identity)
      (options : CheckoutOptions)
  | register (o : Outside) (identity : Identity) (options : CheckoutOptions)
  | browserIdentity (o : Outside) (l : Lookup) (k : String)
  | activate (opens : Except String Unit) (k : String)
  | advance (o : Outside)

def Operation.perform (now : Nat) (r : Registry) : Operation → Registry
  | attachLaunch o session launch => final (Daemon.attachLaunch o session launch) r
  | select o m session => final (Daemon.select o m session) r
  | browserRequest o identity => final (browserRequestAt o identity now) r
  | disconnect session => r.disconnectAt session now
  | setPendingWork k pending => final (Daemon.setPendingWork k pending) r
  | refreshPendingWork probe k => final (Daemon.refreshPendingWork probe k) r
  | release o k => final (Daemon.release o k) r
  | retireReplaced o identity => final (Daemon.retireReplaced o identity) r
  | canRegister o valid identity options => final (Daemon.canRegister o valid identity options) r
  | register o identity options => final (Daemon.register o identity options) r
  | browserIdentity o l k => final (Daemon.browserIdentity o l k) r
  | activate opens k => final (Daemon.activate opens k) r
  | advance o => final (Daemon.advance o now) r

/-- What can happen to a registry: an operation, or the choice of another order of its
entries. -/
inductive Step (r : Registry) : Registry → Prop
  | perform (now : Nat) (op : Operation) : Step r (op.perform now r)
  | reorder {entries : List Entry} (perm : entries.Perm r.entries) :
      Step r { r with entries := entries }

def Registry.assigned (r : Registry) (k : String) (pending : Bool) : Registry :=
  r.alter k fun e => { e with externalWork := pending, pendingWork := pending }

theorem final_setPendingWork (r : Registry) (k : String) (pending : Bool) :
    final (setPendingWork k pending) r = r.assigned k pending ∨
      final (setPendingWork k pending) r = r := by
  have hyields : Yields (setPendingWork k pending) r
      (fun _ r' => r' = r.assigned k pending ∨ r' = r)
      fun _ r' => r' = r.assigned k pending ∨ r' = r := by
    unfold setPendingWork
    rw [yields_bind]
    refine yields_theEntry (fun e he => ?_) fun _ => .inr rfl
    rw [yields_modify]
    exact .inl rfl
  exact hyields.final

/-! ### The clocked part of `advance` -/

/-- The registry after the browsers that are no longer live have expired. -/
def Registry.ticked (now : Nat) (r : Registry) : Registry :=
  (r.expireBrowsers now).updateExitDeadline ((lastExpired now r.entries).getD now)

def Registry.due (now : Nat) (r : Registry) : List String :=
  (r.entries.filter fun e => e.releaseAt.any (· ≤ now)).map Entry.key

/-- What `advance` does once the browsers have expired. -/
def sweep (o : Outside) (now : Nat) : Action LifecycleTick := do
  let r ← get
  let released ← releaseDue o (r.due now)
  let r ← get
  let busy ← anyBusy o.again (r.entries.map Entry.key)
  let r ← get
  if r.idleExitAt.any (· ≤ now) = true ∧ busy = false ∧ ¬ r.Attended then
    let pending ← orphanPending o now
    pure ⟨released, !pending⟩
  else pure ⟨released, false⟩

theorem advance_eq (o : Outside) (now : Nat) (r : Registry) :
    advance o now r = sweep o now (r.ticked now) := rfl

theorem moves_sweep (o : Outside) (now : Nat) : Moves (sweep o now) := by
  refine moves_get.bind fun r => (moves_releaseDue _).bind fun released => ?_
  refine moves_get.bind fun r => (moves_anyBusy _ _).bind fun busy => ?_
  refine moves_get.bind fun r => ?_
  split
  · exact (moves_orphanPending now).bind fun pending => moves_pure _
  · exact moves_pure _

end Baleyg.Daemon
