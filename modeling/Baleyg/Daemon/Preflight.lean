/-
Registration, and the look ahead at it.

A checkout is provisioned in two calls.  `canRegister` takes an entry of another identity out of
the way and asks whether the options would be refused; only then are the listener and its token
made; and `register` comes last.  The two calls repeat each other's checks, so what is needed of
them is that the second finds nothing the first did not: after a look ahead that returned, the
entry of the root is of the identity that asked or is not there, a second replacement does
nothing, and the one refusal that is left is the one that was looked for.

The key of a checkout is a digest of its root.  No operation makes an identity up, so the entries
of a registry that is only ever handed identities with their own key have their own keys, and a
root is then found under one key only.
-/
import Baleyg.Daemon.Capacity

namespace Baleyg.Daemon

open Fallible (Yields Carries ensure final yields_bind yields_get yields_set yields_modify
  yields_ensure yields_pure carries_pure carries_throw carries_get carries_ensure
  bind_eq_ok ensure_bind_eq_ok)
open Relation (ReflTransGen)
open Table (Keyed)

/-! ### Where identities come from -/

/-- Every identity of the one registry is in the other already, or was handed over. -/
def Inherits (P : Identity → Prop) (r r' : Registry) : Prop :=
  ∀ e' ∈ r'.entries, P e'.identity ∨ ∃ e ∈ r.entries, e.identity = e'.identity

section Inherits

variable {P : Identity → Prop} {ε α : Type} {r r' : Registry} {k : String} {o : Outside}
  {identity : Identity}

instance : Std.Refl (Inherits P) := ⟨fun _ e he => .inr ⟨e, he, rfl⟩⟩

instance : IsTrans Registry (Inherits P) := ⟨fun r s t hrs hst e he => by
  rcases hst e he with h | ⟨e', he', hsame⟩
  · exact .inl h
  · rw [← hsame]; exact hrs e' he'⟩

theorem inherits_refl (r : Registry) : Inherits P r r := Std.Refl.refl r

theorem inherits_of_subset (h : ∀ e ∈ r'.entries, e ∈ r.entries) : Inherits P r r' :=
  fun e he => .inr ⟨e, h e he, rfl⟩

theorem inherits_map {f : Entry → Entry} (hf : ∀ e, (f e).identity = e.identity)
    (h : r'.entries = r.entries.map f) : Inherits P r r' := by
  intro e' he'
  rw [h] at he'
  obtain ⟨e, he, rfl⟩ := List.mem_map.mp he'
  exact .inr ⟨e, he, (hf e).symm⟩

theorem inherits_alter {f : Entry → Entry} (hf : ∀ e, (f e).identity = e.identity) :
    Inherits P r (r.alter k f) := by
  refine inherits_map (f := fun e => if e.key = k then f e else e) (fun e => ?_) rfl
  split
  · exact hf e
  · rfl

theorem inherits_insert {e : Entry} (he : P e.identity) : Inherits P r (r.insert e) := by
  intro e' he'
  rcases Register.mem_put.mp he' with ⟨hmem, -⟩ | rfl
  · exact .inr ⟨e', hmem, rfl⟩
  · exact .inl he

theorem carries_modify {f : Registry → Registry} (hf : ∀ r, Inherits P r (f r)) :
    Carries (Inherits P) (modify f : EStateM ε Registry PUnit) := fun r => yields_modify.mpr (hf r)

theorem carries_modify_bind {f : Registry → Registry} (hf : ∀ r, Inherits P r (f r)) (a : α) :
    Carries (Inherits P) (do modify f; pure a : EStateM ε Registry α) :=
  (carries_modify hf).bind fun _ => carries_pure a

theorem carries_theEntry : Carries (Inherits P) (theEntry k) := by
  refine carries_get.bind fun r => ?_
  cases r.entry k with
  | none => exact carries_throw _
  | some e => exact carries_pure e

theorem carries_setPendingWork (pending : Bool) :
    Carries (Inherits P) (setPendingWork k pending) :=
  carries_theEntry.bind fun _ => carries_modify fun _ => inherits_alter fun _ => rfl

theorem carries_refreshPendingWork (probe : String → Probe) :
    Carries (Inherits P) (refreshPendingWork probe k) := by
  refine carries_theEntry.bind fun e => carries_get.bind fun r => ?_
  refine Carries.ite ?_ (Carries.ite ?_ (carries_pure _))
  · refine carries_modify_bind (fun _ => ?_) _
    exact inherits_alter fun _ => rfl
  · cases probe k with
    | unavailable => exact carries_throw _
    | reads pending =>
        show Carries _ (do modify _; pure _)
        refine carries_modify_bind (fun _ => ?_) _
        exact inherits_alter fun _ => rfl

theorem carries_releaseRuntime (drain : String → Drain) :
    Carries (Inherits P) (releaseRuntime drain k) := by
  refine carries_get.bind fun r => Carries.ite ?_ (carries_pure _)
  cases drain k with
  | unavailable => exact carries_throw _
  | busy => exact carries_pure _
  | drained =>
      show Carries _ (do modify _; pure _)
      refine carries_modify_bind (fun _ => ?_) _
      exact inherits_of_subset fun _ h => h

theorem carries_release : Carries (Inherits P) (release o k) := by
  refine (carries_refreshPendingWork _).bind fun _ => carries_theEntry.bind fun e => ?_
  refine Carries.ite (carries_pure _) ((carries_releaseRuntime _).bind fun drained => ?_)
  refine Carries.ite ?_ (carries_pure _)
  refine carries_modify_bind (fun _ => ?_) _
  exact inherits_alter fun _ => rfl

theorem carries_retireReplaced : Carries (Inherits P) (retireReplaced o identity) := by
  refine carries_get.bind fun r => ?_
  cases r.entry identity.rootKey with
  | none => exact carries_pure _
  | some e =>
      refine Carries.ite (carries_pure _) ((carries_ensure _ _).bind fun _ => ?_)
      refine carries_release.bind fun _ => (carries_ensure _ _).bind fun _ => ?_
      exact carries_modify fun r => inherits_of_subset fun e he => (Register.mem_remove.mp he).1

theorem carries_canRegister (valid : Except SelectionError Unit) (options : CheckoutOptions) :
    Carries (Inherits P) (canRegister o valid identity options) := by
  refine (carries_ensure _ _).bind fun _ => ?_
  cases valid with
  | error e => exact carries_throw _
  | ok _ =>
      refine carries_retireReplaced.bind fun _ => carries_get.bind fun r => ?_
      cases r.entry identity.rootKey with
      | none => exact carries_pure _
      | some e => exact carries_ensure _ _

theorem carries_register (options : CheckoutOptions) (hidentity : P identity) :
    Carries (Inherits P) (register o identity options) := by
  refine (carries_ensure _ _).bind fun _ => carries_retireReplaced.bind fun _ r => ?_
  rw [yields_bind, yields_get]
  cases r.entry identity.rootKey with
  | none => exact yields_set.mpr (inherits_insert hidentity)
  | some e =>
      show Yields (ensure _ _ >>= _) r _ _
      rw [yields_bind, yields_ensure]
      refine ⟨fun _ => ?_, fun _ => inherits_refl r⟩
      split
      · exact inherits_refl r
      · rw [yields_bind, yields_ensure]
        refine ⟨fun _ => ?_, fun _ => inherits_refl r⟩
        exact yields_set.mpr (inherits_alter fun _ => rfl)

theorem carries_attach {session : Option Nat} (hidentity : P identity) :
    Carries (Inherits P) (attach o session identity) := by
  refine carries_retireReplaced.bind fun _ r => ?_
  rw [yields_bind, yields_get]
  cases r.entry identity.rootKey with
  | none =>
      show Yields (ensure _ _ >>= _) r _ _
      rw [yields_bind, yields_ensure]
      refine ⟨fun _ => ?_, fun _ => inherits_refl r⟩
      rw [yields_bind, yields_ensure]
      refine ⟨fun _ => ?_, fun _ => inherits_refl r⟩
      rw [yields_bind, yields_set]
      exact inherits_insert (r := r) (e := .first session identity) hidentity
  | some e =>
      show Yields (ensure _ _ >>= _) r _ _
      rw [yields_bind, yields_ensure]
      refine ⟨fun _ => ?_, fun _ => inherits_refl r⟩
      rw [yields_bind, yields_ensure]
      refine ⟨fun _ => ?_, fun _ => inherits_refl r⟩
      rw [yields_bind, yields_ensure]
      refine ⟨fun _ => ?_, fun _ => inherits_refl r⟩
      rw [yields_bind, yields_set]
      exact inherits_alter (r := r) (f := Entry.attached session) fun _ => rfl

theorem marker_of_check {m : Membership} (h : m.check = .ok identity) :
    m.marker = some identity := by
  unfold Membership.check at h
  obtain ⟨-, h⟩ := ensure_bind_eq_ok.mp h
  obtain ⟨_, -, h⟩ := bind_eq_ok.mp h
  obtain ⟨-, h⟩ := ensure_bind_eq_ok.mp h
  obtain ⟨_, -, h⟩ := bind_eq_ok.mp h
  obtain ⟨_, -, h⟩ := bind_eq_ok.mp h
  obtain ⟨-, h⟩ := ensure_bind_eq_ok.mp h
  cases hmarker : m.marker with
  | none => rw [hmarker] at h; cases h
  | some found =>
      rw [hmarker] at h
      obtain ⟨-, h⟩ := ensure_bind_eq_ok.mp h
      obtain ⟨-, h⟩ := ensure_bind_eq_ok.mp h
      obtain ⟨_, -, h⟩ := bind_eq_ok.mp h
      obtain ⟨_, -, h⟩ := bind_eq_ok.mp h
      obtain ⟨-, h⟩ := ensure_bind_eq_ok.mp h
      obtain ⟨-, h⟩ := ensure_bind_eq_ok.mp h
      obtain ⟨_, -, h⟩ := bind_eq_ok.mp h
      cases h
      rfl

theorem carries_select {m : Membership} {session : Nat}
    (hidentity : ∀ identity, m.marker = some identity → P identity) :
    Carries (Inherits P) (select o m session) := by
  unfold select
  cases hcheck : m.check with
  | error e => exact carries_throw _
  | ok identity =>
      exact carries_attach (hidentity identity (marker_of_check hcheck))

theorem carries_browserRequestAt {now : Nat} (hidentity : P identity) :
    Carries (Inherits P) (browserRequestAt o identity now) :=
  (carries_attach hidentity).bind fun _ =>
    carries_modify_bind (fun _ => by exact inherits_alter fun _ => rfl) _

theorem carries_lookupIndexed {l : Lookup}
    (hindexed : ∀ identity, l.indexed = .ok identity → P identity) :
    Carries (Inherits P) (lookupIndexed l k) := by
  refine carries_get.bind fun r => ?_
  cases r.entry k with
  | some e => exact carries_pure _
  | none =>
      cases hl : l.indexed with
      | error e => exact carries_throw _
      | ok identity =>
          refine (carries_ensure _ _).bind fun _ => carries_modify fun _ => ?_
          exact inherits_insert (hindexed identity hl)

theorem carries_browserIdentity {l : Lookup}
    (hindexed : ∀ identity, l.indexed = .ok identity → P identity)
    (hcurrent : ∀ identity, l.current = some identity → P identity) :
    Carries (Inherits P) (browserIdentity o l k) := by
  refine (carries_ensure _ _).bind fun _ => (carries_lookupIndexed hindexed).bind fun _ => ?_
  refine carries_get.bind fun r => ?_
  cases r.entry k with
  | none => exact carries_throw _
  | some e =>
      refine Carries.ite (carries_pure _) ?_
      cases hl : l.current with
      | none => exact carries_throw _
      | some current =>
          refine (carries_ensure _ _).bind fun _ => carries_retireReplaced.bind fun _ => ?_
          refine carries_modify_bind (fun _ => ?_) _
          exact inherits_insert (hcurrent current hl)

theorem carries_activate (opens : Except String Unit) :
    Carries (Inherits P) (activate opens k) := by
  intro r
  unfold activate
  rw [yields_bind, yields_get]
  cases r.entry k with
  | none => exact inherits_refl r
  | some e =>
      show Yields (ensure _ _ >>= _) r _ _
      rw [yields_bind, yields_ensure]
      refine ⟨fun _ => ?_, fun _ => inherits_refl r⟩
      split
      · exact inherits_refl r
      · cases opens with
        | error error => exact inherits_refl r
        | ok _ => exact yields_set.mpr (inherits_of_subset fun _ h => h)

theorem carries_releaseDue (due : List String) : Carries (Inherits P) (releaseDue o due) := by
  induction due with
  | nil => exact carries_pure _
  | cons k rest ih =>
      refine carries_release.bind fun _ => Carries.ite ?_ ih
      refine Carries.bind (carries_modify fun _ => ?_) fun _ => ih.bind fun _ => carries_pure _
      exact inherits_alter fun _ => rfl

theorem carries_anyBusy (probe : String → Probe) (keys : List String) :
    Carries (Inherits P) (anyBusy probe keys) := by
  induction keys with
  | nil => exact carries_pure _
  | cons k rest ih =>
      exact (carries_refreshPendingWork probe).bind fun _ => ih.bind fun _ => carries_pure _

theorem carries_orphanPending (now : Nat) : Carries (Inherits P) (orphanPending o now) := by
  intro r
  have hscan : ∀ cache count, Inherits P r { r with
      orphanScanCache := cache, orphanScanCount := count } :=
    fun _ _ => inherits_of_subset fun _ h => h
  unfold orphanPending
  rw [yields_bind, yields_get]
  cases r.orphanScanCache with
  | none =>
      show Yields (set _ >>= _) r _ _
      rw [yields_bind, yields_set]
      exact hscan _ _
  | some cache =>
      show Yields (if now < cache.1 then pure cache.2 else _) r _ _
      split
      · exact inherits_refl r
      · rw [yields_bind, yields_set]; exact hscan _ _

theorem carries_sweep (now : Nat) : Carries (Inherits P) (sweep o now) := by
  refine carries_get.bind fun _ => (carries_releaseDue _).bind fun _ => carries_get.bind fun _ => ?_
  refine (carries_anyBusy _ _).bind fun _ => carries_get.bind fun _ => Carries.ite ?_ (carries_pure _)
  exact (carries_orphanPending now).bind fun _ => carries_pure _

theorem inherits_updateExitDeadline (now : Nat) : Inherits P r (r.updateExitDeadline now) := by
  refine inherits_of_subset fun e he => ?_
  unfold Registry.updateExitDeadline at he
  split at he
  · exact he
  · split at he
    · exact he
    · exact he

theorem Entry.expire_identity (now : Nat) (e : Entry) : (e.expire now).identity = e.identity := by
  unfold Entry.expire
  split
  · rfl
  · rfl

theorem Entry.leave_identity (session now : Nat) (e : Entry) :
    (e.leave session now).identity = e.identity := by
  unfold Entry.leave
  split
  · rfl
  · rfl

theorem inherits_expireBrowsers (now : Nat) : Inherits P r (r.expireBrowsers now) :=
  inherits_map (Entry.expire_identity now) rfl

theorem inherits_disconnectAt (session now : Nat) : Inherits P r (r.disconnectAt session now) := by
  have hgone : ∀ r : Registry, Inherits P r
      (if r.entries.any (fun e => session ∈ e.sessions) then
        let r := { r with entries := r.entries.map (Entry.leave session now) }
        if r.Attended then r.updateExitDeadline now
        else { r with idleExitAt := some (now + daemonIdleDelay) }
      else r) := by
    intro r
    split
    · refine IsTrans.trans _ { r with entries := r.entries.map (Entry.leave session now) } _
        (inherits_map (Entry.leave_identity session now) rfl) ?_
      show Inherits P _ (if _ then _ else _)
      split
      · exact inherits_updateExitDeadline now
      · exact inherits_of_subset fun _ h => h
    · exact inherits_refl r
  refine IsTrans.trans _ _ _ ?_ (hgone _)
  cases lastExpired now r.entries with
  | none => exact inherits_expireBrowsers now
  | some last =>
      exact IsTrans.trans _ (r.expireBrowsers now) _ (inherits_expireBrowsers now)
        (inherits_updateExitDeadline last)

end Inherits

def Operation.Given (P : Identity → Prop) : Operation → Prop
  | attachLaunch _ _ identity | browserRequest _ identity | register _ identity _ => P identity
  | select _ m _ => ∀ identity, m.marker = some identity → P identity
  | browserIdentity _ l _ =>
      (∀ identity, l.indexed = .ok identity → P identity) ∧
        ∀ identity, l.current = some identity → P identity
  | _ => True

/-- **No operation makes an identity up.** -/
theorem Operation.inherits {P : Identity → Prop} {op : Operation} (h : op.Given P) (now : Nat)
    (r : Registry) : Inherits P r (op.perform now r) := by
  cases op with
  | attachLaunch o session launch =>
      exact Carries.final ((carries_ensure _ _).bind fun _ => carries_attach h) r
  | select o m session => exact (carries_select h).final r
  | browserRequest o identity => exact (carries_browserRequestAt h).final r
  | disconnect session => exact inherits_disconnectAt session now
  | setPendingWork k pending => exact (carries_setPendingWork pending).final r
  | refreshPendingWork probe k => exact (carries_refreshPendingWork probe).final r
  | release o k => exact carries_release.final r
  | retireReplaced o identity => exact carries_retireReplaced.final r
  | canRegister o valid identity options => exact (carries_canRegister valid options).final r
  | register o identity options => exact (carries_register options h).final r
  | browserIdentity o l k => exact (carries_browserIdentity h.1 h.2).final r
  | activate opens k => exact (carries_activate opens).final r
  | advance o =>
      have hticked : Inherits P r (r.ticked now) :=
        IsTrans.trans _ (r.expireBrowsers now) _ (inherits_expireBrowsers now)
          (inherits_updateExitDeadline _)
      exact IsTrans.trans _ _ _ hticked ((carries_sweep now).final _)

/-! ### Roots -/

/-- An identity as it is discovered: its key is the digest of its root. -/
def Identity.Discovered (keyOf : String → String) (identity : Identity) : Prop :=
  identity.rootKey = keyOf identity.root

/-- A registry of discovered identities: a key has one entry, and the key of every entry is that
of its root. -/
structure Registry.Rooted (keyOf : String → String) (r : Registry) : Prop where
  keyed : Keyed Entry.key r.entries
  discovered : ∀ e ∈ r.entries, e.identity.Discovered keyOf

/-- A step that hands over discovered identities only. -/
inductive RootedStep (keyOf : String → String) (r : Registry) : Registry → Prop
  | perform (now : Nat) (op : Operation) (given : op.Given (Identity.Discovered keyOf)) :
      RootedStep keyOf r (op.perform now r)
  | reorder {entries : List Entry} (perm : entries.Perm r.entries) :
      RootedStep keyOf r { r with entries := entries }

section Rooted

variable {keyOf : String → String} {r r' : Registry}

theorem Registry.Rooted.inherit (h : r.Rooted keyOf) (hkeyed : Keyed Entry.key r'.entries)
    (hr : Inherits (Identity.Discovered keyOf) r r') : r'.Rooted keyOf := by
  refine ⟨hkeyed, fun e' he' => ?_⟩
  rcases hr e' he' with hnew | ⟨e, he, hsame⟩
  · exact hnew
  · rw [← hsame]; exact h.discovered e he

/-- **A root has one entry.** -/
theorem Registry.Rooted.eq_of_root (h : r.Rooted keyOf) {e e' : Entry} (he : e ∈ r.entries)
    (he' : e' ∈ r.entries) (hroot : e.identity.root = e'.identity.root) : e = e' := by
  refine h.keyed.eq_of_key he he' ?_
  show e.identity.rootKey = e'.identity.rootKey
  rw [h.discovered e he, h.discovered e' he', hroot]

/-- **The registries there are**: after a run that starts empty and is only handed discovered
identities a root has one entry, and a runtime is that of an entry which is not released. -/
theorem rooted_of_run {t : Nat} (hrun : ReflTransGen (RootedStep keyOf) (.startingAt t) r) :
    Wired r ∧ r.Rooted keyOf ∧
      ∀ e ∈ r.entries, ∀ e' ∈ r.entries, e.identity.root = e'.identity.root → e = e' := by
  have hkept : Wired r ∧ r.Rooted keyOf := by
    refine Runs.keeps_run (I := fun r => Wired r ∧ r.Rooted keyOf) ?_ hrun
      ⟨wired_startingAt t, Table.keyed_nil _, fun _ he => absurd he List.not_mem_nil⟩
    rintro r _ (⟨now, op, hgiven⟩ | ⟨hperm⟩) ⟨hwired, hrooted⟩
    · have hwired' := (op.fits hwired now).1
      exact ⟨hwired', hrooted.inherit hwired'.keyed (Operation.inherits hgiven now r)⟩
    · have hwired' := (Fits.of_move hwired (.reordered hperm)).wired
      exact ⟨hwired', hwired'.keyed, fun e he => hrooted.discovered e (hperm.mem_iff.mp he)⟩
  exact ⟨hkept.1, hkept.2, fun _ he _ he' => hkept.2.eq_of_root he he'⟩

/-- A launch by a session in a root, by the inode it has then. -/
def launch (session : Nat) (root : String) (inode : Nat) : Operation :=
  .attachLaunch ⟨true, true, some ⟨root, root, "id", 1, inode⟩, fun _ => .reads false,
    fun _ => .drained, fun _ => .reads false, false⟩ session ⟨root, root, "id", 1, inode⟩

/-- Two roots, one of which is made anew after its session has gone. -/
def relaunched : Registry :=
  [(0, launch 1 "/w" 10), (0, launch 2 "/v" 20), (5, .disconnect 1), (9, launch 3 "/w" 11)].foldl
    (fun r step => step.2.perform step.1 r) (.startingAt 0)

theorem rooted_of_run_launch :
    relaunched.entries.map (fun e => (e.identity.root, e.identity.inode)) = [("/v", 20), ("/w", 11)] ∧
      relaunched.Rooted id := by
  have hrun : ReflTransGen (RootedStep id) (.startingAt 0) relaunched := by
    have hfirst := ReflTransGen.single
      (@RootedStep.perform id (.startingAt 0) 0 (launch 1 "/w" 10) rfl)
    have hboth := hfirst.tail (.perform 0 (launch 2 "/v" 20) rfl)
    have hanew := (hboth.tail (.perform 5 (.disconnect 1) trivial)).tail
      (.perform 9 (launch 3 "/w" 11) rfl)
    unfold relaunched
    simpa only [List.foldl_cons, List.foldl_nil] using hanew
  exact ⟨by decide +kernel, (rooted_of_run hrun).2.1⟩

end Rooted

/-! ### The look ahead -/

def Refused (identity : Identity) (options : CheckoutOptions) (r : Registry) : Prop :=
  ∃ e, r.entry identity.rootKey = some e ∧ e.registration ≠ some options ∧
    (e.registration ≠ none ∨ identity.rootKey ∈ r.runtimes) ∧
    (e.released = false ∨ e.pendingWork = true ∨ e.sessions ≠ ∅)

section Preflight

variable {r r' r₁ : Registry} {o : Outside} {identity : Identity} {options : CheckoutOptions}
  {valid : Except SelectionError Unit}

/-- **What the look ahead says**, in the order it looks. -/
theorem yields_canRegister :
    Yields (canRegister o valid identity options) r
      (fun _ r₁ => o.verified = true ∧ retireReplaced o identity r = .ok () r₁ ∧
        ¬ Refused identity options r₁)
      fun error r₁ => (o.verified = false ∧ error = .identityChanged ∧ r₁ = r) ∨
        (valid = .error error ∧ r₁ = r) ∨
        (o.verified = true ∧ retireReplaced o identity r = .error error r₁) ∨
        (o.verified = true ∧ retireReplaced o identity r = .ok () r₁ ∧
          error = .registrationConflict ∧ Refused identity options r₁) := by
  unfold canRegister
  rw [yields_bind, yields_ensure]
  refine ⟨fun hverified => ?_, fun hverified => .inl ⟨Bool.eq_false_iff.mpr hverified, rfl, rfl⟩⟩
  cases valid with
  | error error => exact .inr (.inl ⟨rfl, rfl⟩)
  | ok _ =>
      show Yields (retireReplaced o identity >>= _) r _ _
      rw [yields_bind]
      unfold Yields
      cases hretire : retireReplaced o identity r with
      | error error r₁ => exact .inr (.inr (.inl ⟨hverified, rfl⟩))
      | ok _ r₁ =>
          show Yields (_ >>= _) r₁ _ _
          rw [yields_bind, yields_get]
          cases hentry : r₁.entry identity.rootKey with
          | none =>
              refine ⟨hverified, rfl, ?_⟩
              rintro ⟨e, he, -⟩
              rw [hentry] at he
              cases he
          | some e =>
              show Yields (ensure _ _) r₁ _ _
              rw [yields_ensure]
              constructor
              · intro hfree
                refine ⟨hverified, rfl, ?_⟩
                rintro ⟨e', he', hrefused⟩
                rw [hentry] at he'
                cases he'
                exact hfree hrefused
              · intro hrefused
                exact .inr (.inr (.inr ⟨hverified, rfl, rfl, e, hentry, not_not.mp hrefused⟩))

/-- After a replacement that returned, the entry of the root is its identity's. -/
theorem same_of_retired (hkeyed : Keyed Entry.key r.entries)
    (h : retireReplaced o identity r = .ok () r₁) {e : Entry}
    (he : r₁.entry identity.rootKey = some e) : e.identity = identity := by
  rcases (yields_retireReplaced hkeyed).of_ok h with ⟨rfl, hsame⟩ | ⟨rfl, -⟩
  · exact hsame e he
  · have hgone : (r.without identity.rootKey).entry identity.rootKey = none :=
      Register.get_eq_none.mpr fun a ha => (Register.mem_remove.mp ha).2
    rw [hgone] at he
    cases he

theorem retireReplaced_of_same
    (h : ∀ e, r.entry identity.rootKey = some e → e.identity = identity) :
    retireReplaced o identity r = .ok () r := by
  refine Yields.returns ?_
  unfold retireReplaced
  rw [yields_bind, yields_get]
  cases hentry : r.entry identity.rootKey with
  | none => exact rfl
  | some e =>
      show Yields (if e.identity = identity then pure () else _) r _ _
      rw [if_pos (h e hentry)]
      exact rfl

inductive Enrolled (identity : Identity) (options : CheckoutOptions) (r : Registry) :
    Registry → Prop
  | again {e : Entry} (entry : r.entry identity.rootKey = some e) (same : e.identity = identity)
      (registration : e.registration = some options) : Enrolled identity options r r
  | replaced {e : Entry} (entry : r.entry identity.rootKey = some e)
      (same : e.identity = identity) : Enrolled identity options r
        (r.alter identity.rootKey fun e => { e with registration := some options })
  | first (entry : r.entry identity.rootKey = none) :
      Enrolled identity options r (r.insert (.inert identity (some options)))

/-- **A registration that is not refused.** -/
theorem register_of_free (hverified : o.verified = true)
    (hsame : ∀ e, r.entry identity.rootKey = some e → e.identity = identity)
    (hfree : ¬ Refused identity options r) :
    ∃ r', register o identity options r = .ok () r' ∧ Enrolled identity options r r' := by
  have hyields : Yields (register o identity options) r
      (fun _ r' => Enrolled identity options r r') fun _ _ => False := by
    unfold register
    rw [yields_bind, yields_ensure]
    refine ⟨fun _ => ?_, fun h => h hverified⟩
    rw [yields_bind]
    refine .of_eq_ok (retireReplaced_of_same hsame) ?_
    rw [yields_bind, yields_get]
    cases hentry : r.entry identity.rootKey with
    | none => exact yields_set.mpr (.first hentry)
    | some e =>
        show Yields (ensure _ _ >>= _) r _ _
        rw [yields_bind, yields_ensure]
        refine ⟨fun _ => ?_, fun h => h (hsame e hentry)⟩
        split
        · rename_i hagain
          exact .again hentry (hsame e hentry) hagain
        · rename_i hother
          rw [yields_bind, yields_ensure]
          refine ⟨fun _ => yields_set.mpr (.replaced hentry (hsame e hentry)), fun h => ?_⟩
          exact hfree ⟨e, hentry, hother, not_not.mp h⟩
  obtain ⟨_, r', hok, henrolled⟩ := hyields.exists_ok
  exact ⟨r', hok, henrolled⟩

/-- **A registration refuses what the look ahead refuses**, and leaves the same behind. -/
theorem register_of_canRegister_error (hkeyed : Keyed Entry.key r.entries) {error : SelectionError}
    (h : canRegister o (.ok ()) identity options r = .error error r₁) :
    register o identity options r = .error error r₁ := by
  refine Yields.raises ?_
  unfold register
  rw [yields_bind, yields_ensure]
  rcases yields_canRegister.of_error h with
    ⟨hverified, rfl, rfl⟩ | ⟨hvalid, -⟩ | ⟨hverified, hretire⟩ | ⟨hverified, hretire, rfl, hrefused⟩
  · exact ⟨fun h => absurd (hverified.symm.trans h) Bool.false_ne_true, fun _ => ⟨rfl, rfl⟩⟩
  · cases hvalid
  · refine ⟨fun _ => ?_, fun h => absurd hverified h⟩
    rw [yields_bind]
    unfold Yields
    rw [hretire]
    exact ⟨rfl, rfl⟩
  · refine ⟨fun _ => ?_, fun h => absurd hverified h⟩
    rw [yields_bind]
    refine .of_eq_ok hretire ?_
    obtain ⟨e, hentry, hother, hbusy⟩ := hrefused
    rw [yields_bind, yields_get, hentry]
    show Yields (ensure _ _ >>= _) r₁ _ _
    rw [yields_bind, yields_ensure]
    refine ⟨fun _ => ?_, fun hne => absurd (same_of_retired hkeyed hretire hentry) hne⟩
    rw [if_neg hother, yields_bind, yields_ensure]
    exact ⟨fun hfree => absurd hbusy hfree, fun _ => ⟨rfl, rfl⟩⟩

/-! ### What is left of the other checkouts -/

theorem Enrolled.entry (h : Enrolled identity options r r') :
    ∃ e, r'.entry identity.rootKey = some e ∧ e.identity = identity ∧
      e.registration = some options := by
  cases h with
  | again hentry hsame hregistration => exact ⟨_, hentry, hsame, hregistration⟩
  | @replaced e hentry hsame =>
      exact ⟨{ e with registration := some options },
        Register.get_alter (f := fun e : Entry => { e with registration := some options })
          (fun _ => rfl) hentry, hsame, rfl⟩
  | first =>
      exact ⟨.inert identity (some options),
        Register.get_put_self (a := Entry.inert identity (some options)), rfl, rfl⟩

theorem Enrolled.others (h : Enrolled identity options r r') :
    r'.runtimes = r.runtimes ∧ ∀ k ≠ identity.rootKey, r'.entry k = r.entry k := by
  cases h with
  | again => exact ⟨rfl, fun _ _ => rfl⟩
  | replaced =>
      exact ⟨rfl, fun k hk => Register.get_alter_of_ne
        (f := fun e : Entry => { e with registration := some options }) (fun _ => rfl) hk⟩
  | first =>
      exact ⟨rfl, fun k hk =>
        Register.get_put_of_ne (a := Entry.inert identity (some options)) hk⟩

theorem Enrolled.keyed (h : Enrolled identity options r r') (hkeyed : Keyed Entry.key r.entries) :
    Keyed Entry.key r'.entries := by
  cases h with
  | again => exact hkeyed
  | replaced => exact Register.keyed_alter hkeyed fun _ => rfl
  | first => exact Register.keyed_put hkeyed

theorem Enrolled.inherits {P : Identity → Prop} (h : Enrolled identity options r r')
    (hidentity : P identity) : Inherits P r r' := by
  cases h with
  | again => exact inherits_refl r
  | replaced => exact inherits_alter fun _ => rfl
  | first => exact inherits_insert hidentity

theorem others_of_retired (hkeyed : Keyed Entry.key r.entries)
    (h : retireReplaced o identity r = .ok () r₁) {k : String} (hk : k ≠ identity.rootKey) :
    r₁.entry k = r.entry k ∧ (k ∈ r₁.runtimes ↔ k ∈ r.runtimes) := by
  rcases (yields_retireReplaced hkeyed).of_ok h with ⟨rfl, -⟩ | ⟨rfl, -⟩
  · exact ⟨rfl, Iff.rfl⟩
  · refine ⟨Register.get_remove_of_ne hk, ?_⟩
    show k ∈ r.runtimes.erase identity.rootKey ↔ _
    rw [Finset.mem_erase]
    exact ⟨fun hmem => hmem.2, fun hmem => ⟨hk, hmem⟩⟩

end Preflight

/-- **The look ahead is exact.**  After one that returned, a registration of the same identity and
options over the same file system returns too: the registry then has one entry for every key and
one for every root, the entry of the root that asked has its identity and the options, and the
other checkouts are as they were.  One that raised, of options that are well formed, raises what
the registration would. -/
theorem canRegister_exact {keyOf : String → String} {r : Registry} {o o' : Outside}
    {valid : Except SelectionError Unit} {identity : Identity} {options : CheckoutOptions}
    (hrooted : r.Rooted keyOf) (hidentity : identity.Discovered keyOf)
    (hview : o'.verified = o.verified) :
    (∀ r₁, canRegister o valid identity options r = .ok () r₁ →
      ∃ r₂, register o' identity options r₁ = .ok () r₂ ∧
        (∀ e ∈ r₂.entries, (∃! e', e' ∈ r₂.entries ∧ e'.identity.root = e.identity.root) ∧
          ∃! e', e' ∈ r₂.entries ∧ e'.key = e.key) ∧
        (∃ e, r₂.entry identity.rootKey = some e ∧ e.identity = identity ∧
          e.registration = some options) ∧
        ∀ k ≠ identity.rootKey, r₂.entry k = r.entry k ∧ (k ∈ r₂.runtimes ↔ k ∈ r.runtimes)) ∧
      ∀ error r₁, canRegister o (.ok ()) identity options r = .error error r₁ →
        register o identity options r = .error error r₁ := by
  refine ⟨fun r₁ h => ?_, fun error r₁ h => register_of_canRegister_error hrooted.keyed h⟩
  obtain ⟨hverified, hretire, hfree⟩ := yields_canRegister.of_ok h
  have hkeyed₁ : Keyed Entry.key r₁.entries :=
    keyed_of_moves ((moves_canRegister valid options r hrooted.keyed).of_ok h) hrooted.keyed
  have hrooted₁ : r₁.Rooted keyOf :=
    hrooted.inherit hkeyed₁ ((carries_canRegister valid options r).of_ok h)
  obtain ⟨r₂, hregister, henrolled⟩ := register_of_free (hview.trans hverified)
    (fun e he => same_of_retired hrooted.keyed hretire he) hfree
  have hrooted₂ : r₂.Rooted keyOf :=
    hrooted₁.inherit (henrolled.keyed hkeyed₁) (henrolled.inherits hidentity)
  refine ⟨r₂, hregister, fun e he => ⟨⟨e, ⟨he, rfl⟩, ?_⟩, ⟨e, ⟨he, rfl⟩, ?_⟩⟩, henrolled.entry,
    fun k hk => ?_⟩
  · rintro e' ⟨he', hroot⟩
    exact hrooted₂.eq_of_root he' he hroot
  · rintro e' ⟨he', hkey⟩
    exact hrooted₂.keyed.eq_of_key he' he hkey
  · obtain ⟨hentry, hruntime⟩ := others_of_retired hrooted.keyed hretire hk
    obtain ⟨hruntimes, hothers⟩ := henrolled.others
    exact ⟨(hothers k hk).trans hentry, by rw [hruntimes, hruntime]⟩

/-- A checkout that was made anew at its root, and the options it registers. -/
theorem canRegister_exact_replaced :
    let old : Identity := ⟨"/w", "/w", "old", 1, 1⟩
    let new : Identity := ⟨"/w", "/w", "new", 1, 2⟩
    let o : Outside :=
      ⟨true, true, some new, fun _ => .reads false, fun _ => .drained, fun _ => .reads false, false⟩
    let r : Registry := ⟨[.inert old none], ∅, none, none, 0⟩
    ∃ r₂, register o new ⟨"{}"⟩ (final (canRegister o (.ok ()) new ⟨"{}"⟩) r) = .ok () r₂ ∧
      ∃ e, r₂.entry "/w" = some e ∧ e.identity = new ∧ e.registration = some ⟨"{}"⟩ := by
  intro old new o r
  have hrooted : r.Rooted fun root => root := by
    refine ⟨List.nodup_singleton _, fun e he => ?_⟩
    rw [List.mem_singleton.mp he]
    rfl
  have hnew : new.Discovered fun root => root := rfl
  have hview : o.verified = o.verified := rfl
  have hlook : canRegister o (.ok ()) new ⟨"{}"⟩ r = .ok () ⟨[], ∅, none, none, 0⟩ := rfl
  obtain ⟨r₂, hregister, -, hentry, -⟩ :=
    (canRegister_exact hrooted hnew hview).1 _ hlook
  refine ⟨r₂, ?_, hentry⟩
  have hfinal : final (canRegister o (.ok ()) new ⟨"{}"⟩) r = ⟨[], ∅, none, none, 0⟩ := by
    unfold final
    rw [hlook]
  rw [hfinal]
  exact hregister

end Baleyg.Daemon
