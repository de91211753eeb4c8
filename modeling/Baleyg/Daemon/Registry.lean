/-
The checkout registry of the daemon.

A checkout is known under the key of its root.  Its entry says which sessions are
attached to it, until when a browser counts as its client, when it is due to be
released, and whether it was; its runtime, when it has one, holds the index.  An entry
counts as active while it is not released or has pending work, and an attachment that
would make it one too many is refused.

Every operation takes the registry's lock, so a run is a sequence of operations.  What
they read outside the registry is an argument: the file system through `Outside` and
`Membership`, and a runtime through what its probe says.  An operation that raises
leaves the registry as it had made it by then, which is what `EStateM` keeps.
-/
import Mathlib.Data.Finset.Basic
import Baleyg.Lib.Fallible
import Baleyg.Lib.Register

namespace Baleyg.Daemon

open Fallible (ensure)

def seconds (n : Nat) : Nat := n * 1000000000

def maxActiveCheckouts : Nat := 64
def browserIdleDelay : Nat := seconds (15 * 60)
def checkoutReleaseDelay : Nat := seconds (15 * 60)
def daemonIdleDelay : Nat := seconds (30 * 60)

inductive SelectionError where
  | notAbsolute
  | notCheckout
  | differentRepository
  | identityChanged
  | unavailable
  | checkoutCapacity
  | registrationConflict
  deriving DecidableEq, Repr

/-- What an entry keeps of a `WorkspaceIdentity`. -/
structure Identity where
  root : String
  rootKey : String
  recordId : String
  device : Nat
  inode : Nat
  deriving DecidableEq, Repr

/-- Options are data; two are the same when their JSON is. -/
structure CheckoutOptions where
  json : String
  deriving DecidableEq, Repr

structure Entry where
  identity : Identity
  registration : Option CheckoutOptions
  sessions : Finset Nat
  released : Bool
  pendingWork : Bool
  externalWork : Bool
  browserUntil : Option Nat
  releaseAt : Option Nat
  deriving DecidableEq

namespace Entry

def key (e : Entry) : String := e.identity.rootKey

def Idle (e : Entry) : Prop := e.sessions = ∅ ∧ e.browserUntil = none

instance (e : Entry) : Decidable e.Idle := inferInstanceAs (Decidable (_ ∧ _))

/-- `entry.released || ...` as `active_count` has it. -/
def counted (e : Entry) : Bool := !e.released || e.pendingWork

end Entry

/-- An entry as `register` and `register_discovered` make it. -/
def Entry.inert (identity : Identity) (registration : Option CheckoutOptions) : Entry :=
  ⟨identity, registration, ∅, true, false, false, none, none⟩

/-- What is found of a runtime when its pending work is looked up. -/
inductive Probe where
  | unavailable
  | reads (pending : Bool)
  deriving DecidableEq, Repr

/-- How far `release_runtime` gets with a runtime. -/
inductive Drain where
  | unavailable
  | busy
  | drained
  deriving DecidableEq, Repr

structure Outside where
  /-- `verify_readonly` and `verified_clone` of the identity at hand. -/
  verified : Bool
  cloned : Bool
  /-- The identity found at the root it names. -/
  found : Option Identity
  probe : String → Probe
  drain : String → Drain
  /-- The second look of `advance` at a runtime. -/
  again : String → Probe
  /-- Some queue of a checkout without a runtime is not empty. -/
  orphans : Bool

structure Registry where
  entries : List Entry
  runtimes : Finset String
  idleExitAt : Option Nat
  orphanScanCache : Option (Nat × Bool)
  orphanScanCount : Nat

structure LifecycleTick where
  released : List String
  exit : Bool
  deriving DecidableEq, Repr

abbrev Action := EStateM SelectionError Registry

namespace Registry

def startingAt (now : Nat) : Registry := ⟨[], ∅, some (now + daemonIdleDelay), none, 0⟩

def entry (r : Registry) (k : String) : Option Entry := Register.get Entry.key k r.entries

def alter (r : Registry) (k : String) (f : Entry → Entry) : Registry :=
  { r with entries := Register.alter Entry.key k f r.entries }

/-- `entries.insert`. -/
def insert (r : Registry) (e : Entry) : Registry :=
  { r with entries := Register.put Entry.key e r.entries }

def activeCount (r : Registry) : Nat := r.entries.countP Entry.counted

def Attended (r : Registry) : Prop := ∃ e ∈ r.entries, ¬ e.Idle

instance (r : Registry) : Decidable r.Attended := inferInstanceAs (Decidable (∃ e ∈ _, ¬ _))

def updateExitDeadline (now : Nat) (r : Registry) : Registry :=
  if r.Attended then { r with idleExitAt := none }
  else if r.idleExitAt = none then { r with idleExitAt := some (now + daemonIdleDelay) }
  else r

end Registry

/-! ### Pending work and release -/

def theEntry (k : String) : Action Entry := do
  let r ← get
  match r.entry k with
  | none => throw .unavailable
  | some e => pure e

def setPendingWork (k : String) (pending : Bool) : Action Unit := do
  let _ ← theEntry k
  modify fun r => r.alter k fun e => { e with externalWork := pending, pendingWork := pending }

/-- Only a checkout with a runtime is probed, and not one that was marked busy. -/
def refreshPendingWork (probe : String → Probe) (k : String) : Action Bool := do
  let e ← theEntry k
  let r ← get
  if e.externalWork then
    modify fun r => r.alter k fun e => { e with pendingWork := true }
    pure true
  else if k ∈ r.runtimes then
    match probe k with
    | .unavailable => throw .unavailable
    | .reads pending =>
        modify fun r => r.alter k fun e => { e with pendingWork := pending }
        pure pending
  else pure e.pendingWork

def releaseRuntime (drain : String → Drain) (k : String) : Action Bool := do
  let r ← get
  if k ∈ r.runtimes then
    match drain k with
    | .unavailable => throw .unavailable
    | .busy => pure false
    | .drained =>
        modify fun r => { r with runtimes := r.runtimes.erase k }
        pure true
  else pure true

def release (o : Outside) (k : String) : Action Bool := do
  let _ ← refreshPendingWork o.probe k
  let e ← theEntry k
  if e.sessions ≠ ∅ ∨ e.browserUntil ≠ none ∨ e.pendingWork = true then pure false
  else
    let drained ← releaseRuntime o.drain k
    if drained = true then
      modify fun r => r.alter k fun e => { e with released := true }
      pure true
    else pure false

/-! ### Replacement -/

def canRetireReplaced (o : Outside) (identity : Identity) (r : Registry) : Bool :=
  match r.entry identity.rootKey with
  | none => true
  | some e =>
      if e.identity = identity then true
      else if ¬ e.Idle ∨ e.pendingWork = true ∨ e.externalWork = true then false
      else
        match o.found with
        | none => false
        | some found =>
            e.identity ≠ found ∧ found.recordId = identity.recordId ∧
              (found.device, found.inode) = (identity.device, identity.inode)

/-- An entry of another identity at the same root is released and taken out. -/
def retireReplaced (o : Outside) (identity : Identity) : Action Unit := do
  let r ← get
  match r.entry identity.rootKey with
  | none => pure ()
  | some e =>
      if e.identity = identity then pure ()
      else
        ensure (canRetireReplaced o identity r = true) SelectionError.identityChanged
        let retired ← release o identity.rootKey
        ensure (retired = true) SelectionError.identityChanged
        modify fun r => { r with entries := Register.remove Entry.key identity.rootKey r.entries }

/-! ### Clients -/

/-- An entry that has a client, of whichever kind, is not due. -/
def Entry.attached (session : Option Nat) (e : Entry) : Entry :=
  { e with
    sessions := match session with
      | some s => insert s e.sessions
      | none => e.sessions
    releaseAt := none
    released := false }

def Entry.first (session : Option Nat) (identity : Identity) : Entry :=
  ⟨identity, none, session.elim ∅ fun s => {s}, false, false, false, none, none⟩

def attach (o : Outside) (session : Option Nat) (identity : Identity) : Action Identity := do
  retireReplaced o identity
  let r ← get
  match r.entry identity.rootKey with
  | some e =>
      ensure (e.identity = identity) SelectionError.identityChanged
      ensure (¬ (e.released = true ∧ maxActiveCheckouts ≤ r.activeCount)) SelectionError.checkoutCapacity
      ensure (o.cloned = true) SelectionError.identityChanged
      set { r.alter identity.rootKey (Entry.attached session) with idleExitAt := none }
      pure identity
  | none =>
      ensure (¬ maxActiveCheckouts ≤ r.activeCount) SelectionError.checkoutCapacity
      ensure (o.cloned = true) SelectionError.identityChanged
      set { r.insert (Entry.first session identity) with idleExitAt := none }
      pure identity

def attachLaunch (o : Outside) (session : Nat) (launch : Identity) : Action Identity := do
  ensure (o.verified = true) SelectionError.identityChanged
  attach o (some session) launch

/-- What `select` reads of the two checkouts before it attaches, in the order it does. -/
structure Membership where
  launch : Bool
  root : Except SelectionError Unit
  discovered : Bool
  launchCommon : Except SelectionError (Nat × Nat)
  selectedCommon : Except SelectionError (Nat × Nat)
  marker : Option Identity
  launchAgain : Bool
  selectedAgain : Bool
  launchCommonAgain : Except SelectionError (Nat × Nat)
  selectedCommonAgain : Except SelectionError (Nat × Nat)
  clones : Bool
  beforeAnswer : Except SelectionError Unit

/-- The membership checks; none of them touches the registry. -/
def Membership.check (m : Membership) : Except SelectionError Identity := do
  ensure (m.launch = true) SelectionError.identityChanged
  m.root
  ensure (m.discovered = true) SelectionError.unavailable
  let launchCommon ← m.launchCommon
  let selectedCommon ← m.selectedCommon
  ensure (launchCommon = selectedCommon) SelectionError.differentRepository
  match m.marker with
  | none => throw .unavailable
  | some identity =>
      ensure (m.launchAgain = true) SelectionError.identityChanged
      ensure (m.selectedAgain = true) SelectionError.identityChanged
      let launchAgain ← m.launchCommonAgain
      let selectedAgain ← m.selectedCommonAgain
      ensure (launchAgain = launchCommon ∧ selectedAgain = selectedCommon) SelectionError.identityChanged
      ensure (m.clones = true) SelectionError.identityChanged
      m.beforeAnswer
      pure identity

def select (o : Outside) (m : Membership) (session : Nat) : Action Identity :=
  match m.check with
  | .error e => throw e
  | .ok identity => attach o (some session) identity

def browserRequestAt (o : Outside) (identity : Identity) (now : Nat) : Action Identity := do
  let attached ← attach o none identity
  modify fun r =>
    { r.alter identity.rootKey fun e =>
        { e with browserUntil := some (now + browserIdleDelay), releaseAt := none } with
      idleExitAt := none }
  pure attached

/-! ### Registration and activation -/

def canRegister (o : Outside) (valid : Except SelectionError Unit) (identity : Identity)
    (options : CheckoutOptions) : Action Unit := do
  ensure (o.verified = true) SelectionError.identityChanged
  match valid with
  | .error e => throw e
  | .ok _ => pure ()
  retireReplaced o identity
  let r ← get
  match r.entry identity.rootKey with
  | none => pure ()
  | some e =>
      ensure (¬ (e.registration ≠ some options ∧
        (e.registration ≠ none ∨ identity.rootKey ∈ r.runtimes) ∧
        (e.released = false ∨ e.pendingWork = true ∨ e.sessions ≠ ∅))) SelectionError.registrationConflict

def register (o : Outside) (identity : Identity) (options : CheckoutOptions) : Action Unit := do
  ensure (o.verified = true) SelectionError.identityChanged
  retireReplaced o identity
  let r ← get
  match r.entry identity.rootKey with
  | some e =>
      ensure (e.identity = identity) SelectionError.identityChanged
      if e.registration = some options then pure ()
      else
        ensure (¬ ((e.registration ≠ none ∨ identity.rootKey ∈ r.runtimes) ∧
          (e.released = false ∨ e.pendingWork = true ∨ e.sessions ≠ ∅))) SelectionError.registrationConflict
        set (r.alter identity.rootKey fun e => { e with registration := some options })
  | none => set (r.insert (.inert identity (some options)))

/-- What `browser_identity` reads of the root of a key. -/
structure Lookup where
  /-- The key is 64 lower-case hexadecimal digits. -/
  wellFormed : Bool
  /-- The identity at the root an index of that key is for, if the key is not known. -/
  indexed : Except SelectionError Identity
  rediscovered : Bool
  current : Option Identity

def registerDiscovered (identity : Identity) : Action Unit :=
  modify fun r => r.insert (.inert identity none)

/-- An unknown key is looked up in its index. -/
def lookupIndexed (l : Lookup) (k : String) : Action Unit := do
  let r ← get
  match r.entry k with
  | some _ => pure ()
  | none =>
      match l.indexed with
      | .error e => throw e
      | .ok identity =>
          ensure (identity.rootKey = k) SelectionError.identityChanged
          registerDiscovered identity

def browserIdentity (o : Outside) (l : Lookup) (k : String) : Action Identity := do
  ensure (l.wellFormed = true) SelectionError.notCheckout
  lookupIndexed l k
  let r ← get
  match r.entry k with
  | none => throw .notCheckout
  | some e =>
      if l.rediscovered = true then pure e.identity
      else
        match l.current with
        | none => throw .identityChanged
        | some current =>
            ensure (current.rootKey = k ∧ e.identity ≠ current) SelectionError.identityChanged
            retireReplaced o current
            registerDiscovered current
            pure current

/-- A runtime is made for a checkout that has a client, unless opening its index fails. -/
def activate (opens : Except String Unit) (k : String) : EStateM String Registry Unit := do
  let r ← get
  match r.entry k with
  | none => throw "checkout not attached"
  | some e =>
      ensure (e.released = false ∧ ¬ e.Idle) "checkout not attached"
      if k ∈ r.runtimes then pure ()
      else
        match opens with
        | .error error => throw error
        | .ok _ => set { r with runtimes := insert k r.runtimes }

/-! ### Clocks -/

def Entry.expired (now : Nat) (e : Entry) : Option Nat :=
  match e.browserUntil with
  | some till => if till ≤ now then some till else none
  | none => none

def Entry.expire (now : Nat) (e : Entry) : Entry :=
  match e.expired now with
  | none => e
  | some till =>
      { e with
        browserUntil := none
        releaseAt := if e.sessions = ∅ then some (till + checkoutReleaseDelay) else e.releaseAt }

/-- An expiry that leaves a checkout without a client, if it is the last one so far. -/
def laterExpired (now : Nat) (last : Option Nat) (e : Entry) : Option Nat :=
  match e.expired now with
  | none => last
  | some till =>
      if e.sessions = ∅ then some (last.elim till fun previous => max previous till) else last

/-- What `expire_browsers` returns. -/
def lastExpired (now : Nat) (entries : List Entry) : Option Nat :=
  entries.foldl (laterExpired now) none

/-- `expire_browsers`, without what it returns. -/
def Registry.expireBrowsers (now : Nat) (r : Registry) : Registry :=
  { r with entries := r.entries.map (Entry.expire now) }

def Entry.leave (session now : Nat) (e : Entry) : Entry :=
  if session ∈ e.sessions then
    { e with
      sessions := e.sessions.erase session
      releaseAt := if e.sessions.erase session = ∅ ∧ e.browserUntil = none then
          some (now + checkoutReleaseDelay)
        else e.releaseAt }
  else e

def Registry.disconnectAt (session now : Nat) (r : Registry) : Registry :=
  let expired := r.expireBrowsers now
  let r := match lastExpired now r.entries with
    | none => expired
    | some last => expired.updateExitDeadline last
  if r.entries.any (fun e => session ∈ e.sessions) then
    let r := { r with entries := r.entries.map (Entry.leave session now) }
    if r.Attended then r.updateExitDeadline now
    else { r with idleExitAt := some (now + daemonIdleDelay) }
  else r

/-- The releases of `advance`, one checkout after the other. -/
def releaseDue (o : Outside) : List String → Action (List String)
  | [] => pure []
  | k :: rest => do
      let released ← release o k
      if released = true then
        modify fun r => r.alter k fun e => { e with releaseAt := none }
        let more ← releaseDue o rest
        pure (k :: more)
      else releaseDue o rest

/-- Every checkout is probed, whatever the others say. -/
def anyBusy (probe : String → Probe) : List String → Action Bool
  | [] => pure false
  | k :: rest => do
      let pending ← refreshPendingWork probe k
      let more ← anyBusy probe rest
      pure (pending || more)

/-- Whether some queue without a runtime holds the daemon; looked up at most every five
seconds. -/
def orphanPending (o : Outside) (now : Nat) : Action Bool := do
  let r ← get
  let scan : Action Bool := do
    set { r with
      orphanScanCount := r.orphanScanCount + 1
      orphanScanCache := some (now + seconds 5, o.orphans) }
    pure o.orphans
  match r.orphanScanCache with
  | some (till, pending) => if now < till then pure pending else scan
  | none => scan

def advance (o : Outside) (now : Nat) : Action LifecycleTick := do
  modify fun r =>
    (r.expireBrowsers now).updateExitDeadline ((lastExpired now r.entries).getD now)
  let r ← get
  let due := (r.entries.filter fun e => e.releaseAt.any (· ≤ now)).map Entry.key
  let released ← releaseDue o due
  let r ← get
  let busy ← anyBusy o.again (r.entries.map Entry.key)
  let r ← get
  if r.idleExitAt.any (· ≤ now) = true ∧ busy = false ∧ ¬ r.Attended then
    let pending ← orphanPending o now
    pure ⟨released, !pending⟩
  else pure ⟨released, false⟩

end Baleyg.Daemon
