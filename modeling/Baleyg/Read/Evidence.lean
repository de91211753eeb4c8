/-
Evidence reads and their fences.

A read of the selected index holds one SQLite snapshot from its admission to its end, and is
fenced at both.  An ordinary read is fenced by the marker in its snapshot: the leader that
reconciled the head is the one recorded in the lock file.  A transitional read goes on serving
the last head of a leader that is gone, while its successor has not published yet; its fence is
a permit, which remembers the pin, the leader, the root and the epoch of the checkout under
which an ordinary read last found the head to be current.

A fence samples one thing after the other: the identity of the root, the disposition of the
store, the epoch, the incarnation in the lock file, the snapshot.  Every function here is a
program of these samples (`Calls.Prog`), each of which sees the state of its own moment; between
two of them anybody may publish, take over, replace the root, or release the checkout.
-/
import Baleyg.Lib.Calls
import Baleyg.Store.Publication
import Baleyg.Topology.Durable

open Baleyg.Topology (WorkspaceIdentity)

namespace Baleyg.Read

open Calls (Prog)
open Calls.Prog (ask ensure require given)
open Baleyg.Store (Disposition)

abbrev Incarnation := Nat

def databaseSchemaVersion : Nat := 8

/-! ### The files -/

/-- What a transaction sees of the index. -/
structure Snapshot where
  /-- The root identity of the metadata, where it is a typed singleton. -/
  root : Option (String × Nat × Nat)
  userVersion : Nat
  pin : IndexPin
  /-- `reconciled_incarnation`, where it is one. -/
  marker : Option Incarnation
  /-- The shape and the paired metadata are what `decode_control_status_raw` wants. -/
  control : Bool
  /-- `validate_reconcile_inventory` and the class catalog's budget. -/
  inventory : Bool
  deriving DecidableEq

structure LeaderGuard where
  identity : WorkspaceIdentity
  incarnation : Incarnation
  predecessor : Option Incarnation
  deriving DecidableEq

/-- How far the holder of the leader lock is with `acquire_leader`. -/
inductive Lock where
  | free
  /-- The recorded incarnation has been read. -/
  | taken (predecessor : Option Incarnation)
  | truncated (predecessor : Option Incarnation)
  | held (guard : LeaderGuard)
  deriving DecidableEq

structure Disk where
  directory : Option WorkspaceIdentity
  db : Snapshot
  /-- What the lock file reads as, where it reads as an incarnation. -/
  content : Option Incarnation
  lock : Lock
  /-- A verifier has the lock for a moment. -/
  probing : Bool
  /-- The incarnations that were written to the lock file, the last first. -/
  history : List Incarnation

/-! ### The process -/

section Process

variable {κ ε : Type}

/-- `PreHReadPermit`. -/
structure Permit (ε : Type) where
  identity : WorkspaceIdentity
  pin : IndexPin
  predecessor : Incarnation
  epoch : ε
  capturedEpoch : Nat

structure Memory (ε : Type) where
  disposition : Disposition
  recoveryRequired : Bool
  reconciledLeader : Option Incarnation
  readOnlyPredecessor : Option (Permit ε)

structure Shared (κ ε : Type) where
  disk : String → Disk
  memory : κ → Memory ε
  epoch : ε → Nat
  used : List Incarnation

structure Store (κ : Type) where
  memory : κ
  identity : WorkspaceIdentity

structure FollowerGuard where
  identity : WorkspaceIdentity
  incarnation : Incarnation

inductive LeaderSession where
  | leader (guard : LeaderGuard)
  | follower (guard : FollowerGuard)

def LeaderSession.incarnation : LeaderSession → Incarnation
  | leader guard => guard.incarnation
  | follower guard => guard.incarnation

def LeaderSession.leaderGuard : LeaderSession → Option LeaderGuard
  | leader guard => some guard
  | follower _ => none

inductive ReadFence (ε : Type) where
  | current (follower : FollowerGuard) (marker : Incarnation)
  | preH (session : LeaderSession) (permit : Permit ε)

def ReadFence.isPreH : ReadFence ε → Bool
  | current _ _ => false
  | preH _ _ => true

structure EvidenceResponse (κ ε : Type) where
  store : Store κ
  db : Snapshot
  fence : ReadFence ε

/-- What `read_status_for` decodes. -/
structure IndexStatus where
  revision : IndexPin
  evidenceFormat : Option String

/-! ### Samples -/

/-- `WorkspaceIdentity::verify`. -/
def verifyIdentity (identity : WorkspaceIdentity) : Prog (Shared κ ε) Unit :=
  ensure fun s => (s.disk identity.root).directory = some identity

def ensureNotRecreatePending (store : Store κ) : Prog (Shared κ ε) Unit :=
  ensure fun s => (s.memory store.memory).disposition ≠ .recreatePending ∧
    (s.memory store.memory).disposition ≠ .rootReplaced

/-- `disposition() == Ready`. -/
def ensureReady (store : Store κ) : Prog (Shared κ ε) Unit :=
  ensure fun s => (s.memory store.memory).disposition = .ready

def ensurePublicReadReady (store : Store κ) : Prog (Shared κ ε) Unit :=
  ensure fun s => (s.memory store.memory).recoveryRequired = false

/-- A transitional read does not want `ensure_public_read_ready`. -/
def ensureStatusReady (store : Store κ) (preH : Bool) : Prog (Shared κ ε) Unit :=
  if preH then pure () else ensurePublicReadReady store

/-- `read_incarnation` of the lock file. -/
def readIncarnation (root : String) : Prog (Shared κ ε) Incarnation := do
  given (← ask fun s => (s.disk root).content)

/-- The lock file reads as this. -/
def checkIncarnation (root : String) (expected : Incarnation) : Prog (Shared κ ε) Unit :=
  ensure fun s => (s.disk root).content = some expected

/-- An attempt at the leader lock is refused. -/
def refused (root : String) : Prog (Shared κ ε) Unit :=
  ensure fun s => (s.disk root).lock ≠ .free ∨ (s.disk root).probing = true

def FollowerGuard.verify (guard : FollowerGuard) (expected : Incarnation) :
    Prog (Shared κ ε) Unit := do
  verifyIdentity guard.identity
  require (guard.incarnation = expected)
  checkIncarnation guard.identity.root expected
  refused guard.identity.root
  checkIncarnation guard.identity.root expected
  verifyIdentity guard.identity

def follower (identity : WorkspaceIdentity) : Prog (Shared κ ε) FollowerGuard := do
  verifyIdentity identity
  let incarnation ← readIncarnation identity.root
  refused identity.root
  let guard : FollowerGuard := ⟨identity, incarnation⟩
  guard.verify incarnation
  pure guard

def LeaderGuard.verify (guard : LeaderGuard) : Prog (Shared κ ε) Unit :=
  checkIncarnation guard.identity.root guard.incarnation

def LeaderSession.verify : LeaderSession → Prog (Shared κ ε) Unit
  | leader guard => do
      verifyIdentity guard.identity
      guard.verify
  | follower guard => guard.verify guard.incarnation

def verifyLeaderSession (store : Store κ) (session : LeaderSession) : Prog (Shared κ ε) Unit := do
  let guard ← given session.leaderGuard
  verifyIdentity store.identity
  verifyIdentity guard.identity
  require (guard.identity = store.identity)
  guard.verify

def verifyReconciledLeaderClaim (store : Store κ) (session : LeaderSession) :
    Prog (Shared κ ε) Unit := do
  verifyLeaderSession store session
  ensure fun s => (s.memory store.memory).reconciledLeader = some session.incarnation
  verifyLeaderSession store session

/-! ### Snapshots -/

def cache (store : Store κ) : Prog (Shared κ ε) Unit := do
  ensureNotRecreatePending store
  verifyIdentity store.identity
  verifyIdentity store.identity

def pinned (store : Store κ) : Prog (Shared κ ε) Snapshot :=
  ask fun s => (s.disk store.identity.root).db

def verifyMetadataRoot (store : Store κ) (db : Snapshot) : Prog (Shared κ ε) Unit :=
  require (db.root = some (store.identity.root, store.identity.device, store.identity.inode))

def Snapshot.status (db : Snapshot) : IndexStatus :=
  ⟨db.pin, if 0 < db.pin.indexRevision then some "terminal-native-graph-v1" else none⟩

def readStatusFor (store : Store κ) (db : Snapshot) (preH : Bool) :
    Prog (Shared κ ε) IndexStatus := do
  verifyMetadataRoot store db
  ensureStatusReady store preH
  require (db.control = true)
  require (db.status.evidenceFormat ≠ none)
  require (db.inventory = true)
  pure db.status

def admitEvidenceControl (store : Store κ) (db : Snapshot) :
    Prog (Shared κ ε) (IndexStatus × Incarnation) := do
  verifyMetadataRoot store db
  ensurePublicReadReady store
  require (db.userVersion = databaseSchemaVersion)
  let status ← readStatusFor store db false
  let marker ← given db.marker
  pure (status, marker)

def verifyFollowerMarker (store : Store κ) (guard : FollowerGuard) (marker : Incarnation) :
    Prog (Shared κ ε) Unit := do
  require (guard.incarnation = marker)
  verifyIdentity store.identity
  guard.verify marker

def verifyPreHSnapshot (store : Store κ) (db : Snapshot) (permit : Permit ε) :
    Prog (Shared κ ε) Unit := do
  verifyMetadataRoot store db
  require (db.userVersion = databaseSchemaVersion)
  let status ← readStatusFor store db true
  require (status.revision = permit.pin ∧ status.evidenceFormat ≠ none ∧
    db.marker = some permit.predecessor)

def verifySnapshot (store : Store κ) (permit : Permit ε) :
    Option (Prog (Shared κ ε) Snapshot) → Prog (Shared κ ε) (Option Snapshot)
  | none => pure none
  | some load => do
      let db ← load
      verifyPreHSnapshot store db permit
      pure (some db)

/-! ### Fences -/

/-- `ReadFence::verify`, which may be what first reads the transaction. -/
def ReadFence.verify (fence : ReadFence ε) (store : Store κ)
    (db : Option (Prog (Shared κ ε) Snapshot)) : Prog (Shared κ ε) (Option Snapshot) := do
  verifyIdentity store.identity
  match fence with
  | .current guard marker => do
      guard.verify marker
      pure none
  | .preH session permit => do
      ensureReady store
      ensure fun s => s.epoch permit.epoch = permit.capturedEpoch
      require (permit.identity = store.identity ∧ session.incarnation ≠ permit.predecessor)
      let guard ← given session.leaderGuard
      guard.verify
      session.verify
      let db ← verifySnapshot store permit db
      verifyIdentity store.identity
      ensureReady store
      pure db

def EvidenceResponse.finish (r : EvidenceResponse κ ε) : Prog (Shared κ ε) Unit := do
  let _ ← r.fence.verify r.store (some (pure r.db))
  pure ()

def EvidenceResponse.status (r : EvidenceResponse κ ε) : Prog (Shared κ ε) IndexStatus :=
  readStatusFor r.store r.db r.fence.isPreH

def evidenceResponse (store : Store κ) : Prog (Shared κ ε) (EvidenceResponse κ ε) := do
  ensureNotRecreatePending store
  cache store
  let db ← pinned store
  let (_, marker) ← admitEvidenceControl store db
  let guard ← follower store.identity
  verifyFollowerMarker store guard marker
  pure ⟨store, db, .current guard marker⟩

def evidenceResponsePreH (store : Store κ) (permit : Permit ε) (session : LeaderSession) :
    Prog (Shared κ ε) (EvidenceResponse κ ε) := do
  ensureNotRecreatePending store
  ensureReady store
  let guard ← given session.leaderGuard
  require (guard.predecessor = some permit.predecessor)
  let fence : ReadFence ε := .preH session permit
  let _ ← fence.verify store none
  cache store
  let db ← fence.verify store (some (pinned store))
  ensureReady store
  let db ← given db
  pure ⟨store, db, fence⟩

/-! ### Permits -/

def preHReadPermit (store : Store κ) (r : EvidenceResponse κ ε) (session : LeaderSession)
    (epoch : ε) : Prog (Shared κ ε) (Permit ε) := do
  verifyReconciledLeaderClaim store session
  match r.fence with
  | .preH _ _ => .fail
  | .current _ predecessor => do
      require (r.store.identity.root = store.identity.root ∧
        r.store.identity.device = store.identity.device ∧
        r.store.identity.inode = store.identity.inode)
      require (predecessor = session.incarnation)
      let capturedEpoch ← ask fun s => s.epoch epoch
      let status ← r.status
      require (status.evidenceFormat ≠ none ∧ status.revision.indexRevision ≠ 0)
      r.finish
      ensure fun s => s.epoch epoch = capturedEpoch
      pure ⟨store.identity, status.revision, predecessor, epoch, capturedEpoch⟩

/-- `remember_read_only_predecessor`, up to where it has finished the read: what its permit is
to have of the pin and the leader, if there is to be one. -/
def rememberReadOnlyPredecessor (store : Store κ) (r : EvidenceResponse κ ε) :
    Prog (Shared κ ε) (Option (IndexPin × Incarnation)) :=
  match r.fence with
  | .preH _ _ => pure none
  | .current _ predecessor => do
      require (store.identity = r.store.identity)
      let status ← r.status
      if status.evidenceFormat = none ∨ status.revision.indexRevision = 0 then pure none
      else do
        r.finish
        pure (some (status.revision, predecessor))

/-- What a permit does to the one that is remembered, if it belongs to the same epoch: an older
pin of the same generation changes nothing. -/
def Permit.replaces (permit previous : Permit ε) : Bool :=
  !(previous.pin.indexGeneration == permit.pin.indexGeneration &&
    permit.pin.indexRevision < previous.pin.indexRevision)

end Process

end Baleyg.Read
