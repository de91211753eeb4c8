/-
What the programs of a read sample.

A program that has come to its end has made each of its checks at some moment; these are the
facts that reads rely on, with the moments of the calls they hold in.  Nothing is said here of
what lies between the moments.
-/
import Baleyg.Read.Evidence

open Baleyg.Topology (WorkspaceIdentity)

namespace Baleyg.Read

open Calls

/-! ### What the programs sample -/

section Programs

variable {κ ε : Type} {w : Nat → Shared κ ε} {b n : Nat} {store : Store κ}

variable {stands : Nat → Prog (Shared κ ε) Unit → Prop} {guard : FollowerGuard} {u : Unit}
  {db : Snapshot} {r : EvidenceResponse κ ε} {session : LeaderSession} {permit : Permit ε}

theorem runs_followerVerify {expected : Incarnation}
    (h : Runs w stands b (guard.verify expected) n (.done u)) :
    Sampled w b n (fun s => (s.disk guard.identity.root).content = some expected) := by
  unfold FollowerGuard.verify at h
  obtain ⟨m₁, _, h₁, h⟩ := runs_bind h
  obtain ⟨-, h⟩ := runs_require_bind h
  obtain ⟨m₂, _, h₂, h⟩ := runs_bind h
  exact (sampled_ensure h₂).mono h₁.le h.le

theorem runs_follower {stands : Nat → Prog (Shared κ ε) FollowerGuard → Prop}
    {identity : WorkspaceIdentity} (h : Runs w stands b (follower identity) n (.done guard)) :
    guard.identity = identity := by
  unfold follower at h
  obtain ⟨_, _, -, h⟩ := runs_bind h
  obtain ⟨_, _, -, h⟩ := runs_bind h
  obtain ⟨_, _, -, h⟩ := runs_bind h
  obtain ⟨_, _, -, h⟩ := runs_bind h
  obtain ⟨-, rfl⟩ := runs_done h
  rfl

theorem runs_readStatusFor {stands : Nat → Prog (Shared κ ε) IndexStatus → Prop} {preH : Bool}
    {status : IndexStatus} (h : Runs w stands b (readStatusFor store db preH) n (.done status)) :
    status = db.status ∧
      (preH = false → Sampled w b n (fun s => (s.memory store.memory).recoveryRequired = false)) := by
  unfold readStatusFor at h
  obtain ⟨m₁, _, h₁, h⟩ := runs_bind h
  obtain ⟨m₂, _, h₂, h⟩ := runs_bind h
  obtain ⟨-, h⟩ := runs_require_bind h
  obtain ⟨-, h⟩ := runs_require_bind h
  obtain ⟨-, h⟩ := runs_require_bind h
  refine ⟨(runs_done h).2.symm, fun hpreH => ?_⟩
  rw [hpreH] at h₂
  exact (sampled_ensure h₂).mono h₁.le h.le

theorem runs_admitEvidenceControl
    {stands : Nat → Prog (Shared κ ε) (IndexStatus × Incarnation) → Prop} {status : IndexStatus}
    {marker : Incarnation}
    (h : Runs w stands b (admitEvidenceControl store db) n (.done (status, marker))) :
    db.marker = some marker := by
  unfold admitEvidenceControl at h
  obtain ⟨_, _, -, h⟩ := runs_bind h
  obtain ⟨_, _, -, h⟩ := runs_bind h
  obtain ⟨-, h⟩ := runs_require_bind h
  obtain ⟨_, _, -, h⟩ := runs_bind h
  obtain ⟨marker', hmarker, h⟩ := runs_given_bind h
  obtain ⟨-, hdone⟩ := runs_done h
  rw [hmarker, (Prod.mk.inj hdone).2]

/-- **An ordinary read is admitted** with a snapshot that was committed at a moment of the call,
under the marker of it, which was recorded at another. -/
theorem runs_evidenceResponse {stands : Nat → Prog (Shared κ ε) (EvidenceResponse κ ε) → Prop}
    (h : Runs w stands b (evidenceResponse store) n (.done r)) :
    r.store = store ∧ ∃ guard marker, r.fence = .current guard marker ∧
      guard.identity = store.identity ∧ r.db.marker = some marker ∧
      Sampled w b n (fun s => (s.disk store.identity.root).db = r.db) ∧
      Sampled w b n (fun s => (s.disk store.identity.root).content = some marker) := by
  unfold evidenceResponse at h
  obtain ⟨m₁, _, h₁, h⟩ := runs_bind h
  obtain ⟨m₂, _, h₂, h⟩ := runs_bind h
  obtain ⟨t, ht, h⟩ := runs_ask h
  obtain ⟨m₃, ⟨status, marker⟩, h₃, h⟩ := runs_bind h
  obtain ⟨m₄, guard, h₄, h⟩ := runs_bind h
  obtain ⟨m₅, _, h₅, h⟩ := runs_bind h
  obtain ⟨rfl, rfl⟩ := runs_done h
  have hidentity := runs_follower h₄
  unfold verifyFollowerMarker at h₅
  obtain ⟨-, h₅⟩ := runs_require_bind h₅
  obtain ⟨m₆, _, h₆, h₅⟩ := runs_bind h₅
  have hcontent := runs_followerVerify h₅
  rw [hidentity] at hcontent
  have hbegin := Nat.le_trans h₁.le (Nat.le_trans h₂.le ht)
  have hmiddle := Nat.le_trans h₃.le (Nat.le_trans h₄.le h₆.le)
  exact ⟨rfl, guard, marker, rfl, hidentity, runs_admitEvidenceControl h₃,
    ⟨t, hbegin, Nat.lt_of_succ_le (Nat.le_trans hmiddle h₅.le), rfl⟩,
    hcontent.mono (Nat.le_trans hbegin (Nat.le_of_succ_le hmiddle)) (Nat.le_refl _)⟩

theorem runs_finish_current {marker : Incarnation} (hfence : r.fence = .current guard marker)
    (h : Runs w stands b r.finish n (.done u)) :
    Sampled w b n (fun s => (s.disk guard.identity.root).content = some marker) ∧
      Sampled w b n
        (fun s => (s.disk r.store.identity.root).directory = some r.store.identity) := by
  unfold EvidenceResponse.finish ReadFence.verify at h
  rw [hfence] at h
  obtain ⟨m₁, _, h₁, h⟩ := runs_bind h
  obtain ⟨m₂, _, h₂, h₁⟩ := runs_bind h₁
  obtain ⟨m₃, _, h₃, h₁⟩ := runs_bind h₁
  exact ⟨(runs_followerVerify h₃).mono h₂.le (Nat.le_trans h₁.le h.le),
    (sampled_ensure h₂).mono (Nat.le_refl _) (Nat.le_trans h₃.le (Nat.le_trans h₁.le h.le))⟩

/-- What the fence of a permit sampled. -/
structure Vouched (w : Nat → Shared κ ε) (b n : Nat) (store : Store κ) (session : LeaderSession)
    (permit : Permit ε) : Prop where
  session : ∃ guard, session = .leader guard
  identity : permit.identity = store.identity
  directory : Sampled w b n (fun s => (s.disk store.identity.root).directory = some store.identity)
  ready : Sampled w b n (fun s => (s.memory store.memory).disposition = .ready)
  epoch : Sampled w b n (fun s => s.epoch permit.epoch = permit.capturedEpoch)

theorem leaderGuard_eq {guard : LeaderGuard} (h : session.leaderGuard = some guard) :
    session = .leader guard := by
  cases session with
  | leader guard' => rw [Option.some.inj h]
  | follower => cases h

theorem runs_verifyPreHSnapshot
    (h : Runs w stands b (verifyPreHSnapshot store db permit) n (.done u)) :
    db.pin = permit.pin ∧ db.marker = some permit.predecessor := by
  unfold verifyPreHSnapshot at h
  obtain ⟨_, _, -, h⟩ := runs_bind h
  obtain ⟨-, h⟩ := runs_require_bind h
  obtain ⟨_, status, hstatus, h⟩ := runs_bind h
  obtain ⟨-, hpin, -, hmarker⟩ := runs_require h
  rw [(runs_readStatusFor hstatus).1] at hpin
  exact ⟨hpin, hmarker⟩

/-- **A transitional fence**: what it sampled, and the snapshot that it found to be the permit's,
which was read within. -/
theorem runs_verify_preH {stands : Nat → Prog (Shared κ ε) (Option Snapshot) → Prop}
    {db : Option (Prog (Shared κ ε) Snapshot)} {out : Option Snapshot}
    (h : Runs w stands b ((ReadFence.preH session permit).verify store db) n (.done out)) :
    Vouched w b n store session permit ∧ ∀ load, db = some load → ∃ snapshot stands' m m',
      b ≤ m ∧ m' ≤ n ∧ Runs w stands' m load m' (.done snapshot) ∧ out = some snapshot ∧
        snapshot.pin = permit.pin ∧ snapshot.marker = some permit.predecessor := by
  unfold ReadFence.verify at h
  obtain ⟨m₁, _, h₁, h⟩ := runs_bind h
  obtain ⟨m₂, _, h₂, h⟩ := runs_bind h
  obtain ⟨m₃, _, h₃, h⟩ := runs_bind h
  obtain ⟨⟨hidentity, -⟩, h⟩ := runs_require_bind h
  obtain ⟨guard, hguard, h⟩ := runs_given_bind h
  obtain ⟨m₄, _, h₄, h⟩ := runs_bind h
  obtain ⟨m₅, _, h₅, h⟩ := runs_bind h
  obtain ⟨m₆, out', h₆, h⟩ := runs_bind h
  obtain ⟨m₇, _, h₇, h⟩ := runs_bind h
  obtain ⟨m₈, _, h₈, h⟩ := runs_bind h
  obtain ⟨rfl, rfl⟩ := runs_done h
  have hend := Nat.le_trans h₇.le h₈.le
  have hrest := Nat.le_trans h₄.le (Nat.le_trans h₅.le (Nat.le_trans h₆.le hend))
  have hchecks := Nat.le_trans h₁.le (Nat.le_trans h₂.le h₃.le)
  refine ⟨⟨⟨guard, leaderGuard_eq hguard⟩, hidentity,
    (sampled_ensure h₁).mono (Nat.le_refl _) (Nat.le_trans h₂.le (Nat.le_trans h₃.le hrest)),
    (sampled_ensure h₂).mono h₁.le (Nat.le_trans h₃.le hrest),
    (sampled_ensure h₃).mono (Nat.le_trans h₁.le h₂.le) hrest⟩, fun load hload => ?_⟩
  rw [hload] at h₆
  obtain ⟨m, snapshot, hsnapshot, h₆⟩ := runs_bind h₆
  obtain ⟨m', _, hverify, h₆⟩ := runs_bind h₆
  obtain ⟨rfl, rfl⟩ := runs_done h₆
  exact ⟨snapshot, _, m₅, m, Nat.le_trans hchecks (Nat.le_trans h₄.le h₅.le),
    Nat.le_trans hverify.le hend, hsnapshot, rfl, runs_verifyPreHSnapshot hverify⟩

theorem runs_finish_preH (hfence : r.fence = .preH session permit)
    (h : Runs w stands b r.finish n (.done u)) :
    Vouched w b n r.store session permit ∧ r.db.pin = permit.pin ∧
      r.db.marker = some permit.predecessor := by
  unfold EvidenceResponse.finish at h
  rw [hfence] at h
  obtain ⟨m, out, hverify, h⟩ := runs_bind h
  obtain ⟨rfl, -⟩ := runs_done h
  obtain ⟨hvouched, hsnapshot⟩ := runs_verify_preH hverify
  obtain ⟨snapshot, _, _, _, -, -, hload, -, hpin, hmarker⟩ := hsnapshot _ rfl
  obtain ⟨-, rfl⟩ := runs_done hload
  exact ⟨hvouched, hpin, hmarker⟩

/-- **A transitional read is admitted** to the successor of the permit's leader, with a snapshot
that was committed at a moment of the call. -/
theorem runs_evidenceResponsePreH {stands : Nat → Prog (Shared κ ε) (EvidenceResponse κ ε) → Prop}
    (h : Runs w stands b (evidenceResponsePreH store permit session) n (.done r)) :
    r.store = store ∧ r.fence = .preH session permit ∧
      (∃ guard, session = .leader guard ∧ guard.predecessor = some permit.predecessor) ∧
      Sampled w b n (fun s => (s.disk store.identity.root).db = r.db) := by
  unfold evidenceResponsePreH at h
  obtain ⟨m₁, _, h₁, h⟩ := runs_bind h
  obtain ⟨m₂, _, h₂, h⟩ := runs_bind h
  obtain ⟨guard, hguard, h⟩ := runs_given_bind h
  obtain ⟨hpredecessor, h⟩ := runs_require_bind h
  obtain ⟨m₃, _, h₃, h⟩ := runs_bind h
  obtain ⟨m₄, _, h₄, h⟩ := runs_bind h
  obtain ⟨m₅, db, h₅, h⟩ := runs_bind h
  obtain ⟨m₆, _, h₆, h⟩ := runs_bind h
  obtain ⟨db', hdb', h⟩ := runs_given_bind h
  obtain ⟨rfl, rfl⟩ := runs_done h
  obtain ⟨-, hsnapshot⟩ := runs_verify_preH h₅
  obtain ⟨snapshot, _, m, m', hm, hm', hload, hout, -⟩ := hsnapshot _ rfl
  have hsame : db' = snapshot := Option.some.inj (hdb'.symm.trans hout)
  obtain ⟨t, ht, htm, hdb⟩ :
      Sampled w m m' (fun s => (s.disk store.identity.root).db = snapshot) := by
    cases hload with
    | @read _ t _ _ _ hle _ hload =>
        obtain ⟨rfl, rfl⟩ := runs_done hload
        exact ⟨t, hle, Nat.lt_succ_self t, rfl⟩
  have hbegin := Nat.le_trans h₁.le (Nat.le_trans h₂.le (Nat.le_trans h₃.le (Nat.le_trans h₄.le hm)))
  exact ⟨rfl, rfl, ⟨guard, leaderGuard_eq hguard, hpredecessor⟩, t, Nat.le_trans hbegin ht,
    Nat.lt_of_lt_of_le htm (Nat.le_trans hm' h₆.le), hdb.trans hsame.symm⟩

/-- The two are of one directory; the record may differ. -/
structure SameRoot (a b : WorkspaceIdentity) : Prop where
  root : a.root = b.root
  device : a.device = b.device
  inode : a.inode = b.inode

/-- **What `pre_h_read_permit` mints**: the read is ordinary, and it finishes between two samples
of one epoch. -/
theorem runs_preHReadPermit {stands : Nat → Prog (Shared κ ε) (Permit ε) → Prop} {epoch : ε}
    (h : Runs w stands b (preHReadPermit store r session epoch) n (.done permit)) :
    ∃ guard t a f t' k, r.fence = .current guard permit.predecessor ∧ b ≤ t ∧ t ≤ a ∧
      Runs w (fun t p => stands t (p >>= k)) a r.finish f (.done ()) ∧ f ≤ t' ∧ t' < n ∧
      (w t).epoch permit.epoch = permit.capturedEpoch ∧
      (w t').epoch permit.epoch = permit.capturedEpoch ∧ permit.pin = r.db.pin ∧
      SameRoot permit.identity r.store.identity ∧
      Sampled w b a (fun s => (s.memory r.store.memory).recoveryRequired = false) := by
  unfold preHReadPermit at h
  obtain ⟨m₁, _, h₁, h⟩ := runs_bind h
  cases hfence : r.fence with
  | preH session' permit' => rw [hfence] at h; cases h
  | current guard predecessor =>
      rw [hfence] at h
      obtain ⟨⟨hroot, hdevice, hinode⟩, h⟩ := runs_require_bind h
      obtain ⟨-, h⟩ := runs_require_bind h
      obtain ⟨t, ht, h⟩ := runs_ask h
      obtain ⟨a, status, hstatus, h⟩ := runs_bind h
      obtain ⟨-, h⟩ := runs_require_bind h
      obtain ⟨f, _, hfinish, h⟩ := runs_bind h
      obtain ⟨m, _, hchecked, h⟩ := runs_bind h
      obtain ⟨rfl, rfl⟩ := runs_done h
      obtain ⟨t', hf, rfl, hepoch⟩ := runs_ensure hchecked
      have hpin : status.revision = r.db.pin := congrArg _ (runs_readStatusFor hstatus).1
      have hbt := Nat.le_trans h₁.le ht
      have hready := (runs_readStatusFor hstatus).2 (congrArg ReadFence.isPreH hfence)
      exact ⟨guard, t, a, f, t', _, rfl, hbt, Nat.le_of_succ_le hstatus.le, hfinish,
        hf, Nat.lt_succ_self t', rfl, hepoch, hpin, ⟨hroot.symm, hdevice.symm, hinode.symm⟩,
        hready.mono (Nat.le_succ_of_le hbt) (Nat.le_refl _)⟩

/-- **What `remember_read_only_predecessor` has proved** when it goes on to load the epoch: the
read is ordinary, and has just finished. -/
theorem runs_remember {stands : Nat → Prog (Shared κ ε) (Option (IndexPin × Incarnation)) → Prop}
    {pin : IndexPin} {predecessor : Incarnation}
    (h : Runs w stands b (rememberReadOnlyPredecessor store r) n (.done (some (pin, predecessor)))) :
    ∃ guard a k, r.fence = .current guard predecessor ∧ b ≤ a ∧
      Runs w (fun t p => stands t (p >>= k)) a r.finish n (.done ()) ∧
      pin = r.db.pin ∧ store.identity = r.store.identity ∧
      Sampled w b a (fun s => (s.memory r.store.memory).recoveryRequired = false) := by
  unfold rememberReadOnlyPredecessor at h
  cases hfence : r.fence with
  | preH session permit =>
      rw [hfence] at h
      cases (runs_done h).2
  | current guard marker =>
      rw [hfence] at h
      obtain ⟨hidentity, h⟩ := runs_require_bind h
      obtain ⟨a, status, hstatus, h⟩ := runs_bind h
      have hpin : status.revision = r.db.pin := congrArg _ (runs_readStatusFor hstatus).1
      by_cases hnone : status.evidenceFormat = none ∨ status.revision.indexRevision = 0
      · rw [if_pos hnone] at h
        cases (runs_done h).2
      · rw [if_neg hnone] at h
        obtain ⟨f, _, hfinish, h⟩ := runs_bind h
        obtain ⟨rfl, hhead⟩ := runs_done h
        obtain ⟨rfl, rfl⟩ := Prod.mk.inj (Option.some.inj hhead)
        exact ⟨guard, a, _, rfl, hstatus.le, hfinish, hpin, hidentity,
          (runs_readStatusFor hstatus).2 (congrArg ReadFence.isPreH hfence)⟩

end Programs

end Baleyg.Read
