/-
Reads among everything else.

A world is the files of the roots, the memory of the stores, the calls of `Evidence` that are
under way, and what they have returned so far.  A call makes one sample a step; between two of
them a leader may take a lock, write or release it, somebody may commit to an index or replace a
root, recovery may be marked or end, and an epoch may go on.

A response borrows the session its fence names, so the leader of a session is not released while
a response or a call has it.  No incarnation is drawn twice: that the recorded incarnation
follows on another is then a fact about the lock file (`Disk.Sound`), in whatever checkout it is.
-/
import Baleyg.Read.Evidence

open Baleyg.Topology (WorkspaceIdentity)

namespace Baleyg.Read

open Calls (Prog Runs Sampled)
open Baleyg.Store (Disposition)

/-! ### Calls -/

inductive Request (κ ε : Type) where
  | evidenceResponse (store : Store κ)
  | evidenceResponsePreH (store : Store κ) (permit : Permit ε) (session : LeaderSession)
  | finish (r : EvidenceResponse κ ε)
  | preHReadPermit (store : Store κ) (r : EvidenceResponse κ ε) (session : LeaderSession)
      (epoch : ε)
  | rememberReadOnlyPredecessor (store : Store κ) (r : EvidenceResponse κ ε) (epoch : ε)

inductive Reply (κ ε : Type) where
  | response (r : EvidenceResponse κ ε)
  | finished
  | permit (permit : Permit ε)
  | nothing
  /-- `remember_read_only_predecessor` has finished the read. -/
  | proved (pin : IndexPin) (predecessor : Incarnation)

inductive Call (κ ε : Type) where
  | idle
  | running (req : Request κ ε) (p : Prog (Shared κ ε) (Reply κ ε))
  /-- The permit is made, and the slot is to be locked. -/
  | storing (req : Request κ ε) (store : Store κ) (permit : Permit ε)
  | returned (req : Request κ ε) (reply : Reply κ ε)
  | failed

section System

variable {κ ε ι : Type} [DecidableEq κ] [DecidableEq ε] [DecidableEq ι]

def Request.program : Request κ ε → Prog (Shared κ ε) (Reply κ ε)
  | evidenceResponse store => do
      let r ← Read.evidenceResponse store
      pure (.response r)
  | evidenceResponsePreH store permit session => do
      let r ← Read.evidenceResponsePreH store permit session
      pure (.response r)
  | finish r => do
      r.finish
      pure .finished
  | preHReadPermit store r session epoch => do
      let permit ← Read.preHReadPermit store r session epoch
      pure (.permit permit)
  | rememberReadOnlyPredecessor store r _ => do
      let proved ← Read.rememberReadOnlyPredecessor store r
      pure (proved.elim .nothing fun head => .proved head.1 head.2)

def Request.response : Request κ ε → Option (EvidenceResponse κ ε)
  | evidenceResponse _ | evidenceResponsePreH _ _ _ => none
  | finish r | preHReadPermit _ r _ _ | rememberReadOnlyPredecessor _ r _ => some r

def Request.session : Request κ ε → Option LeaderSession
  | evidenceResponsePreH _ _ session | preHReadPermit _ _ session _ => some session
  | evidenceResponse _ | finish _ | rememberReadOnlyPredecessor _ _ _ => none

/-- The fence has the leader's session. -/
def ReadFence.Uses (fence : ReadFence ε) (guard : LeaderGuard) : Prop :=
  ∃ permit, fence = .preH (.leader guard) permit

/-- The request has the leader's session, or a response that has it. -/
def Request.Uses (req : Request κ ε) (guard : LeaderGuard) : Prop :=
  (∃ r, req.response = some r ∧ r.fence.Uses guard) ∨ req.session = some (.leader guard)

/-! ### Steps -/

structure World (κ ε ι : Type) where
  shared : Shared κ ε
  calls : ι → Call κ ε
  opened : List (EvidenceResponse κ ε)
  minted : List (ι × Permit ε)

def Shared.setDisk (s : Shared κ ε) (root : String) (disk : Disk) : Shared κ ε :=
  { s with disk := Function.update s.disk root disk }

def Shared.setLock (s : Shared κ ε) (root : String) (lock : Lock) : Shared κ ε :=
  s.setDisk root { s.disk root with lock }

def Shared.setMemory (s : Shared κ ε) (store : κ) (memory : Memory ε) : Shared κ ε :=
  { s with memory := Function.update s.memory store memory }

/-- The slot of a store has the permit. -/
def Shared.remember (s : Shared κ ε) (store : κ) (permit : Permit ε) : Shared κ ε :=
  s.setMemory store { s.memory store with readOnlyPredecessor := some permit }

def World.put (w : World κ ε ι) (i : ι) (c : Call κ ε) : World κ ε ι :=
  { w with calls := Function.update w.calls i c }

/-- What happens to what calls read. -/
inductive Turn : Shared κ ε → Shared κ ε → Prop where
  | commit {s : Shared κ ε} (root : String) (db : Snapshot) :
      Turn s (s.setDisk root { s.disk root with db })
  | replace {s : Shared κ ε} (root : String) (directory : Option WorkspaceIdentity) :
      Turn s (s.setDisk root { s.disk root with directory })
  /-- A verifier's attempt at the leader lock succeeds, or is undone. -/
  | probe {s : Shared κ ε} (root : String) (probing : Bool) (hfree : (s.disk root).lock = .free) :
      Turn s (s.setDisk root { s.disk root with probing })
  | take {s : Shared κ ε} (root : String) (hfree : (s.disk root).lock = .free)
      (hprobing : (s.disk root).probing = false) :
      Turn s (s.setLock root (.taken (s.disk root).content))
  | truncate {s : Shared κ ε} (root : String) (predecessor : Option Incarnation)
      (h : (s.disk root).lock = .taken predecessor) :
      Turn s (s.setDisk root
        { s.disk root with lock := .truncated predecessor, content := none })
  | write {s : Shared κ ε} (guard : LeaderGuard)
      (h : (s.disk guard.identity.root).lock = .truncated guard.predecessor)
      (hfresh : guard.incarnation ∉ s.used) :
      Turn s { s.setDisk guard.identity.root
        { s.disk guard.identity.root with
          lock := .held guard
          content := some guard.incarnation
          history := guard.incarnation :: (s.disk guard.identity.root).history } with
        used := guard.incarnation :: s.used }
  /-- `acquire_leader` fails, or its process ends. -/
  | abandon {s : Shared κ ε} (root : String) (h : ∀ guard, (s.disk root).lock ≠ .held guard) :
      Turn s (s.setLock root .free)
  /-- Recovery is marked or ends, or a reconciliation is attested. -/
  | recover {s : Shared κ ε} (store : κ) (disposition : Disposition) (recoveryRequired : Bool)
      (reconciledLeader : Option Incarnation) :
      Turn s (s.setMemory store
        { s.memory store with disposition, recoveryRequired, reconciledLeader })
  | advance {s : Shared κ ε} (epoch : ε) :
      Turn s { s with epoch := Function.update s.epoch epoch (s.epoch epoch + 1) }

structure Allowed (w : World κ ε ι) (req : Request κ ε) : Prop where
  response : ∀ r, req.response = some r → r ∈ w.opened
  session : ∀ guard, req.session = some (.leader guard) →
    (w.shared.disk guard.identity.root).lock = .held guard
  permit : ∀ store permit session, req = .evidenceResponsePreH store permit session →
    ∃ i, (i, permit) ∈ w.minted

inductive Step : World κ ε ι → World κ ε ι → Prop where
  | turn {w : World κ ε ι} {s : Shared κ ε} (h : Turn w.shared s) : Step w { w with shared := s }
  /-- The end of a `LeaderGuard` that nobody has. -/
  | release {w : World κ ε ι} (guard : LeaderGuard)
      (h : (w.shared.disk guard.identity.root).lock = .held guard)
      (hcalls : ∀ i req p, w.calls i = .running req p → ¬ req.Uses guard)
      (hopened : ∀ r ∈ w.opened, ¬ r.fence.Uses guard) :
      Step w { w with shared := w.shared.setLock guard.identity.root .free }
  | drop {w : World κ ε ι} (opened : List (EvidenceResponse κ ε))
      (h : ∀ r ∈ opened, r ∈ w.opened) : Step w { w with opened }
  | begin {w : World κ ε ι} (i : ι) (req : Request κ ε) (h : w.calls i = .idle)
      (hallowed : Allowed w req) : Step w (w.put i (.running req req.program))
  | read {w : World κ ε ι} (i : ι) {req : Request κ ε}
      {next : Shared κ ε → Prog (Shared κ ε) (Reply κ ε)} (h : w.calls i = .running req (.read next)) :
      Step w (w.put i (.running req (next w.shared)))
  /-- A check fails, or anything else that a call does between its samples. -/
  | fail {w : World κ ε ι} (i : ι) (h : w.calls i ≠ .idle) : Step w (w.put i .failed)
  | accept {w : World κ ε ι} (i : ι) {req : Request κ ε} {r : EvidenceResponse κ ε}
      (h : w.calls i = .running req (.done (.response r))) :
      Step w { w.put i (.returned req (.response r)) with opened := r :: w.opened }
  | finish {w : World κ ε ι} (i : ι) {req : Request κ ε} {reply : Reply κ ε}
      (h : w.calls i = .running req (.done reply)) (hreply : reply = .finished ∨ reply = .nothing) :
      Step w (w.put i (.returned req reply))
  | mint {w : World κ ε ι} (i : ι) {req : Request κ ε} {permit : Permit ε}
      (h : w.calls i = .running req (.done (.permit permit))) :
      Step w { w.put i (.returned req (.permit permit)) with minted := (i, permit) :: w.minted }
  /-- `remember_read_only_predecessor` loads the epoch. -/
  | capture {w : World κ ε ι} (i : ι) {store : Store κ} {r : EvidenceResponse κ ε} {epoch : ε}
      {pin : IndexPin} {predecessor : Incarnation}
      (h : w.calls i = .running (.rememberReadOnlyPredecessor store r epoch)
        (.done (.proved pin predecessor))) :
      Step w (w.put i (.storing (.rememberReadOnlyPredecessor store r epoch) store
        ⟨store.identity, pin, predecessor, epoch, w.shared.epoch epoch⟩))
  /-- A remembered permit of another epoch makes the call fail instead. -/
  | remember {w : World κ ε ι} (i : ι) {req : Request κ ε} {store : Store κ} {permit : Permit ε}
      (h : w.calls i = .storing req store permit)
      (hslot : ∀ previous, (w.shared.memory store.memory).readOnlyPredecessor = some previous →
        previous.epoch = permit.epoch ∧ permit.replaces previous = true) :
      Step w { w.put i (.returned req .nothing) with
        shared := w.shared.remember store.memory permit
        minted := (i, permit) :: w.minted }
  | keep {w : World κ ε ι} (i : ι) {req : Request κ ε} {store : Store κ} {permit previous : Permit ε}
      (h : w.calls i = .storing req store permit)
      (hslot : (w.shared.memory store.memory).readOnlyPredecessor = some previous)
      (hepoch : previous.epoch = permit.epoch) (hnewer : permit.replaces previous = false) :
      Step w (w.put i (.returned req .nothing))

/-- Nobody has asked yet, and no leader is there. -/
structure Started (w : World κ ε ι) : Prop where
  calls : ∀ i, w.calls i = .idle
  opened : w.opened = []
  minted : w.minted = []
  free : ∀ root, (w.shared.disk root).lock = .free
  history : ∀ root, (w.shared.disk root).history = (w.shared.disk root).content.toList
  used : ∀ root, ∀ c ∈ (w.shared.disk root).history, c ∈ w.shared.used
  apart : ∀ root root' c, c ∈ (w.shared.disk root).history → c ∈ (w.shared.disk root').history →
    root = root'

structure Run (σ : Nat → World κ ε ι) : Prop where
  started : Started (σ 0)
  next : ∀ n, σ (n + 1) = σ n ∨ Step (σ n) (σ (n + 1))

/-! ### The lock files -/

/-- The last incarnation that was written, and the one before it. -/
structure Disk.Sound (root : String) (d : Disk) : Prop where
  content : ∀ c, d.content = some c → ∃ rest, d.history = c :: rest
  taken : ∀ c, d.lock = .taken (some c) ∨ d.lock = .truncated (some c) →
    ∃ rest, d.history = c :: rest
  held : ∀ guard, d.lock = .held guard → guard.identity.root = root ∧
    ∃ rest, d.history = guard.incarnation :: rest ∧
      ∀ c, guard.predecessor = some c → ∃ rest', rest = c :: rest'

structure Shared.Sound (s : Shared κ ε) : Prop where
  disks : ∀ root, (s.disk root).Sound root
  used : ∀ root, ∀ c ∈ (s.disk root).history, c ∈ s.used
  apart : ∀ root root' c, c ∈ (s.disk root).history → c ∈ (s.disk root').history → root = root'

section Files

variable {s t : Shared κ ε} {w w' : World κ ε ι} {root root' : String} {d : Disk}

omit [DecidableEq κ] [DecidableEq ε] in
@[simp] theorem disk_setDisk_same : (s.setDisk root d).disk root = d := Function.update_self ..

omit [DecidableEq κ] [DecidableEq ε] in
@[simp] theorem disk_setDisk_other (h : root' ≠ root) :
    (s.setDisk root d).disk root' = s.disk root' :=
  Function.update_of_ne h ..

omit [DecidableEq κ] [DecidableEq ε] in
theorem Shared.Sound.setDisk (h : s.Sound) (hd : d.Sound root)
    (hhistory : d.history = (s.disk root).history) : (s.setDisk root d).Sound := by
  have hsame : ∀ other, ((s.setDisk root d).disk other).history = (s.disk other).history :=
    fun other => by
      by_cases hother : other = root
      · rw [hother, disk_setDisk_same, hhistory]
      · rw [disk_setDisk_other hother]
  refine ⟨fun other => ?_, fun other c hc => ?_, fun other other' c hc hc' => ?_⟩
  · by_cases hother : other = root
    · rw [hother, disk_setDisk_same]; exact hd
    · rw [disk_setDisk_other hother]; exact h.disks other
  · rw [hsame] at hc; exact h.used other c hc
  · rw [hsame] at hc hc'
    exact h.apart other other' c hc hc'

theorem Disk.Sound.free (h : d.Sound root) : ({ d with lock := .free } : Disk).Sound root :=
  ⟨h.content, fun _ hc => hc.elim nofun nofun, nofun⟩

theorem Turn.sound (h : Turn s t) (hs : s.Sound) : t.Sound := by
  cases h with
  | commit root db | replace root directory | probe root probing hfree =>
      have hd := hs.disks root
      exact hs.setDisk ⟨hd.content, hd.taken, hd.held⟩ rfl
  | take root hfree hprobing =>
      have hd := hs.disks root
      refine hs.setDisk ⟨hd.content, fun c hc => ?_, nofun⟩ rfl
      rcases hc with hc | hc
      · exact hd.content c (Lock.taken.inj hc)
      · cases hc
  | truncate root predecessor hlock =>
      have hd := hs.disks root
      refine hs.setDisk ⟨nofun, fun c hc => ?_, nofun⟩ rfl
      rcases hc with hc | hc
      · cases hc
      · rw [Lock.truncated.inj hc] at hlock; exact hd.taken c (.inl hlock)
  | write guard hlock hfresh =>
      have hd := hs.disks guard.identity.root
      have hmem : ∀ other c, c ∈ ((s.setDisk guard.identity.root
          { s.disk guard.identity.root with
            lock := .held guard
            content := some guard.incarnation
            history := guard.incarnation :: (s.disk guard.identity.root).history }).disk
              other).history →
          (c = guard.incarnation ∧ other = guard.identity.root) ∨ c ∈ (s.disk other).history :=
        fun other c hc => by
          by_cases hother : other = guard.identity.root
          · rw [hother, disk_setDisk_same] at hc
            rw [hother]
            exact (List.mem_cons.mp hc).imp_left fun hc => ⟨hc, rfl⟩
          · rw [disk_setDisk_other hother] at hc; exact .inr hc
      refine ⟨fun other => ?_, fun other c hc => ?_, fun other other' c hc hc' => ?_⟩
      · by_cases hother : other = guard.identity.root
        · rw [hother]
          refine cast (congrArg (Disk.Sound guard.identity.root) disk_setDisk_same.symm) ?_
          refine ⟨fun c hc => ⟨_, congrArg (· :: _) (Option.some.inj hc)⟩,
            fun _ hc => hc.elim nofun nofun, fun guard' hguard => ?_⟩
          cases Lock.held.inj hguard
          refine ⟨rfl, _, rfl, fun c hc => ?_⟩
          rw [hc] at hlock
          exact hd.taken c (.inr hlock)
        · show ((s.setDisk _ _).disk other).Sound other
          rw [disk_setDisk_other hother]
          exact hs.disks other
      · rcases hmem other c hc with ⟨rfl, -⟩ | hc
        · exact List.mem_cons_self
        · exact List.mem_cons_of_mem _ (hs.used other c hc)
      · rcases hmem other c hc with ⟨rfl, rfl⟩ | hc
        · rcases hmem other' _ hc' with ⟨-, rfl⟩ | hc'
          · rfl
          · exact absurd (hs.used _ _ hc') hfresh
        · rcases hmem other' c hc' with ⟨rfl, -⟩ | hc'
          · exact absurd (hs.used _ _ hc) hfresh
          · exact hs.apart other other' c hc hc'
  | abandon root hlock => exact hs.setDisk (hs.disks root).free rfl
  | recover store disposition recoveryRequired reconciledLeader =>
      exact ⟨hs.disks, hs.used, hs.apart⟩
  | advance epoch => exact ⟨hs.disks, hs.used, hs.apart⟩

theorem Step.sound (h : Step w w') (hs : w.shared.Sound) : w'.shared.Sound := by
  cases h with
  | turn hturn => exact hturn.sound hs
  | release guard hlock _ _ => exact hs.setDisk (hs.disks _).free rfl
  | remember i hcall hslot => exact ⟨hs.disks, hs.used, hs.apart⟩
  | drop | begin | read | fail | accept | finish | mint | capture | keep => exact hs

omit [DecidableEq κ] [DecidableEq ε] [DecidableEq ι] in
theorem Started.sound (h : Started w) : w.shared.Sound := by
  refine ⟨fun root => ⟨fun c hc => ?_, fun c hc => ?_, fun guard hguard => ?_⟩, h.used, h.apart⟩
  · rw [h.history, hc]; exact ⟨[], rfl⟩
  · rw [h.free] at hc; exact hc.elim nofun nofun
  · rw [h.free] at hguard; cases hguard

theorem Turn.history (h : Turn s t) {c : Incarnation} (hc : c ∈ (s.disk root).history) :
    c ∈ (t.disk root).history := by
  have hset : ∀ root' d, (s.disk root').history ⊆ d.history →
      c ∈ ((s.setDisk root' d).disk root).history := fun root' d hd => by
    by_cases hroot : root = root'
    · rw [hroot, disk_setDisk_same]
      rw [hroot] at hc
      exact hd hc
    · rw [disk_setDisk_other hroot]; exact hc
  cases h with
  | write guard _ _ => exact hset _ _ (List.subset_cons_self _ _)
  | recover | advance => exact hc
  | commit | replace | probe | take | truncate | abandon => exact hset _ _ (List.Subset.refl _)

theorem Step.history (h : Step w w') {c : Incarnation} (hc : c ∈ (w.shared.disk root).history) :
    c ∈ (w'.shared.disk root).history := by
  cases h with
  | turn hturn => exact hturn.history hc
  | release guard hlock _ _ =>
      by_cases hroot : root = guard.identity.root
      · show c ∈ ((w.shared.setDisk guard.identity.root _).disk root).history
        rw [hroot, disk_setDisk_same]
        rw [hroot] at hc
        exact hc
      · show c ∈ ((w.shared.setDisk guard.identity.root _).disk root).history
        rw [disk_setDisk_other hroot]
        exact hc
  | drop | begin | read | fail | accept | finish | mint | capture | remember | keep => exact hc

theorem Step.epoch (h : Step w w') (e : ε) : w.shared.epoch e ≤ w'.shared.epoch e := by
  cases h with
  | turn hturn =>
      cases hturn with
      | advance epoch =>
          show _ ≤ Function.update w.shared.epoch epoch _ e
          by_cases he : e = epoch
          · rw [he, Function.update_self]; exact Nat.le_succ _
          · rw [Function.update_of_ne he]
      | commit | replace | probe | take | truncate | write | abandon | recover => exact Nat.le_refl _
  | release | drop | begin | read | fail | accept | finish | mint | capture | remember | keep =>
      exact Nat.le_refl _

end Files

end System

end Baleyg.Read
