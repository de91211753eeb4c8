/-
The maintenance probe of the request queue.

Maintenance may take away the index of a request that is still to be served, so before it begins
and before it commits it asks whether anything is queued or running.  It asks without a lock: it
looks at the file of the queue and its sidecars, at SQLite's `data_version` on a connection of its
own, sometimes at the rows, then at the version and the files once more; and between any two looks
writers go on.

What it may conclude rests on SQLite.  A writer has a journal from its first change to its commit
or rollback, which no other writer of the same file has meanwhile, and it is refused one if the
file was moved away from the name (`SQLITE_READONLY_DBMOVED`); the version of a connection counts
the commits of others.  A file that has the name was never there before unless it is still there,
so the name is as it was wherever it is so later.
-/
import Mathlib.Data.List.Basic
import Mathlib.Data.Nat.Init
import Baleyg.Lib.Calls

namespace Baleyg.Store.Probe

open Calls (Prog Ran Sampled)
open Calls.Prog (ask ensure require given)

/-! ### The queue and its writers -/

abbrev Inode := Nat × Nat

/-- What the file system and SQLite say about everything else. -/
structure Answers where
  /-- `verify_readonly` of the identity, and `verify` of the use guard. -/
  identity : Bool
  guard : Bool
  /-- A name can be looked up at all. -/
  stat : Bool
  /-- What has the name is a file and no symbolic link; and it is ours, with the mode and the one
  link that it should have. -/
  regular : Bool
  owned : Bool
  wal : Bool
  shm : Bool
  /-- A descriptor can be opened and kept. -/
  retained : Bool
  /-- The header of the file has the rollback journal's format. -/
  header : Bool
  autocommit : Bool
  query : Bool
  journalMode : String
  userVersion : Int
  queueIdentity : Option (String × String)
  /-- `request_file_witness`. -/
  witness : Option Inode
  deriving DecidableEq

structure Disk where
  path : Option Inode
  /-- The files that have had the name. -/
  former : List Inode
  /-- The transactions that have a journal, each with its file and its writer. -/
  writers : List (Inode × Nat)
  pending : Inode → Bool
  /-- How many transactions were committed. -/
  version : Inode → Nat
  answers : Answers

namespace Disk

variable {d d' : Disk} {i : Inode}

/-- There is a committed queued or running row in the queue. -/
def unfinished (d : Disk) : Bool :=
  match d.path with
  | none => false
  | some i => d.pending i

/-- The file that has the name is known to have it. -/
def Consistent (d : Disk) : Prop := ∀ i, d.path = some i → i ∈ d.former

end Disk

inductive Step (d : Disk) : Disk → Prop where
  | journal {i : Inode} {writer : Nat} (path : d.path = some i)
      (alone : ∀ x ∈ d.writers, x.1 ≠ i) : Step d { d with writers := (i, writer) :: d.writers }
  | commit {i : Inode} {writer : Nat} (active : (i, writer) ∈ d.writers) (pending : Bool) :
      Step d { d with
        writers := d.writers.erase (i, writer)
        pending := Function.update d.pending i pending
        version := Function.update d.version i (d.version i + 1) }
  | rollback {i : Inode} {writer : Nat} (active : (i, writer) ∈ d.writers) :
      Step d { d with writers := d.writers.erase (i, writer) }
  /-- A file is created, or put in place of the one there is. -/
  | install {i : Inode} (new : i ∉ d.former) (pending : Bool) (version : Nat) :
      Step d { d with
        path := some i
        former := i :: d.former
        pending := Function.update d.pending i pending
        version := Function.update d.version i version }
  | outside (answers : Answers) : Step d { d with answers := answers }

/-- What the queue is like from moment to moment. -/
structure History (w : Nat → Disk) : Prop where
  begins : (w 0).Consistent
  step : ∀ t, w (t + 1) = w t ∨ Step (w t) (w (t + 1))

/-! ### The probe -/

inductive MaintenanceQueueState where
  | clear
  | pending
  | unknown
  deriving DecidableEq, Repr

structure MaintenanceQueueProbe where
  file : Option Inode
  db : Option Inode
  inode : Option Inode
  baseline : Nat
  initialPending : Bool
  deriving DecidableEq, Repr

inductive QueueProbeAdmission where
  | absentVirgin (probe : MaintenanceQueueProbe)
  | ready (probe : MaintenanceQueueProbe)
  | unknown
  deriving DecidableEq, Repr

/-- `symlink_metadata`. -/
inductive Named where
  | absent
  | failed
  | found (inode : Inode) (regular owned : Bool)

def Disk.named (d : Disk) : Named :=
  if d.answers.stat = false then .failed else
    match d.path with
    | none => .absent
    | some i => .found i d.answers.regular d.answers.owned

/-- `queue_sidecar_exists`: anything but that a name is not found. -/
def queueSidecarExists : Prog Disk Bool :=
  (ask fun d => !d.answers.stat || !d.writers.isEmpty).either <|
    (ask fun d => !d.answers.stat || d.answers.wal).either <|
      ask fun d => !d.answers.stat || d.answers.shm

def queueDeleteHeader : Prog Disk Bool := ask fun d => d.answers.header

def queueDataVersion (db : Inode) : Prog Disk (Option Nat) :=
  ask fun d => if d.answers.query = true then some (d.version db) else none

def unfinishedExists (db : Inode) : Prog Disk (Option Bool) :=
  ask fun d => if d.answers.query = true then some (d.pending db) else none

namespace MaintenanceQueueProbe

def pathnameUnchanged (probe : MaintenanceQueueProbe) : Prog Disk Bool :=
  (ask fun d => d.answers.identity).both <|
    (ask fun d => d.answers.guard).both do
      let named ← ask Disk.named
      match probe.inode, named with
      | none, .absent => ask fun d => d.answers.witness.isNone
      | some inode, .found named regular _ =>
          if regular = true ∧ named = inode then
            ask fun d => d.answers.witness.all (· = inode)
          else
            pure false
      | _, _ => pure false

/-- The version is sampled a second time before the files are. -/
def fenceUnchanged (probe : MaintenanceQueueProbe) (db : Option Inode) (version : Option Nat) :
    Prog Disk Bool :=
  let same : Prog Disk Bool :=
    match db with
    | none => pure true
    | some db =>
        (ask fun d => d.answers.autocommit).both do
          match version with
          | none => pure false
          | some version =>
              let again ← queueDataVersion db
              pure (again = some version)
  same.both <|
    (match probe.file with
      | none => pure true
      | some _ => queueDeleteHeader).both <|
      probe.pathnameUnchanged.both do
        let sidecar ← queueSidecarExists
        pure !sidecar

/-- `check_with_barrier`. -/
def check (probe : MaintenanceQueueProbe) : Prog Disk MaintenanceQueueState := do
  let unchanged ← probe.pathnameUnchanged.both (do
    let sidecar ← queueSidecarExists
    pure !sidecar)
  if unchanged = false then
    pure .unknown
  else
    match probe.db with
    | none => do
        let same ← probe.fenceUnchanged none none
        pure (if same = true then .clear else .unknown)
    | some db => do
        let fit ← (match probe.file with
          | none => pure false
          | some _ => queueDeleteHeader).both (ask fun d => d.answers.autocommit)
        if fit = false then
          pure .unknown
        else
          match ← queueDataVersion db with
          | none => pure .unknown
          | some version =>
              if version = probe.baseline then do
                let same ← probe.fenceUnchanged (some db) (some version)
                pure (if same = false then .unknown
                  else if probe.initialPending = true then .pending else .clear)
              else
                match ← unfinishedExists db with
                | none => pure .unknown
                | some pending => do
                    let same ← probe.fenceUnchanged (some db) (some version)
                    pure (if same = false then .unknown
                      else if pending = true then .pending else .clear)

end MaintenanceQueueProbe

namespace QueueProbeAdmission

def check : QueueProbeAdmission → Prog Disk MaintenanceQueueState
  | unknown => pure .unknown
  | absentVirgin probe => probe.check
  | ready probe => probe.check

end QueueProbeAdmission

/-- `retained_sqlite_file`: a descriptor of the file that has the name. -/
def retainedSqliteFile : Prog Disk Inode := do
  ensure fun d => d.answers.retained = true
  let path ← ask Disk.path
  given path

def protectedSqliteOpen : Prog Disk Inode := do
  let named ← ask Disk.path
  ensure fun d => d.answers.regular = true
  ensure fun d => d.answers.retained = true
  let opened ← ask Disk.path
  let db ← given opened
  let after ← ask Disk.path
  require (after = named)
  pure db

def noSidecar : Prog Disk Unit := do
  let sidecar ← queueSidecarExists
  require (sidecar = false)

/-- The part of `try_open_maintenance_queue_probe` behind a name that was found. -/
def openFound (workspaceRoot rootKey : String) (inode : Inode) : Prog Disk QueueProbeAdmission := do
  ensure fun d => d.answers.witness.all (· = inode) = true
  noSidecar
  let file ← retainedSqliteFile
  require (file = inode)
  ensure fun d => d.answers.header = true
  noSidecar
  let db ← protectedSqliteOpen
  ensure fun d => d.answers.autocommit = true
  ensure fun d => d.answers.query = true ∧ d.answers.journalMode = "delete"
  ensure fun d => d.answers.query = true ∧ d.answers.userVersion = 1
  ensure fun d => d.answers.query = true ∧
    d.answers.queueIdentity = some (workspaceRoot, rootKey)
  let version ← queueDataVersion db
  let baseline ← given version
  let rows ← unfinishedExists db
  let pending ← given rows
  let again ← queueDataVersion db
  require (again = some baseline)
  let opened : MaintenanceQueueProbe := ⟨some file, some db, some inode, baseline, pending⟩
  let unchanged ← opened.pathnameUnchanged.both ((do
    let sidecar ← queueSidecarExists
    pure !sidecar : Prog Disk Bool).both queueDeleteHeader)
  pure (if unchanged = true then .ready opened else .unknown)

def tryOpenMaintenanceQueueProbe (workspaceRoot rootKey : String) :
    Prog Disk QueueProbeAdmission := do
  ensure fun d => d.answers.identity = true
  ensure fun d => d.answers.guard = true
  noSidecar
  match ← ask Disk.named with
  | .failed => .fail
  | .absent => do
      ensure fun d => d.answers.witness = none
      let empty : MaintenanceQueueProbe := ⟨none, none, none, 0, false⟩
      let unchanged ← empty.pathnameUnchanged
      pure (if unchanged = true then .absentVirgin empty else .unknown)
  | .found inode regular owned => do
      require (regular = true ∧ owned = true)
      openFound workspaceRoot rootKey inode

def openMaintenanceQueueProbe (workspaceRoot rootKey : String) : Prog Disk QueueProbeAdmission :=
  (tryOpenMaintenanceQueueProbe workspaceRoot rootKey).attempt .unknown

/-! ### What a step leaves -/

section Steps

variable {d d' : Disk} {i : Inode} {inode : Option Inode}

theorem Step.former (h : Step d d') (hi : i ∈ d.former) : i ∈ d'.former := by
  cases h with
  | install _ _ _ => exact List.mem_cons_of_mem _ hi
  | _ => exact hi

theorem Step.consistent (h : Step d d') (hd : d.Consistent) : d'.Consistent := by
  cases h with
  | @install k new pending version =>
      intro j hj
      obtain rfl : k = j := Option.some.inj hj
      exact List.mem_cons_self
  | _ => exact hd

theorem Step.path (h : Step d d') (hknown : ∀ i, inode = some i → i ∈ d.former)
    (hpath : d'.path = inode) : d.path = inode := by
  cases h with
  | install new _ _ => exact absurd (hknown _ hpath.symm) new
  | _ => exact hpath

theorem Step.rows (h : Step d d') (hi : i ∈ d.former) :
    (d.version i = d'.version i ∧ d.pending i = d'.pending i) ∨ d.version i < d'.version i := by
  cases h with
  | @commit k writer active pending =>
      by_cases hk : i = k
      · refine .inr ?_
        show _ < Function.update d.version k _ i
        rw [hk, Function.update_self]
        exact Nat.lt_succ_self _
      · refine .inl ⟨?_, ?_⟩
        · show _ = Function.update d.version k _ i
          rw [Function.update_of_ne hk]
        · show _ = Function.update d.pending k _ i
          rw [Function.update_of_ne hk]
  | @install k new pending version =>
      have hk : i ≠ k := fun heq => new (heq ▸ hi)
      refine .inl ⟨?_, ?_⟩
      · show _ = Function.update d.version k _ i
        rw [Function.update_of_ne hk]
      · show _ = Function.update d.pending k _ i
        rw [Function.update_of_ne hk]
  | _ => exact .inl ⟨rfl, rfl⟩

/-- The only journals are of the file at hand, and there is one at most. -/
def Disk.Single (d : Disk) (i : Inode) : Prop :=
  d.writers = [] ∨ ∃ writer, d.writers = [(i, writer)]

theorem Disk.Single.erase (h : d.Single i) {x : Inode × Nat} (hx : x ∈ d.writers) :
    d.writers.erase x = [] := by
  rcases h with hnone | ⟨writer, hone⟩
  · rw [hnone] at hx; exact absurd hx List.not_mem_nil
  · rw [hone] at hx ⊢
    rw [List.mem_singleton.mp hx, List.erase_cons_head]

/-- While a file has the name, a step begins a transaction, or it ends the one there is; and only
one that ends it changes the rows. -/
theorem Step.single (h : Step d d') (hpath : d.path = some i) (hpath' : d'.path = some i)
    (hi : i ∈ d.former) (hsingle : d.Single i) :
    d'.Single i ∧ (d'.writers = [] ∨
      d.version i = d'.version i ∧ d.pending i = d'.pending i) := by
  cases h with
  | @journal k writer path alone =>
      obtain rfl : i = k := Option.some.inj (hpath.symm.trans path)
      refine ⟨.inr ⟨writer, ?_⟩, .inr ⟨rfl, rfl⟩⟩
      rcases hsingle with hnone | ⟨other, hone⟩
      · show (i, writer) :: d.writers = _
        rw [hnone]
      · refine absurd rfl (alone (i, other) ?_)
        rw [hone]
        exact List.mem_singleton_self _
  | commit active _ | rollback active =>
      exact ⟨.inl (hsingle.erase active), .inl (hsingle.erase active)⟩
  | install new _ _ => exact absurd (Option.some.inj hpath' ▸ hi) new
  | outside _ => exact ⟨hsingle, .inr ⟨rfl, rfl⟩⟩

end Steps

namespace History

variable {w : Nat → Disk} {b m n s t : Nat} {i : Inode} {inode : Option Inode}

theorem former (h : History w) (hi : i ∈ (w s).former) (hle : s ≤ t) : i ∈ (w t).former := by
  induction t, hle using Nat.le_induction with
  | base => exact hi
  | succ t hle ih =>
      rcases h.step t with hsame | hstep
      · rw [hsame]; exact ih
      · exact hstep.former ih

theorem consistent (h : History w) (t : Nat) : (w t).Consistent := by
  induction t with
  | zero => exact h.begins
  | succ t ih =>
      rcases h.step t with hsame | hstep
      · rw [hsame]; exact ih
      · exact hstep.consistent ih

theorem path (h : History w) (hknown : ∀ i, inode = some i → i ∈ (w s).former) (hle : s ≤ t)
    (hpath : (w t).path = inode) : (w s).path = inode := by
  induction t, hle using Nat.le_induction with
  | base => exact hpath
  | succ t hle ih =>
      rcases h.step t with hsame | hstep
      · rw [hsame] at hpath; exact ih hpath
      · exact ih (hstep.path (fun i hi => h.former (hknown i hi) hle) hpath)

theorem rows (h : History w) (hi : i ∈ (w s).former) (hle : s ≤ t) :
    ((w s).version i = (w t).version i ∧ (w s).pending i = (w t).pending i) ∨
      (w s).version i < (w t).version i := by
  induction t, hle using Nat.le_induction with
  | base => exact .inl ⟨rfl, rfl⟩
  | succ t hle ih =>
      rcases h.step t with hsame | hstep
      · rw [hsame]; exact ih
      · rcases ih with ⟨hversion, hpending⟩ | hlt
        · rw [hversion, hpending]; exact hstep.rows (h.former hi hle)
        · refine .inr (Nat.lt_of_lt_of_le hlt ?_)
          rcases hstep.rows (h.former hi hle) with ⟨hversion, -⟩ | hlt'
          · exact Nat.le_of_eq hversion
          · exact Nat.le_of_lt hlt'

theorem version_le (h : History w) (hi : i ∈ (w s).former) (hle : s ≤ t) :
    (w s).version i ≤ (w t).version i := by
  rcases h.rows hi hle with ⟨hversion, -⟩ | hlt
  · exact Nat.le_of_eq hversion
  · exact Nat.le_of_lt hlt

theorem pending_eq (h : History w) (hi : i ∈ (w s).former) (hle : s ≤ t)
    (hversion : (w s).version i = (w t).version i) : (w s).pending i = (w t).pending i := by
  rcases h.rows hi hle with ⟨-, hpending⟩ | hlt
  · exact hpending
  · exact absurd hversion (Nat.ne_of_lt hlt)

/-- **Behind a moment without a journal**, and as long as the file keeps its name, the rows are
those of a moment without one: no transaction that began since has changed them, or the last that
did is over. -/
theorem quiet (h : History w) (hi : i ∈ (w s).former) (hpath : (w n).path = some i)
    (hnone : (w s).writers = []) (hle : s ≤ t) (hn : t ≤ n) :
    (w t).Single i ∧ ∃ k, s ≤ k ∧ k ≤ t ∧ (w k).writers = [] ∧
      (w k).pending i = (w t).pending i := by
  have hhas : ∀ t, s ≤ t → t ≤ n → (w t).path = some i := by
    intro t hle hn
    refine h.path (fun j hj => ?_) hn hpath
    obtain rfl : i = j := Option.some.inj hj
    exact h.former hi hle
  induction t, hle using Nat.le_induction with
  | base => exact ⟨.inl hnone, s, Nat.le_refl s, Nat.le_refl s, hnone, rfl⟩
  | succ t hle ih =>
      obtain ⟨hsingle, k, hsk, hkt, hk, hrows⟩ := ih (Nat.le_of_succ_le hn)
      rcases h.step t with hsame | hstep
      · rw [hsame]; exact ⟨hsingle, k, hsk, Nat.le_succ_of_le hkt, hk, hrows⟩
      · obtain ⟨hsingle', hquiet⟩ := hstep.single (hhas t hle (Nat.le_of_succ_le hn))
          (hhas (t + 1) (Nat.le_succ_of_le hle) hn) (h.former hi hle) hsingle
        refine ⟨hsingle', ?_⟩
        rcases hquiet with hquiet | ⟨-, hkeeps⟩
        · exact ⟨t + 1, Nat.le_succ_of_le hle, Nat.le_refl _, hquiet, rfl⟩
        · exact ⟨k, hsk, Nat.le_succ_of_le hkt, hk, hrows.trans hkeeps⟩

end History

/-! ### What the probe has seen -/

section Seen

open MaintenanceQueueProbe

variable {w : Nat → Disk} {b n v : Nat} {db : Inode} {probe : MaintenanceQueueProbe}

theorem ran_sidecar (h : Ran w b queueSidecarExists n false) :
    Sampled w b n fun d => d.writers = [] := by
  obtain ⟨m, hjournal, hrest⟩ := Calls.ran_either h
  obtain ⟨t, hle, rfl, hnone⟩ := Calls.ran_ask hjournal
  refine ⟨t, hle, Nat.lt_of_lt_of_le (Nat.lt_succ_self t) hrest.le, ?_⟩
  have hwriters := (Bool.or_eq_false_iff.mp hnone.symm).2
  simpa using hwriters

theorem ran_no_sidecar
    (h : Ran w b (do let sidecar ← queueSidecarExists; pure !sidecar) n true) :
    Sampled w b n fun d => d.writers = [] := by
  obtain ⟨m, sidecar, hsidecar, h⟩ := Calls.runs_bind h
  obtain ⟨rfl, hnot⟩ := Calls.runs_done h
  rw [Bool.not_eq_true'] at hnot
  rw [hnot] at hsidecar
  exact ran_sidecar hsidecar

theorem ran_pathname (h : Ran w b probe.pathnameUnchanged n true) :
    Sampled w b n fun d => d.path = probe.inode := by
  obtain ⟨m, hidentity, h⟩ := Calls.ran_both h
  obtain ⟨m', hguard, h⟩ := Calls.ran_both h
  obtain ⟨t, hle, h⟩ := Calls.runs_ask h
  have hb : b ≤ t := Nat.le_trans hidentity.le (Nat.le_trans hguard.le hle)
  refine ⟨t, hb, h.le, ?_⟩
  unfold Disk.named at h
  by_cases hstat : (w t).answers.stat = false
  · rw [if_pos hstat] at h
    cases hinode : probe.inode with
    | none => rw [hinode] at h; exact absurd (Calls.runs_done h).2 Bool.false_ne_true
    | some inode =>
        rw [hinode] at h
        exact absurd (Calls.runs_done h).2 Bool.false_ne_true
  · rw [if_neg hstat] at h
    cases hpath : (w t).path with
    | none =>
        cases hinode : probe.inode with
        | none => rfl
        | some inode =>
            rw [hpath, hinode] at h
            exact absurd (Calls.runs_done h).2 Bool.false_ne_true
    | some named =>
        cases hinode : probe.inode with
        | none =>
            rw [hpath, hinode] at h
            exact absurd (Calls.runs_done h).2 Bool.false_ne_true
        | some inode =>
            rw [hpath, hinode] at h
            by_cases hsame : (w t).answers.regular = true ∧ named = inode
            · rw [hsame.2]
            · simp only [if_neg hsame] at h
              exact absurd (Calls.runs_done h).2 Bool.false_ne_true

theorem ran_query {α : Type} {f : Disk → α} {o : Option α} {a : α}
    (h : Ran w b (ask fun d => if d.answers.query = true then some (f d) else none) n o)
    (ho : o = some a) : Sampled w b n fun d => f d = a := by
  obtain ⟨t, hle, rfl, hv⟩ := Calls.ran_ask h
  refine ⟨t, hle, Nat.lt_succ_self t, ?_⟩
  rw [ho] at hv
  by_cases hquery : (w t).answers.query = true
  · rw [if_pos hquery] at hv; exact (Option.some.inj hv).symm
  · rw [if_neg hquery] at hv; exact absurd hv (Option.some_ne_none a)

theorem ran_version {o : Option Nat} (h : Ran w b (queueDataVersion db) n o) (ho : o = some v) :
    Sampled w b n fun d => d.version db = v :=
  ran_query h ho

theorem ran_unfinished {o : Option Bool} {pending : Bool}
    (h : Ran w b (unfinishedExists db) n o) (ho : o = some pending) :
    Sampled w b n fun d => d.pending db = pending :=
  ran_query h ho

theorem ran_fence_none (h : Ran w b (probe.fenceUnchanged none none) n true) :
    Sampled w b n fun d => d.path = probe.inode := by
  obtain ⟨m, hsame, h⟩ := Calls.ran_both h
  obtain ⟨m', hheader, h⟩ := Calls.ran_both h
  obtain ⟨m'', hpath, h⟩ := Calls.ran_both h
  exact (ran_pathname hpath).mono (Nat.le_trans hsame.le hheader.le) h.le

theorem ran_fence (h : Ran w b (probe.fenceUnchanged (some db) (some v)) n true) :
    ∃ m, Sampled w b m (fun d => d.version db = v) ∧
      Sampled w m n fun d => d.path = probe.inode := by
  obtain ⟨m, hsame, h⟩ := Calls.ran_both h
  obtain ⟨m', hheader, h⟩ := Calls.ran_both h
  obtain ⟨m'', hpath, h⟩ := Calls.ran_both h
  refine ⟨m, ?_, (ran_pathname hpath).mono hheader.le h.le⟩
  obtain ⟨l, hautocommit, hagain⟩ := Calls.ran_both hsame
  obtain ⟨l', again, hversion, hdone⟩ := Calls.runs_bind hagain
  obtain ⟨rfl, heq⟩ := Calls.runs_done hdone
  exact (ran_version hversion (of_decide_eq_true heq)).mono hautocommit.le (Nat.le_refl _)

/-- **What a check that says the queue is clear has seen**, one after the other: no journal, then,
with a connection, the version of the opening where nothing was pending, or no pending row between
two samples of one version; and the name last. -/
inductive Cleared (w : Nat → Disk) (probe : MaintenanceQueueProbe) (b n : Nat) : Prop where
  | absent {m : Nat} (db : probe.db = none) (journal : Sampled w b m fun d => d.writers = [])
      (path : Sampled w m n fun d => d.path = probe.inode)
  | same {db : Inode} {m l : Nat} (hdb : probe.db = some db)
      (journal : Sampled w b m fun d => d.writers = [])
      (version : Sampled w m l fun d => d.version db = probe.baseline)
      (rows : probe.initialPending = false)
      (path : Sampled w l n fun d => d.path = probe.inode)
  | read {db : Inode} {v m l u f : Nat} (hdb : probe.db = some db)
      (journal : Sampled w b m fun d => d.writers = [])
      (version : Sampled w m l fun d => d.version db = v)
      (rows : Sampled w l u fun d => d.pending db = false)
      (again : Sampled w u f fun d => d.version db = v)
      (path : Sampled w f n fun d => d.path = probe.inode)

theorem cleared_of_check (h : Ran w b probe.check n .clear) : Cleared w probe b n := by
  unfold MaintenanceQueueProbe.check at h
  obtain ⟨m, unchanged, hfirst, h⟩ := Calls.runs_bind h
  by_cases hunchanged : unchanged = false
  · rw [if_pos hunchanged] at h; exact absurd (Calls.runs_done h).2 (by decide)
  rw [if_neg hunchanged] at h
  rw [eq_true_of_ne_false hunchanged] at hfirst
  obtain ⟨m₀, hname, hsidecar⟩ := Calls.ran_both hfirst
  have hjournal : Sampled w b m fun d => d.writers = [] :=
    (ran_no_sidecar hsidecar).mono hname.le (Nat.le_refl m)
  cases hdb : probe.db with
  | none =>
      rw [hdb] at h
      obtain ⟨l, same, hfence, h⟩ := Calls.runs_bind h
      obtain ⟨rfl, hclear⟩ := Calls.runs_done h
      by_cases hsame : same = true
      · rw [hsame] at hfence; exact .absent hdb hjournal (ran_fence_none hfence)
      · rw [if_neg hsame] at hclear; exact absurd hclear (by decide)
  | some db =>
      rw [hdb] at h
      obtain ⟨m₁, fit, hfit, h⟩ := Calls.runs_bind h
      by_cases hunfit : fit = false
      · rw [if_pos hunfit] at h; exact absurd (Calls.runs_done h).2 (by decide)
      rw [if_neg hunfit] at h
      obtain ⟨m₂, version, hversion, h⟩ := Calls.runs_bind h
      cases version with
      | none => exact absurd (Calls.runs_done h).2 (by decide)
      | some v =>
          have hsampled := (ran_version hversion rfl).mono hfit.le (Nat.le_refl m₂)
          by_cases hbaseline : v = probe.baseline
          · simp only [if_pos hbaseline] at h
            obtain ⟨l, same, hfence, h⟩ := Calls.runs_bind h
            obtain ⟨rfl, hclear⟩ := Calls.runs_done h
            by_cases hsame : same = false
            · rw [if_pos hsame] at hclear; exact absurd hclear (by decide)
            rw [if_neg hsame] at hclear
            rw [eq_true_of_ne_false hsame] at hfence
            by_cases hpending : probe.initialPending = true
            · rw [if_pos hpending] at hclear; exact absurd hclear (by decide)
            obtain ⟨f, hagain, hpath⟩ := ran_fence hfence
            obtain ⟨t, hle, hlt, -⟩ := hagain
            refine .same hdb hjournal ?_ (Bool.eq_false_iff.mpr hpending)
              (hpath.mono (Nat.le_trans hle (Nat.le_of_lt hlt)) (Nat.le_refl l))
            exact hbaseline ▸ hsampled
          · simp only [if_neg hbaseline] at h
            obtain ⟨m₃, rows, hrows, h⟩ := Calls.runs_bind h
            cases rows with
            | none => exact absurd (Calls.runs_done h).2 (by decide)
            | some pending =>
                obtain ⟨l, same, hfence, h⟩ := Calls.runs_bind h
                obtain ⟨rfl, hclear⟩ := Calls.runs_done h
                by_cases hsame : same = false
                · rw [if_pos hsame] at hclear; exact absurd hclear (by decide)
                rw [if_neg hsame] at hclear
                rw [eq_true_of_ne_false hsame] at hfence
                by_cases hpending : pending = true
                · rw [if_pos hpending] at hclear; exact absurd hclear (by decide)
                obtain ⟨f, hagain, hpath⟩ := ran_fence hfence
                exact .read hdb hjournal hsampled
                  (ran_unfinished hrows (congrArg some (Bool.eq_false_iff.mpr hpending)))
                  hagain hpath

/-- What a probe that was opened stands for: no file had the name, or one that has been seen to
have it, whose rows were read between two samples of the baseline. -/
inductive Admitted (w : Nat → Disk) (probe : MaintenanceQueueProbe) (n : Nat) : Prop where
  | absent (db : probe.db = none) (inode : probe.inode = none)
  | found {i : Inode} {t : Nat} (db : probe.db = some i) (inode : probe.inode = some i)
      (le : t ≤ n) (former : i ∈ (w t).former) (version : (w t).version i = probe.baseline)
      (rows : (w t).pending i = probe.initialPending)

theorem ran_unit {p : Prog Disk Unit} {α : Type} {f : Unit → Prog Disk α} {a : α}
    (h : Ran w b (p >>= f) n a) : ∃ m, b ≤ m ∧ Ran w m (f ()) n a := by
  obtain ⟨m, _, hp, h⟩ := Calls.runs_bind h
  exact ⟨m, hp.le, h⟩

theorem ran_open (h : Ran w b protectedSqliteOpen n db) :
    Sampled w b n fun d => d.path = some db := by
  unfold protectedSqliteOpen at h
  obtain ⟨t, hle, h⟩ := Calls.runs_ask h
  obtain ⟨m, hm, h⟩ := ran_unit h
  obtain ⟨m', hm', h⟩ := ran_unit h
  obtain ⟨t', hle', h⟩ := Calls.runs_ask h
  obtain ⟨i, hi, h⟩ := Calls.runs_given_bind h
  refine ⟨t', by omega, h.le, ?_⟩
  obtain ⟨t'', hle'', h⟩ := Calls.runs_ask h
  obtain ⟨-, h⟩ := Calls.runs_require_bind h
  rw [hi, (Calls.runs_done h).2]

/-- **A connection that was opened**: it is of the file that was found, for the name was still
that file's in the end. -/
theorem admitted_of_found (hw : History w) {root key : String} {inode : Inode}
    {admission : QueueProbeAdmission} (hinode : Sampled w 0 b fun d => d.path = some inode)
    (h : Ran w b (openFound root key inode) n admission) :
    admission = .unknown ∨ ∃ probe, admission = .ready probe ∧ Admitted w probe n := by
  unfold openFound at h
  obtain ⟨m₁, h₁, h⟩ := ran_unit h
  obtain ⟨m₂, h₂, h⟩ := ran_unit h
  obtain ⟨m₃, file, hfile, h⟩ := Calls.runs_bind h
  obtain ⟨-, h⟩ := Calls.runs_require_bind h
  obtain ⟨m₄, h₄, h⟩ := ran_unit h
  obtain ⟨m₅, h₅, h⟩ := ran_unit h
  obtain ⟨m₆, db, hopen, h⟩ := Calls.runs_bind h
  obtain ⟨m₇, h₇, h⟩ := ran_unit h
  obtain ⟨m₈, h₈, h⟩ := ran_unit h
  obtain ⟨m₉, h₉, h⟩ := ran_unit h
  obtain ⟨k, hk, h⟩ := ran_unit h
  obtain ⟨k₁, version, hversion, h⟩ := Calls.runs_bind h
  obtain ⟨baseline, hbaseline, h⟩ := Calls.runs_given_bind h
  obtain ⟨k₂, rows, hrows, h⟩ := Calls.runs_bind h
  obtain ⟨pending, hpending, h⟩ := Calls.runs_given_bind h
  obtain ⟨k₃, again, hagain, h⟩ := Calls.runs_bind h
  obtain ⟨hsame, h⟩ := Calls.runs_require_bind h
  obtain ⟨k₄, unchanged, hlast, h⟩ := Calls.runs_bind h
  obtain ⟨rfl, hready⟩ := Calls.runs_done h
  by_cases hunchanged : unchanged = true
  · rw [if_pos hunchanged] at hready
    refine .inr ⟨_, hready.symm, ?_⟩
    rw [hunchanged] at hlast
    obtain ⟨k₅, hname, -⟩ := Calls.ran_both hlast
    obtain ⟨t₀, -, ht₀, hfound⟩ := hinode
    obtain ⟨t₁, hle₁, hlt₁, hconnected⟩ := ran_open hopen
    obtain ⟨t₂, hle₂, hlt₂, hbase⟩ := ran_version hversion hbaseline
    obtain ⟨t₃, hle₃, hlt₃, hread⟩ := ran_unfinished hrows hpending
    obtain ⟨t₄, hle₄, hlt₄, hbase'⟩ := ran_version hagain hsame
    obtain ⟨t₅, hle₅, hlt₅, hpath⟩ := ran_pathname hname
    have hle := hfile.le
    have hknown : inode ∈ (w t₀).former := hw.consistent t₀ inode hfound
    -- The name was the file's all the time, hence so when the connection was opened.
    have hmid : (w t₁).path = some inode := by
      refine hw.path (fun i hi => ?_) (by omega) hpath
      obtain rfl : inode = i := Option.some.inj hi
      exact hw.former hknown (by omega)
    obtain rfl : inode = db := Option.some.inj (hmid.symm.trans hconnected)
    have hle' := hlast.le
    refine .found rfl rfl (t := t₃) (by omega) (hw.former hknown (by omega)) ?_ hread
    have hlow : (w t₂).version inode ≤ (w t₃).version inode :=
      hw.version_le (hw.former hknown (by omega)) (by omega)
    have hhigh : (w t₃).version inode ≤ (w t₄).version inode :=
      hw.version_le (hw.former hknown (by omega)) (by omega)
    show (w t₃).version inode = baseline
    omega
  · rw [if_neg hunchanged] at hready; exact .inl hready.symm

theorem admitted_of_open (hw : History w) {root key : String} {admission : QueueProbeAdmission}
    (h : Ran w b (openMaintenanceQueueProbe root key) n admission) :
    admission = .unknown ∨
      ∃ probe, (admission = .absentVirgin probe ∨ admission = .ready probe) ∧
        Admitted w probe n := by
  rcases Calls.runs_attempt h with hunknown | h
  · exact .inl hunknown
  unfold tryOpenMaintenanceQueueProbe at h
  obtain ⟨m₁, h₁, h⟩ := ran_unit h
  obtain ⟨m₂, h₂, h⟩ := ran_unit h
  obtain ⟨m₃, h₃, h⟩ := ran_unit h
  obtain ⟨t, hle, h⟩ := Calls.runs_ask h
  unfold Disk.named at h
  by_cases hstat : (w t).answers.stat = false
  · rw [if_pos hstat] at h; cases h
  rw [if_neg hstat] at h
  cases hpath : (w t).path with
  | none =>
      rw [hpath] at h
      obtain ⟨m₄, h₄, h⟩ := ran_unit h
      obtain ⟨m₅, unchanged, h₅, h⟩ := Calls.runs_bind h
      obtain ⟨rfl, hadmission⟩ := Calls.runs_done h
      by_cases hunchanged : unchanged = true
      · rw [if_pos hunchanged] at hadmission
        exact .inr ⟨_, .inl hadmission.symm, .absent rfl rfl⟩
      · rw [if_neg hunchanged] at hadmission; exact .inl hadmission.symm
  | some inode =>
      rw [hpath] at h
      obtain ⟨-, h⟩ := Calls.runs_require_bind h
      have hinode : Sampled w 0 (t + 1) fun d => d.path = some inode :=
        ⟨t, Nat.zero_le t, Nat.lt_succ_self t, hpath⟩
      rcases admitted_of_found hw hinode h with hunknown | ⟨probe, hready, hadmitted⟩
      · exact .inl hunknown
      · exact .inr ⟨probe, .inr hready, hadmitted⟩

end Seen

/-! ### Soundness -/

section Sound

variable {w : Nat → Disk} {b n b' n' : Nat} {probe : MaintenanceQueueProbe}

/-- A check of an admitted probe says the queue is clear of a moment at which it was. -/
theorem Cleared.sound (h : Cleared w probe b n) (hw : History w) {a : Nat}
    (hadmitted : Admitted w probe a) (hab : a ≤ b) :
    Sampled w b n fun d => d.unfinished = false ∧ d.writers = [] ∧ d.path = probe.inode := by
  cases hadmitted with
  | absent hnone hinode =>
      cases h with
      | absent _ journal path =>
          obtain ⟨s, hbs, hsm, hjournal⟩ := journal
          obtain ⟨f, hmf, hfn, hpath⟩ := path
          have hat : (w s).path = probe.inode := by
            refine hw.path (fun i hi => ?_) (by omega) hpath
            rw [hinode] at hi
            exact absurd hi.symm (Option.some_ne_none i)
          refine ⟨s, hbs, by omega, ?_, hjournal, hat⟩
          unfold Disk.unfinished
          rw [hat, hinode]
      | same hdb | read hdb => exact absurd (hnone.symm.trans hdb).symm (Option.some_ne_none _)
  | @found i t hdb hinode hta hformer hversion hrows =>
      -- Wherever the name is the file's later, it is the file's now.
      have hat : ∀ s f, t ≤ s → s ≤ f → (w f).path = probe.inode → (w s).path = some i := by
        intro s f hts hsf hpath
        rw [hinode] at hpath
        refine hw.path (fun j hj => ?_) hsf hpath
        obtain rfl : i = j := Option.some.inj hj
        exact hw.former hformer hts
      have hclear : ∀ s f, t ≤ s → s ≤ f → (w f).path = probe.inode → (w s).pending i = false →
          (w s).writers = [] →
          (w s).unfinished = false ∧ (w s).writers = [] ∧ (w s).path = probe.inode := by
        intro s f hts hsf hpath hpending hjournal
        have hname := hat s f hts hsf hpath
        refine ⟨?_, hjournal, hname.trans hinode.symm⟩
        unfold Disk.unfinished
        rw [hname]
        exact hpending
      cases h with
      | absent hnone => exact absurd (hdb.symm.trans hnone) (Option.some_ne_none i)
      | @same db m l hdb' journal version hinitial path =>
          obtain rfl : i = db := Option.some.inj (hdb.symm.trans hdb')
          obtain ⟨s, hbs, hsm, hjournal⟩ := journal
          obtain ⟨e, hme, hel, hbaseline⟩ := version
          obtain ⟨f, hlf, hfn, hpath⟩ := path
          have hlow := hw.version_le hformer (show t ≤ s by omega)
          have hhigh := hw.version_le (hw.former hformer (show t ≤ s by omega))
            (show s ≤ e by omega)
          have hpending : (w s).pending i = false := by
            rw [← hw.pending_eq hformer (show t ≤ s by omega) (by omega), hrows, hinitial]
          exact ⟨s, hbs, by omega, hclear s f (by omega) (by omega) hpath hpending hjournal⟩
      | @read db v m l u f hdb' journal version hread again path =>
          obtain rfl : i = db := Option.some.inj (hdb.symm.trans hdb')
          obtain ⟨s, hbs, hsm, hjournal⟩ := journal
          obtain ⟨e, hme, hel, hfirst⟩ := version
          obtain ⟨r, hlr, hru, hpending⟩ := hread
          obtain ⟨e', hue, hef, hsecond⟩ := again
          obtain ⟨g, hfg, hgn, hpath⟩ := path
          have hknown : ∀ x, t ≤ x → i ∈ (w x).former := fun x hx => hw.former hformer hx
          have hname : (w e).path = some i := hat e g (by omega) (by omega) hpath
          obtain ⟨-, k, hsk, hke, hquiet, hsame⟩ := hw.quiet (hknown s (by omega)) hname hjournal
            (show s ≤ e by omega) (Nat.le_refl e)
          have hlow := hw.version_le (hknown e (by omega)) (show e ≤ r by omega)
          have hhigh := hw.version_le (hknown r (by omega)) (show r ≤ e' by omega)
          have hstill : (w e).pending i = (w r).pending i :=
            hw.pending_eq (hknown e (by omega)) (by omega) (by omega)
          have hnone : (w k).pending i = false := by rw [hsame, hstill, hpending]
          exact ⟨k, by omega, by omega,
            hclear k g (by omega) (by omega) hpath hnone hquiet⟩

end Sound

/-- **The probe is sound.**  Whatever writers do meanwhile, a check that says the queue is clear
had a moment at which nothing was queued or running, no writer had a journal, and the name was
that of the file the probe was opened on, or still nobody's. -/
theorem check_sound {w : Nat → Disk} (hw : History w) {root key : String}
    {admission : QueueProbeAdmission} {b n b' n' : Nat}
    (hopen : Ran w b (openMaintenanceQueueProbe root key) n admission) (hle : n ≤ b')
    (hcheck : Ran w b' admission.check n' .clear) :
    ∃ probe, (admission = .absentVirgin probe ∨ admission = .ready probe) ∧
      Sampled w b' n' fun d =>
        d.unfinished = false ∧ d.writers = [] ∧ d.path = probe.inode := by
  rcases admitted_of_open hw hopen with rfl | ⟨probe, hadmission, hadmitted⟩
  · exact absurd (Calls.runs_done hcheck).2 (by decide)
  · have hprobe : admission.check = probe.check := by
      rcases hadmission with rfl | rfl <;> rfl
    rw [hprobe] at hcheck
    exact ⟨probe, hadmission, (cleared_of_check hcheck).sound hw hadmitted hle⟩

/-! ### A request that is served meanwhile -/

section Served

/-- A queue with one file. -/
private def queue (writers : List (Inode × Nat)) (pending : Bool) (version : Nat) : Disk :=
  ⟨some (1, 2), [(1, 2)], writers, fun _ => pending, fun _ => version,
    ⟨true, true, true, true, true, false, false, true, true, true, true, "delete", 1,
      some ("/w", "k"), none⟩⟩

/-- The probe is open at `n`; then a writer begins, and commits. -/
private def servedAt (n t : Nat) : Disk :=
  if t < n then queue [] true 0 else if t = n then queue [((1, 2), 7)] true 0 else
    { queue [] true 0 with
      pending := Function.update (fun _ => true) (1, 2) false
      version := Function.update (fun _ => 0) (1, 2) 1 }

private theorem history_servedAt (n : Nat) : History (servedAt n) := by
  have hformer (t : ℕ) :
      (servedAt n t).path = some (1, 2) ∧ (1, 2) ∈ (servedAt n t).former := by
    unfold servedAt
    split_ifs <;> exact ⟨rfl, List.mem_singleton_self _⟩
  refine ⟨fun i hi => ?_, fun t => ?_⟩
  · obtain rfl : (1, 2) = i := Option.some.inj ((hformer 0).1.symm.trans hi)
    exact (hformer 0).2
  · unfold servedAt
    rcases Nat.lt_trichotomy t n with hlt | rfl | hgt
    · rw [if_pos hlt]
      by_cases hnext : t + 1 < n
      · exact .inl (if_pos hnext)
      · rw [if_neg hnext, if_pos (by omega)]
        exact .inr (.journal rfl fun x hx => absurd hx List.not_mem_nil)
    · rw [if_neg (by omega), if_neg (by omega), if_neg (by omega), if_pos rfl]
      exact .inr (.commit (d := queue [((1, 2), 7)] true 0) List.mem_cons_self false)
    · rw [if_neg (by omega), if_neg (by omega), if_neg (by omega), if_neg (by omega)]
      exact .inl rfl

end Served

/-- The request that was queued is served before the check, which reads the rows once more. -/
theorem check_sound_served : ∃ n n' probe, History (servedAt n) ∧
    Ran (servedAt n) 0 (openMaintenanceQueueProbe "/w" "k") n (.ready probe) ∧
    probe.initialPending = true ∧ (servedAt n n).writers = [((1, 2), 7)] ∧
    (servedAt n (n + 1)).version (1, 2) ≠ probe.baseline ∧
    Sampled (servedAt n) (n + 1) n' fun d =>
      d.unfinished = false ∧ d.writers = [] ∧ d.path = some (1, 2) := by
  obtain ⟨n, hopen⟩ := Calls.ran_of_solo (s := queue [] true 0)
    (p := openMaintenanceQueueProbe "/w" "k")
    (a := .ready ⟨some (1, 2), some (1, 2), some (1, 2), 0, true⟩) rfl 0
  have hbefore : ∀ t, 0 ≤ t → t < n → servedAt n t = queue [] true 0 := fun t _ ht => if_pos ht
  have hafter : ∀ t, n + 1 ≤ t → servedAt n t = servedAt n (n + 1) := fun t ht => by
    unfold servedAt
    rw [if_neg (by omega), if_neg (by omega), if_neg (by omega), if_neg (by omega)]
  have hlast : servedAt n (n + 1) = _ := (if_neg (by omega)).trans (if_neg (by omega))
  obtain ⟨n', hcheck⟩ := Calls.ran_of_solo (s := servedAt n (n + 1))
    (p := QueueProbeAdmission.check (.ready ⟨some (1, 2), some (1, 2), some (1, 2), 0, true⟩))
    (a := .clear) (by rw [hlast]; rfl) (n + 1)
  have hopened := hopen.congr hbefore
  obtain ⟨probe, hprobe, hclear⟩ := check_sound (history_servedAt n) hopened (Nat.le_succ n)
    (hcheck.congr fun t ht _ => hafter t ht)
  rcases hprobe with hvirgin | hready
  · exact absurd hvirgin QueueProbeAdmission.noConfusion
  · obtain rfl := QueueProbeAdmission.ready.inj hready
    refine ⟨n, n', _, history_servedAt n, hopened, rfl, ?_, ?_, hclear⟩
    · unfold servedAt
      rw [if_neg (by omega), if_pos rfl]
      rfl
    · rw [hlast]; decide

end Baleyg.Store.Probe
