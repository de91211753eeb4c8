/-
Automatic collection of abandoned indexes.

Whoever opens, leads or queues to an index holds its use lock shared, or exclusively to
make it anew, and may then do anything to its directory.  The collector takes the lock of
a candidate exclusively and without waiting, reads everything it decides by under it, and
unlinks under it; the lock's own path goes last.  The check of the lock's path after each
`flock` makes the lock one lock for its pathname, so it is one value here.

One scan at a time holds `gc-schedule.lock`, from the look at the stamp to its end.  The
stamp is renamed into place and synced before the first candidate is opened, so a scan
that ended has left it durable; a scan that stopped early has left it or not, and either
way the next one a day later is a new attempt.

`stop` is every way a scan ends early: an error, a yield to a publisher, a crash.
`powerLoss` takes everybody down, may take back what was not synced, and leaves any files.
-/
import Baleyg.Lib.Runs
import Baleyg.Topology.Inspection

namespace Baleyg.Topology

/-! ### The world -/

/-- `gc-last-run`. -/
inductive Stamp where
  | missing
  | malformed
  | at (time : Int)
  deriving DecidableEq, Repr

/-- The use lock of an index: no file, shared by these users, or exclusive. -/
inductive UseLock where
  | absent
  | shared (users : List Nat)
  | taken (user : Nat)
  | collecting
  deriving DecidableEq, Repr

/-- The files a removal takes away, in this order. -/
inductive Part where
  | index
  | requests
  | leader
  deriving DecidableEq, Repr

structure Seen where
  dir : IndexDir
  roots : Roots
  moves : Nat

/-- Where a scan stands, with the entries it has not come to. -/
inductive Phase where
  | due
  | stamped
  | scanning (entries : List String)
  | locked (entries : List String) (key : String)
  | admitted (entries : List String) (key : String) (seen : Seen)
  | unlinking (entries : List String) (key : String) (seen : Seen) (left : List Part)
  | removed (entries : List String) (key : String)

/-- A scan: the process that makes it, its clock and where it stands. -/
structure Scan where
  process : Nat
  now : Int
  phase : Phase

structure World where
  dirs : String → Option IndexDir
  locks : String → UseLock
  roots : Roots
  /-- How often a root was moved, made or removed. -/
  moves : Nat
  stamp : Stamp
  durable : Stamp
  /-- The scan that holds `gc-schedule.lock`. -/
  scan : Option Scan
  /-- The clocks of the scans that ended, the last one first. -/
  completed : List Int

/-- `24 * 60 * 60`. -/
def day : Int := 86400

/-- `lower_hex(key, 64)`. -/
def isIndexKey (key : String) : Bool := key.utf8ByteSize == 64 && key.toList.all isLowerHex

/-- The stamp lets a scan begin: there is none, or it is a day old. -/
def Stamp.Due (stamp : Stamp) (now : Int) : Prop :=
  stamp = .missing ∨ ∃ last, stamp = .at last ∧ 0 < last ∧ last ≤ now ∧ day ≤ now - last

namespace IndexDir

def fresh : IndexDir := ⟨true, none, none, none, []⟩

def expected (dir : IndexDir) : List String :=
  ["index.db", "leader.lock"] ++ (if dir.requests.isSome then ["requests.db"] else [])

def parts (dir : IndexDir) : List Part :=
  [.index] ++ (if dir.requests.isSome then [.requests] else []) ++ [.leader]

def unlinkFile (dir : IndexDir) : Part → IndexDir
  | .index => { dir with index := none }
  | .requests => { dir with requests := none }
  | .leader => { dir with leader := none }

end IndexDir

namespace UseLock

/-- The user may open and change what the lock protects. -/
def HeldBy (lock : UseLock) (user : Nat) : Prop :=
  lock = .taken user ∨ ∃ users, lock = .shared users ∧ user ∈ users

end UseLock

namespace World

def setDir (w : World) (key : String) (dir : Option IndexDir) : World :=
  { w with dirs := Function.update w.dirs key dir }

def setLock (w : World) (key : String) (lock : UseLock) : World :=
  { w with locks := Function.update w.locks key lock }

/-- The scan goes on to another phase. -/
def goes (w : World) (s : Scan) (phase : Phase) : World :=
  { w with scan := some { s with phase := phase } }

end World

/-- The key of the candidate whose lock a scan holds. -/
def Phase.key : Phase → Option String
  | .locked _ key | .admitted _ key _ | .unlinking _ key _ _ | .removed _ key => some key
  | _ => none

/-- The locks after the scan let its candidate go. -/
def World.releases (w : World) (phase : Phase) : String → UseLock :=
  match phase.key with
  | some key => Function.update w.locks key (.shared [])
  | none => w.locks

/-! ### Steps -/

inductive Actor where
  | user
  | system
  | collector
  deriving DecidableEq, Repr

/-- One step.  `current` is the root key of each process. -/
inductive Step (b : Build) (current : Nat → String) : Actor → World → World → Prop where
  /-- `prepare_index` comes before any lock. -/
  | prepare {w : World} (key : String) (habsent : w.dirs key = none) :
      Step b current .user w (w.setDir key (some .fresh))
  | makeLock {w : World} (key : String) (habsent : w.locks key = .absent) :
      Step b current .user w (w.setLock key (.shared []))
  | enter {w : World} (user : Nat) (key : String) (users : List Nat)
      (hshared : w.locks key = .shared users) :
      Step b current .user w (w.setLock key (.shared (user :: users)))
  | take {w : World} (user : Nat) (key : String) (hfree : w.locks key = .shared []) :
      Step b current .user w (w.setLock key (.taken user))
  | downgrade {w : World} (user : Nat) (key : String) (htaken : w.locks key = .taken user) :
      Step b current .user w (w.setLock key (.shared [user]))
  | leave {w : World} (user : Nat) (key : String) (users : List Nat)
      (hshared : w.locks key = .shared users) :
      Step b current .user w (w.setLock key (.shared (users.erase user)))
  /-- Whatever a user does to an index it has open, requests and leader lock included. -/
  | use {w : World} (user : Nat) (key : String) (dir : Option IndexDir)
      (hheld : (w.locks key).HeldBy user) : Step b current .user w (w.setDir key dir)
  | move {w : World} (roots : Roots) :
      Step b current .system w { w with roots := roots, moves := w.moves + 1 }
  | begin {w : World} (process : Nat) (now : Int) (hfree : w.scan = none) (hpositive : 0 < now)
      (htrusted : now ≤ maxTrustedSeconds) (hdue : w.stamp.Due now) :
      Step b current .collector w { w with scan := some ⟨process, now, .due⟩ }
  | rename {w : World} {s : Scan} (hscan : w.scan = some s) (hphase : s.phase = .due) :
      Step b current .collector w { w.goes s .stamped with stamp := .at s.now }
  | sync {w : World} {s : Scan} (entries : List String) (hscan : w.scan = some s)
      (hphase : s.phase = .stamped) :
      Step b current .collector w { w.goes s (.scanning entries) with durable := w.stamp }
  /-- An entry that is no key, is the scan's own, or is busy. -/
  | pass {w : World} {s : Scan} {entry : String} {entries : List String}
      (hscan : w.scan = some s) (hphase : s.phase = .scanning (entry :: entries)) :
      Step b current .collector w (w.goes s (.scanning entries))
  | lock {w : World} {s : Scan} {key : String} {entries : List String} (hscan : w.scan = some s)
      (hphase : s.phase = .scanning (key :: entries)) (hkey : isIndexKey key = true)
      (hother : key ≠ current s.process) (hfree : w.locks key = .shared []) :
      Step b current .collector w ((w.setLock key .collecting).goes s (.locked entries key))
  | approve {w : World} {s : Scan} {key : String} {entries : List String} {dir : IndexDir}
      (hscan : w.scan = some s) (hphase : s.phase = .locked entries key)
      (hdir : w.dirs key = some dir) (hadmitted : admitCandidate b s.now w.roots key dir = .ok ()) :
      Step b current .collector w (w.goes s (.admitted entries key ⟨dir, w.roots, w.moves⟩))
  | recheck {w : World} {s : Scan} {key : String} {entries : List String} {seen : Seen}
      {dir : IndexDir} (hscan : w.scan = some s) (hphase : s.phase = .admitted entries key seen)
      (hdir : w.dirs key = some dir) (hsecure : dir.secure = true)
      (hnames : dir.names = seen.dir.expected) :
      Step b current .collector w (w.goes s (.unlinking entries key seen seen.dir.parts))
  /-- The candidate is let go before anything of it is unlinked. -/
  | decline {w : World} {s : Scan} {key : String} {entries : List String}
      (hscan : w.scan = some s)
      (hphase : s.phase = .locked entries key ∨ ∃ seen, s.phase = .admitted entries key seen ∨
        s.phase = .unlinking entries key seen seen.dir.parts) :
      Step b current .collector w ((w.setLock key (.shared [])).goes s (.scanning entries))
  | unlink {w : World} {s : Scan} {key : String} {entries : List String} {seen : Seen}
      {part : Part} {left : List Part} {dir : IndexDir} (hscan : w.scan = some s)
      (hphase : s.phase = .unlinking entries key seen (part :: left))
      (hdir : w.dirs key = some dir) :
      Step b current .collector w
        ((w.setDir key (some (dir.unlinkFile part))).goes s (.unlinking entries key seen left))
  | removeDir {w : World} {s : Scan} {key : String} {entries : List String} {seen : Seen}
      {dir : IndexDir} (hscan : w.scan = some s)
      (hphase : s.phase = .unlinking entries key seen []) (hdir : w.dirs key = some dir)
      (hempty : dir.names = []) :
      Step b current .collector w ((w.setDir key none).goes s (.removed entries key))
  | removeLock {w : World} {s : Scan} {key : String} {entries : List String}
      (hscan : w.scan = some s) (hphase : s.phase = .removed entries key) :
      Step b current .collector w ((w.setLock key .absent).goes s (.scanning entries))
  | finish {w : World} {s : Scan} (hscan : w.scan = some s) (hphase : s.phase = .scanning []) :
      Step b current .collector w { w with scan := none, completed := s.now :: w.completed }
  | stop {w : World} {s : Scan} (hscan : w.scan = some s) :
      Step b current .collector w { w with scan := none, locks := w.releases s.phase }
  | powerLoss {w : World} (dirs : String → Option IndexDir) (locks : String → UseLock)
      (stamp : Stamp) (hfree : ∀ key, locks key = .absent ∨ locks key = .shared [])
      (hstamp : stamp = w.stamp ∨ stamp = w.durable) :
      Step b current .system w
        { w with dirs := dirs, locks := locks, stamp := stamp, durable := stamp, scan := none }

/-- Nobody is at work yet; the files are as they may be. -/
structure Starts (w : World) : Prop where
  scan : w.scan = none
  locks : ∀ key, w.locks key = .absent ∨ w.locks key = .shared []
  completed : w.completed = []

/-! ### The lock guards the candidate -/

structure IndexDir.Within (dir was : IndexDir) : Prop where
  index : dir.index = none ∨ dir.index = was.index
  requests : dir.requests = none ∨ dir.requests = was.requests
  leader : dir.leader = none ∨ dir.leader = was.leader
  others : dir.others = was.others

theorem IndexDir.Within.refl (dir : IndexDir) : dir.Within dir :=
  ⟨.inr rfl, .inr rfl, .inr rfl, rfl⟩

theorem IndexDir.Within.unlinkFile {dir was : IndexDir} (h : dir.Within was) (part : Part) :
    (dir.unlinkFile part).Within was := by
  cases part with
  | index => exact ⟨.inl rfl, h.requests, h.leader, h.others⟩
  | requests => exact ⟨h.index, .inl rfl, h.leader, h.others⟩
  | leader => exact ⟨h.index, h.requests, .inl rfl, h.others⟩

/-- An admission that was right when it was given, and still is if no root was touched. -/
structure Seen.Sound (b : Build) (now : Int) (key : String) (w : World) (seen : Seen) : Prop where
  removable : Removable b now seen.roots key seen.dir
  moves : seen.moves ≤ w.moves
  roots : seen.moves = w.moves → seen.roots = w.roots

/-- What holds of the candidate a scan has come to. -/
def Phase.Safe (b : Build) (own : String) (now : Int) (w : World) : Phase → Prop
  | .locked _ key => w.locks key = .collecting ∧ key ≠ own
  | .admitted _ key seen =>
      w.locks key = .collecting ∧ key ≠ own ∧ seen.Sound b now key w ∧ w.dirs key = some seen.dir
  | .unlinking _ key seen _ =>
      w.locks key = .collecting ∧ key ≠ own ∧ seen.Sound b now key w ∧
        ∃ dir, w.dirs key = some dir ∧ dir.Within seen.dir
  | _ => True

/-- What everybody but the scan leaves alone: the lock it holds and the files under it. -/
structure Spares (w w' : World) : Prop where
  locks : ∀ key, w.locks key = .collecting → w'.locks key = .collecting
  dirs : ∀ key dir, w.locks key = .collecting → w.dirs key = some dir → w'.dirs key = some dir
  moves : w.moves ≤ w'.moves
  roots : w.moves = w'.moves → w'.roots = w.roots

section Guarded

variable {b : Build} {current : Nat → String} {w w' : World} {own : String} {now : Int}
  {phase : Phase} {key : String}

theorem Seen.Sound.spared {seen : Seen} (h : seen.Sound b now key w) (hw : Spares w w') :
    seen.Sound b now key w' := by
  refine ⟨h.removable, h.moves.trans hw.moves, fun heq => ?_⟩
  have hsame : w.moves = w'.moves := by
    have hle := h.moves
    have hle' := hw.moves
    omega
  rw [hw.roots hsame]
  exact h.roots (heq.trans hsame.symm)

theorem Phase.Safe.spared (h : phase.Safe b own now w) (hw : Spares w w') :
    phase.Safe b own now w' := by
  cases phase with
  | due | stamped | scanning | removed => trivial
  | locked entries key => exact ⟨hw.locks key h.1, h.2⟩
  | admitted entries key seen =>
      obtain ⟨hlock, hown, hsound, hdir⟩ := h
      exact ⟨hw.locks key hlock, hown, hsound.spared hw, hw.dirs key _ hlock hdir⟩
  | unlinking entries key seen left =>
      obtain ⟨hlock, hown, hsound, dir, hdir, hwithin⟩ := h
      exact ⟨hw.locks key hlock, hown, hsound.spared hw, dir, hw.dirs key dir hlock hdir, hwithin⟩

theorem spares_setLock {lock : UseLock} (h : w.locks key ≠ .collecting) :
    Spares w (w.setLock key lock) := by
  refine ⟨fun other hother => ?_, fun _ _ _ h => h, Nat.le_refl _, fun _ => rfl⟩
  have hne : other ≠ key := by
    rintro rfl
    exact h hother
  exact (Function.update_of_ne hne _ _).trans hother

theorem spares_setDir {dir : Option IndexDir}
    (h : w.locks key = .collecting → w.dirs key = none) : Spares w (w.setDir key dir) := by
  refine ⟨fun _ h => h, fun other found hother hfound => ?_, Nat.le_refl _, fun _ => rfl⟩
  have hne : other ≠ key := by
    rintro rfl
    rw [h hother] at hfound
    cases hfound
  exact (Function.update_of_ne hne _ _).trans hfound

/-- **Nobody touches what a scan has locked.** -/
theorem Step.spares (h : Step b current .user w w') : Spares w w' ∧ w'.scan = w.scan := by
  cases h with
  | prepare key habsent => exact ⟨spares_setDir fun _ => habsent, rfl⟩
  | makeLock key habsent =>
      refine ⟨spares_setLock ?_, rfl⟩
      rw [habsent]
      exact UseLock.noConfusion
  | enter user key users hshared | leave user key users hshared =>
      refine ⟨spares_setLock ?_, rfl⟩
      rw [hshared]
      exact UseLock.noConfusion
  | take user key hfree =>
      refine ⟨spares_setLock ?_, rfl⟩
      rw [hfree]
      exact UseLock.noConfusion
  | downgrade user key htaken =>
      refine ⟨spares_setLock ?_, rfl⟩
      rw [htaken]
      exact UseLock.noConfusion
  | use user key dir hheld =>
      refine ⟨spares_setDir fun hlock => ?_, rfl⟩
      rcases hheld with htaken | ⟨users, hshared, -⟩
      · rw [hlock] at htaken; cases htaken
      · rw [hlock] at hshared; cases hshared

def Guarded (b : Build) (current : Nat → String) (w : World) : Prop :=
  ∀ s, w.scan = some s → s.phase.Safe b (current s.process) s.now w

theorem guarded_goes {s : Scan} {phase : Phase} (h : w'.scan = some { s with phase := phase })
    (hsafe : phase.Safe b (current s.process) s.now w') : Guarded b current w' := by
  intro s' hs'
  rw [h] at hs'
  cases hs'
  exact hsafe

theorem guarded_none (h : w'.scan = none) : Guarded b current w' := by
  intro s hs
  rw [h] at hs
  cases hs

/-- **The guard, over one step.** -/
theorem Guarded.step {actor : Actor} (hw : Guarded b current w)
    (h : Step b current actor w w') : Guarded b current w' := by
  cases actor with
  | user =>
      obtain ⟨hspares, hscan⟩ := h.spares
      intro s hs
      rw [hscan] at hs
      exact (hw s hs).spared hspares
  | system =>
      cases h with
      | move roots =>
          refine fun s hs => (hw s hs).spared ⟨fun _ h => h, fun _ _ _ h => h, Nat.le_succ _, ?_⟩
          exact fun heq => absurd heq (Nat.ne_of_lt (Nat.lt_succ_self _))
      | powerLoss dirs locks stamp hfree hstamp => exact guarded_none rfl
  | collector =>
      cases h with
      | begin process now hfree hpositive htrusted hdue =>
          intro s hs
          cases hs
          trivial
      | rename | sync | pass | decline | removeDir | removeLock => exact guarded_goes rfl trivial
      | lock hscan hphase hkey hother hfree =>
          exact guarded_goes rfl ⟨Function.update_self _ _ _, hother⟩
      | approve hscan hphase hdir hadmitted =>
          have hsafe := hw _ hscan
          rw [hphase] at hsafe
          exact guarded_goes rfl ⟨hsafe.1, hsafe.2,
            ⟨removable_of_admitted hadmitted, Nat.le_refl _, fun _ => rfl⟩, hdir⟩
      | @recheck _ s key entries seen dir hscan hphase hdir hsecure hnames =>
          have hsafe := hw _ hscan
          rw [hphase] at hsafe
          obtain ⟨hlock, hown, hsound, hseen⟩ := hsafe
          exact guarded_goes rfl ⟨hlock, hown,
            ⟨hsound.removable, hsound.moves, hsound.roots⟩, seen.dir, hseen, .refl _⟩
      | @unlink _ s key entries seen part left dir hscan hphase hdir =>
          have hsafe := hw _ hscan
          rw [hphase] at hsafe
          obtain ⟨hlock, hown, hsound, found, hfound, hwithin⟩ := hsafe
          rw [hdir] at hfound
          cases hfound
          exact guarded_goes rfl ⟨hlock, hown, ⟨hsound.removable, hsound.moves, hsound.roots⟩,
            dir.unlinkFile part, Function.update_self _ _ _, hwithin.unlinkFile part⟩
      | finish | stop => exact guarded_none rfl

end Guarded

/-! ### The stamp fences the scans -/

/-- The stamp of the scan is in place and synced. -/
def Phase.past : Phase → Bool
  | .due | .stamped => false
  | _ => true

/-- How far the stamp of a scan has come. -/
structure Phase.Fence (now : Int) (w : World) (phase : Phase) : Prop where
  stamped : phase = .stamped → w.stamp = .at now
  past : phase.past = true → w.stamp = .at now ∧ w.durable = .at now

/-- The stamp knows of a scan at that time, or a later one. -/
def Stamp.Knows (stamp : Stamp) (time : Int) : Prop := ∃ last, stamp = .at last ∧ time ≤ last

/-- Every scan that ended is on the stamp, and a scan under way is a day after it. -/
structure Fenced (w : World) : Prop where
  spaced : w.completed.Pairwise fun later earlier => earlier + day ≤ later
  stamp : ∀ time ∈ w.completed, w.stamp.Knows time
  durable : ∀ time ∈ w.completed, w.durable.Knows time
  due : ∀ s, w.scan = some s → ∀ time ∈ w.completed, time + day ≤ s.now
  fence : ∀ s, w.scan = some s → s.phase.Fence s.now w

section Fenced

variable {b : Build} {current : Nat → String} {w w' : World}

theorem Fenced.of_same (h : Fenced w) (hstamp : w'.stamp = w.stamp)
    (hdurable : w'.durable = w.durable) (hcompleted : w'.completed = w.completed)
    (hscan : ∀ s', w'.scan = some s' → ∃ s, w.scan = some s ∧ s'.now = s.now ∧
      (s.phase.Fence s.now w → s'.phase.Fence s.now w')) : Fenced w' := by
  refine ⟨hcompleted ▸ h.spaced, ?_, ?_, ?_, ?_⟩
  · rw [hcompleted, hstamp]; exact h.stamp
  · rw [hcompleted, hdurable]; exact h.durable
  · intro s' hs'
    obtain ⟨s, hs, hnow, -⟩ := hscan s' hs'
    rw [hcompleted, hnow]
    exact h.due s hs
  · intro s' hs'
    obtain ⟨s, hs, hnow, hfence⟩ := hscan s' hs'
    rw [hnow]
    exact hfence (h.fence s hs)

theorem Fenced.of_goes (h : Fenced w) {s : Scan} {phase : Phase} (hs : w.scan = some s)
    (hpast : s.phase.past = true) (hscan : w'.scan = some { s with phase := phase })
    (hphase : phase.past = true) (hstamp : w'.stamp = w.stamp)
    (hdurable : w'.durable = w.durable) (hcompleted : w'.completed = w.completed) :
    Fenced w' := by
  refine h.of_same hstamp hdurable hcompleted fun s' hs' => ?_
  rw [hscan] at hs'
  cases hs'
  refine ⟨s, hs, rfl, fun hfence => ⟨fun hstamped => ?_, fun _ => ?_⟩⟩
  · simp only at hstamped
    rw [hstamped] at hphase
    cases hphase
  · rw [hstamp, hdurable]; exact hfence.past hpast

/-- **The fence, over one step.** -/
theorem Fenced.step {actor : Actor} (hw : Fenced w) (h : Step b current actor w w') :
    Fenced w' := by
  have hkept : ∀ u : World, u.stamp = w.stamp → u.durable = w.durable →
      u.completed = w.completed → u.scan = w.scan → Fenced u := by
    intro u hstamp hdurable hcompleted hscan
    refine hw.of_same hstamp hdurable hcompleted fun s hs => ?_
    rw [hscan] at hs
    refine ⟨s, hs, rfl, fun hfence => ⟨fun hstamped => ?_, fun hpast => ?_⟩⟩
    · exact hstamp.trans (hfence.stamped hstamped)
    · exact ⟨hstamp.trans (hfence.past hpast).1, hdurable.trans (hfence.past hpast).2⟩
  cases h with
  | prepare | makeLock | enter | take | downgrade | leave | use | move =>
      exact hkept _ rfl rfl rfl rfl
  | begin process now hfree hpositive htrusted hdue =>
      refine ⟨hw.spaced, hw.stamp, hw.durable, fun s hs time htime => ?_, fun s hs => ?_⟩
      · cases hs
        obtain ⟨last, hlast, hle⟩ := hw.stamp time htime
        rcases hdue with hmissing | ⟨last', hlast', -, -, hold⟩
        · rw [hmissing] at hlast; cases hlast
        · rw [hlast] at hlast'
          cases hlast'
          show time + day ≤ now
          omega
      · cases hs; exact ⟨Phase.noConfusion, Bool.noConfusion⟩
  | @rename _ s hscan hphase =>
      refine ⟨hw.spaced, fun time htime => ?_, hw.durable, fun s' hs' => ?_, fun s' hs' => ?_⟩
      · have hdue := hw.due s hscan time htime
        refine ⟨s.now, rfl, ?_⟩
        unfold day at hdue
        omega
      · cases hs'
        exact hw.due s hscan
      · cases hs'
        exact ⟨fun _ => rfl, Bool.noConfusion⟩
  | @sync _ s entries hscan hphase =>
      have hstamp := (hw.fence s hscan).stamped hphase
      refine ⟨hw.spaced, hw.stamp, hw.stamp, fun s' hs' => ?_, fun s' hs' => ?_⟩
      · cases hs'
        exact hw.due s hscan
      · cases hs'
        exact ⟨fun _ => hstamp, fun _ => ⟨hstamp, hstamp⟩⟩
  | pass hscan hphase | lock hscan hphase hkey hother hfree
  | approve hscan hphase hdir hadmitted | recheck hscan hphase hdir hsecure hnames
  | unlink hscan hphase hdir | removeDir hscan hphase hdir hempty | removeLock hscan hphase =>
      exact hw.of_goes hscan (by rw [hphase]; rfl) rfl rfl rfl rfl rfl
  | decline hscan hphase =>
      refine hw.of_goes hscan ?_ rfl rfl rfl rfl rfl
      rcases hphase with hphase | ⟨seen, hphase | hphase⟩ <;> rw [hphase] <;> rfl
  | @finish _ s hscan hphase =>
      obtain ⟨hstamp, hdurable⟩ := (hw.fence s hscan).past (by rw [hphase]; rfl)
      refine ⟨List.pairwise_cons.mpr ⟨hw.due s hscan, hw.spaced⟩, fun time htime => ?_,
        fun time htime => ?_, fun s' hs' => ?_, fun s' hs' => ?_⟩
      · rcases List.mem_cons.mp htime with rfl | htime
        · exact ⟨s.now, hstamp, Int.le_refl _⟩
        · exact hw.stamp time htime
      · rcases List.mem_cons.mp htime with rfl | htime
        · exact ⟨s.now, hdurable, Int.le_refl _⟩
        · exact hw.durable time htime
      · cases hs'
      · cases hs'
  | stop hscan =>
      refine ⟨hw.spaced, hw.stamp, hw.durable, fun s hs => ?_, fun s hs => ?_⟩
      · cases hs
      · cases hs
  | powerLoss dirs locks stamp hfree hstamp =>
      have hknows : ∀ time ∈ w.completed, stamp.Knows time := by
        intro time htime
        rcases hstamp with rfl | rfl
        · exact hw.stamp time htime
        · exact hw.durable time htime
      refine ⟨hw.spaced, hknows, hknows, fun s hs => ?_, fun s hs => ?_⟩
      · cases hs
      · cases hs

end Fenced

/-! ### Only abandoned indexes are collected -/

def Reached (b : Build) (current : Nat → String) : World → Prop :=
  Runs.Reachable Starts fun w w' => ∃ actor, Step b current actor w w'

section Collected

variable {b : Build} {current : Nat → String} {w w' : World}

theorem Reached.guarded (h : Reached b current w) : Guarded b current w := by
  refine Runs.Reachable.keeps (I := Guarded b current) (fun s hs => guarded_none hs.scan) ?_ h
  rintro s t ⟨actor, hstep⟩ hs
  exact hs.step hstep

theorem Reached.fenced (h : Reached b current w) : Fenced w := by
  refine Runs.Reachable.keeps (I := Fenced) (fun s hs => ?_) ?_ h
  · refine ⟨?_, fun time htime => ?_, fun time htime => ?_, fun s' hs' => ?_, fun s' hs' => ?_⟩
    · rw [hs.completed]; exact List.Pairwise.nil
    · rw [hs.completed] at htime; cases htime
    · rw [hs.completed] at htime; cases htime
    · rw [hs.scan] at hs'
      cases hs'
    · rw [hs.scan] at hs'
      cases hs'
  · rintro s t ⟨actor, hstep⟩ hs
    exact hs.step hstep

/-- What stands when the collector takes something away from a directory. -/
structure Collects (b : Build) (current : Nat → String) (w : World) (key : String) (s : Scan)
    (seen : Seen) (dir : IndexDir) : Prop where
  scan : w.scan = some s
  phase : ∃ entries left, s.phase = .unlinking entries key seen left
  locked : w.locks key = .collecting
  other : key ≠ current s.process
  within : w.dirs key = some dir ∧ dir.Within seen.dir
  removable : Removable b s.now seen.roots key seen.dir
  unmoved : seen.moves = w.moves → Removable b s.now w.roots key seen.dir

theorem collects_of_unlinking (hw : Guarded b current w) {s : Scan} {key : String}
    {entries : List String} {seen : Seen} {left : List Part} (hscan : w.scan = some s)
    (hphase : s.phase = .unlinking entries key seen left) :
    ∃ s seen dir, Collects b current w key s seen dir := by
  have hsafe := hw _ hscan
  rw [hphase] at hsafe
  obtain ⟨hlock, hown, hsound, dir, hdir, hwithin⟩ := hsafe
  exact ⟨s, seen, dir, hscan, ⟨entries, left, hphase⟩, hlock, hown, ⟨hdir, hwithin⟩,
    hsound.removable, fun hsame => hsound.roots hsame ▸ hsound.removable⟩

/-- **Automatic collection deletes only abandoned indexes.**  Whatever a scan takes away it
takes under the exclusive lock of that index, which is not its own; what it takes was, under
this lock, an index of the exact current shape that nobody is going to open again.  And the
scans that end are a day apart. -/
theorem collection_deletes_only_abandoned (b : Build) (current : Nat → String) (w : World)
    (hw : Reached b current w) :
    (∀ (w' : World) (key : String), Step b current .collector w w' → w'.dirs key ≠ w.dirs key →
      ∃ s seen dir, Collects b current w key s seen dir) ∧
    w.completed.Pairwise fun later earlier => earlier + day ≤ later := by
  refine ⟨fun w' key hstep hchanged => ?_, hw.fenced.spaced⟩
  cases hstep with
  | @unlink _ s key' entries seen part left dir hscan hphase hdir
  | @removeDir _ s key' entries seen dir hscan hphase hdir hempty =>
      have hkey : key = key' := by
        by_contra hne
        exact hchanged (Function.update_of_ne hne _ _)
      subst hkey
      exact collects_of_unlinking hw.guarded hscan hphase
  | _ => exact absurd rfl hchanged

end Collected

/-! ### A request dies with its index -/

namespace Collected

def key : String := "0123456789abcdef0123456789abcdef0123456789abcdef0123456789abcdef"

def now : Int := 1700000000

def releaseDebt : SchemaObject :=
  ⟨"table", "native_revision_release_debt", "native_revision_release_debt", none⟩

def build : Build := ⟨[[releaseDebt]], [], fun _ => "", fun _ => key⟩

def metadata : IndexMetadata :=
  ⟨8, extractorVersion, "/work/app", some 1, some 2, "0123abcd-0123-4abc-8abc-0123456789ab", 3,
    some now, true, true⟩

def database : IndexDatabase := ⟨"delete", 8, [releaseDebt], "ok", [metadata], [], []⟩

def queue : QueueDatabase := ⟨"delete", 1, [], "ok", [("/work/app", key)], [.queued]⟩

def dir : IndexDir := ⟨true, some ⟨true, database⟩, some ⟨true, queue⟩, some ⟨true, true⟩, []⟩

def away : Roots := fun _ => .missing

def back : Roots := fun _ => .directory 1 2

def own : Nat → String := fun _ => ""

def start : World :=
  ⟨Function.update (fun _ => none) key (some dir), fun _ => .shared [], away, 0, .missing,
    .missing, none, []⟩

def scan (phase : Phase) : Scan := ⟨0, now, phase⟩

def seen : Seen := ⟨dir, away, 0⟩

def scanning : World :=
  { start with stamp := .at now, durable := .at now, scan := some (scan (.scanning [key])) }

def locked : World :=
  (scanning.setLock key .collecting).goes (scan (.scanning [key])) (.locked [] key)

def admitted : World := locked.goes (scan (.locked [] key)) (.admitted [] key seen)

def returned : World := { admitted with roots := back, moves := 1 }

def unlinking : World :=
  returned.goes (scan (.admitted [] key seen)) (.unlinking [] key seen dir.parts)

def unlinked : World :=
  (unlinking.setDir key (some (dir.unlinkFile .index))).goes
    (scan (.unlinking [] key seen dir.parts)) (.unlinking [] key seen [.requests, .leader])

theorem admitted_dir : admitCandidate build now away key dir = .ok () := rfl

theorem names_dir : dir.names = dir.expected := by
  simp [dir, IndexDir.names, IndexDir.expected, List.mergeSort]

theorem unlinking_dirs : unlinking.dirs key = some dir := by
  show Function.update (fun _ => none) key (some dir) key = some dir
  exact Function.update_self _ _ _

theorem unlinked_dirs : unlinked.dirs key = some (dir.unlinkFile .index) := by
  show Function.update unlinking.dirs key (some (dir.unlinkFile .index)) key = _
  exact Function.update_self _ _ _

theorem unlinking_reached : Reached build own unlinking := by
  have hstart : Starts start := ⟨rfl, fun _ => .inr rfl, rfl⟩
  refine (Runs.Reachable.start hstart).then ?_
  have hbegun : Step build own .collector start { start with scan := some (scan .due) } :=
    .begin 0 now rfl (by decide) (by decide) (.inl rfl)
  have hrenamed : Step build own .collector { start with scan := some (scan .due) }
      { start with stamp := .at now, scan := some (scan .stamped) } :=
    .rename (s := scan .due) rfl rfl
  have hsynced : Step build own .collector
      { start with stamp := .at now, scan := some (scan .stamped) } scanning :=
    .sync (s := scan .stamped) [key] rfl rfl
  have hlocked : Step build own .collector scanning locked :=
    .lock (s := scan (.scanning [key])) rfl rfl (by decide) (by decide) rfl
  have hadmitted : Step build own .collector locked admitted :=
    .approve (s := scan (.locked [] key)) rfl rfl unlinking_dirs admitted_dir
  have hreturned : Step build own .system admitted returned := .move back
  have hchecked : Step build own .collector returned unlinking :=
    .recheck (s := scan (.admitted [] key seen)) rfl rfl unlinking_dirs rfl names_dir
  exact .head ⟨_, hbegun⟩ <| .head ⟨_, hrenamed⟩ <| .head ⟨_, hsynced⟩ <|
    .head ⟨_, hlocked⟩ <| .head ⟨_, hadmitted⟩ <| .head ⟨_, hreturned⟩ <| .single ⟨_, hchecked⟩

theorem unlinked_step : Step build own .collector unlinking unlinked :=
  .unlink (s := scan (.unlinking [] key seen dir.parts)) rfl rfl unlinking_dirs

theorem unlinked_changed : unlinked.dirs key ≠ unlinking.dirs key := by
  rw [unlinked_dirs, unlinking_dirs]
  intro h
  cases congrArg IndexDir.index (Option.some.inj h)

/-- The checkout is there, it is the same one, and it was opened a moment ago. -/
theorem not_abandoned : ¬ Abandoned back now metadata := by
  rintro (⟨ancestor, -, hmissing⟩ | hreplaced | ⟨opened, hopened, -, hold⟩)
  · cases hmissing
  · rcases hreplaced with hother | ⟨device, inode, hthere, hne⟩
    · cases hother
    · cases hthere; exact hne rfl
  · cases hopened
    revert hold
    decide

end Collected

/-- An index goes while a request for it is waiting, and it goes although the checkout that
was away when the scan looked is back. -/
theorem collection_deletes_only_abandoned_counterexample :
    (¬ ∀ (b : Build) (current : Nat → String) (w w' : World) (key : String) (dir : IndexDir)
        (queue : Managed QueueDatabase), Reached b current w → Step b current .collector w w' →
        w'.dirs key ≠ w.dirs key → w.dirs key = some dir → dir.requests = some queue →
        ∀ row ∈ queue.content.rows, row.unfinished = false) ∧
    ¬ ∀ (b : Build) (current : Nat → String) (w w' : World) (key : String) (s : Scan)
        (dir : IndexDir) (index : Managed IndexDatabase) (m : IndexMetadata),
        Reached b current w → Step b current .collector w w' → w'.dirs key ≠ w.dirs key →
        w.scan = some s → w.dirs key = some dir → dir.index = some index →
        index.content.metadata = [m] → Abandoned w.roots s.now m := by
  refine ⟨fun hclaim => ?_, fun hclaim => ?_⟩
  · exact absurd (hclaim _ _ _ _ _ _ _ Collected.unlinking_reached Collected.unlinked_step
      Collected.unlinked_changed Collected.unlinking_dirs rfl .queued List.mem_cons_self) Bool.noConfusion
  · exact Collected.not_abandoned (hclaim _ _ _ _ _ _ _ _ _ Collected.unlinking_reached
      Collected.unlinked_step Collected.unlinked_changed rfl Collected.unlinking_dirs rfl rfl)

theorem collection_deletes_only_abandoned_sample :
    (∀ (w' : World) (key : String),
      Step Collected.build Collected.own .collector Collected.unlinking w' →
      w'.dirs key ≠ Collected.unlinking.dirs key →
      ∃ s seen dir, Collects Collected.build Collected.own Collected.unlinking key s seen dir) ∧
    Collected.unlinking.completed.Pairwise fun later earlier => earlier + day ≤ later :=
  collection_deletes_only_abandoned Collected.build Collected.own Collected.unlinking
    Collected.unlinking_reached

end Baleyg.Topology
