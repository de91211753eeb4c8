/-
Election of the daemon that owns the socket.

Whoever wants to be the daemon opens the lock file, tries to lock it, and only then clears
what stands at the socket's path and binds its own listener there.  The owner that comes of
it holds the lock until it is dropped, and dropping it first removes the socket, if it is
still the one it bound, and then lets the lock go.  A crash lets the lock go as well, with
everything else left as it is.

So whoever touches the path holds the lock (`Step.path_outside`), and as long as it does, nobody
else touches the path.  What the inode of the owner's socket is compared for is not needed
between daemons: an owner that is dropped finds its own socket.
-/
import Baleyg.Lib.Exclusive
import Baleyg.Lib.Runs

namespace Baleyg.Daemon.Election

open Relation (ReflTransGen)
open Runs (Reachable)
open Exclusive (Locked)

/-- What stands at the socket's path: whether it is a socket, its inode, and whose listener
was bound to it. -/
structure Node (ι : Type*) where
  isSocket : Bool
  ino : Nat
  listener : Option ι
  deriving DecidableEq

/-- Where a call of `SocketOwner::acquire`, and the owner it returned, stand. -/
inductive Phase where
  | idle
  /-- The lock file is open and is the file its path names. -/
  | opened
  /-- Somebody else holds the lock: `Ok(None)`. -/
  | lost
  | locked
  /-- A socket stands at the path, and is to be removed. -/
  | stale
  | clear
  | bound
  | listening
  /-- The permissions are set, and the inode is to be read. -/
  | permitted
  | owner (inode : Nat)
  /-- In `drop`, which has found the owner's inode at the path. -/
  | removing (inode : Nat)
  /-- Past `drop`, or past an error: the lock is to be let go. -/
  | leaving
  | gone
  deriving DecidableEq

namespace Phase

def holds : Phase → Bool
  | idle | opened | lost | gone => false
  | _ => true

def binding : Phase → Bool
  | bound | listening | permitted => true
  | _ => false

end Phase

structure World (ι : Type*) where
  phase : ι → Phase
  /-- Who holds the `flock` of the lock file. -/
  lock : Option ι
  path : Option (Node ι)

variable {ι : Type*} [DecidableEq ι]

def World.put (s : World ι) (i : ι) (p : Phase) : World ι :=
  { s with phase := Function.update s.phase i p }

/-! ### Steps -/

/-- A step of one call and its owner, each a system call or less. -/
inductive Step (i : ι) : World ι → World ι → Prop where
  | openLock {s : World ι} (h : s.phase i = .idle) : Step i s (s.put i .opened)
  /-- The directories or the lock file are unsafe, or `flock` fails. -/
  | refuse {s : World ι} (h : s.phase i = .idle ∨ s.phase i = .opened) : Step i s (s.put i .gone)
  | lose {s : World ι} (h : s.phase i = .opened) (hheld : s.lock ≠ none) : Step i s (s.put i .lost)
  | win {s : World ι} (h : s.phase i = .opened) (hfree : s.lock = none) :
      Step i s { s.put i .locked with lock := some i }
  | seeSocket {s : World ι} {node : Node ι} (h : s.phase i = .locked) (hpath : s.path = some node)
      (hsocket : node.isSocket = true) : Step i s (s.put i .stale)
  /-- `unsafe daemon socket`. -/
  | seeOther {s : World ι} {node : Node ι} (h : s.phase i = .locked) (hpath : s.path = some node)
      (hother : node.isSocket = false) : Step i s (s.put i .leaving)
  | seeNothing {s : World ι} (h : s.phase i = .locked) (hpath : s.path = none) :
      Step i s (s.put i .clear)
  | unlink {s : World ι} (h : s.phase i = .stale) :
      Step i s { s.put i .clear with path := none }
  | bind {s : World ι} (inode : Nat) (h : s.phase i = .clear) (hpath : s.path = none) :
      Step i s { s.put i .bound with path := some ⟨true, inode, some i⟩ }
  | listen {s : World ι} (h : s.phase i = .bound) : Step i s (s.put i .listening)
  | permit {s : World ι} (h : s.phase i = .listening) : Step i s (s.put i .permitted)
  | own {s : World ι} {node : Node ι} (h : s.phase i = .permitted) (hpath : s.path = some node) :
      Step i s (s.put i (.owner node.ino))
  /-- Any of the calls between the lock and the owner fails. -/
  | fail {s : World ι} (h : s.phase i = .locked ∨ s.phase i = .stale ∨ s.phase i = .clear ∨
      (s.phase i).binding = true) : Step i s (s.put i .leaving)
  | dropOwn {s : World ι} {inode : Nat} {node : Node ι} (h : s.phase i = .owner inode)
      (hpath : s.path = some node) (hsocket : node.isSocket = true) (hino : node.ino = inode) :
      Step i s (s.put i (.removing inode))
  /-- Another node, none, or no answer. -/
  | dropOther {s : World ι} {inode : Nat} (h : s.phase i = .owner inode) :
      Step i s (s.put i .leaving)
  | remove {s : World ι} {inode : Nat} (h : s.phase i = .removing inode) :
      Step i s { s.put i .leaving with path := none }
  | removeFails {s : World ι} {inode : Nat} (h : s.phase i = .removing inode) :
      Step i s (s.put i .leaving)
  | release {s : World ι} (h : s.phase i = .leaving) : Step i s { s.put i .gone with lock := none }
  | crash {s : World ι} :
      Step i s { s.put i .gone with lock := if s.lock = some i then none else s.lock }

def Next (s t : World ι) : Prop := ∃ i, Step i s t

/-- Nobody has begun; the path may hold what earlier daemons or others left there. -/
def Started (s : World ι) : Prop := (∀ i, s.phase i = .idle) ∧ s.lock = none

/-! ### The lock covers the path -/

/-- From the bind on, the path is bound to the call's listener, and the owner knows its inode. -/
structure Bound (s : World ι) (i : ι) : Prop where
  binding : (s.phase i).binding = true → ∃ inode, s.path = some ⟨true, inode, some i⟩
  owner : ∀ inode, s.phase i = .owner inode → s.path = some ⟨true, inode, some i⟩

structure Sound (s : World ι) : Prop where
  locked : Locked Phase.holds s.phase s.lock
  bound : ∀ i, Bound s i

section Steps

variable {s t : World ι} {i j : ι} {p : Phase}

@[simp] theorem phase_put_same : (s.put i p).phase i = p := Function.update_self ..

@[simp] theorem phase_put_other (h : j ≠ i) : (s.put i p).phase j = s.phase j :=
  Function.update_of_ne h ..

theorem Step.phase_other (h : Step i s t) (hj : j ≠ i) : t.phase j = s.phase j := by
  cases h <;> exact phase_put_other hj

theorem Phase.holds_of_binding (h : p.binding = true) : p.holds = true := by
  cases p <;> first
    | rfl
    | cases h

theorem Step.locked (h : Step i s t) (hlocked : Locked Phase.holds s.phase s.lock) :
    Locked Phase.holds t.phase t.lock := by
  have hkeep : ∀ p, p.holds = (s.phase i).holds →
      Locked Phase.holds (s.put i p).phase s.lock := fun p hp => hlocked.keep hp
  cases h with
  | win hp hfree => exact hlocked.take rfl hfree
  | release hp => exact hlocked.drop rfl (by rw [hp]; rfl)
  | crash => exact hlocked.crash rfl
  | refuse hp => exact hkeep _ (by rcases hp with hp | hp <;> rw [hp] <;> rfl)
  | fail hp =>
      refine hkeep _ ?_
      rcases hp with hp | hp | hp | hp
      · rw [hp]; rfl
      · rw [hp]; rfl
      · rw [hp]; rfl
      · rw [Phase.holds_of_binding hp]; rfl
  | openLock hp | lose hp | seeSocket hp | seeOther hp | seeNothing hp | unlink hp | bind _ hp
  | listen hp | permit hp | own hp | dropOwn hp | dropOther hp | remove hp | removeFails hp =>
      exact hkeep _ (by rw [hp]; rfl)

/-- **Without the lock the path is not touched.** -/
theorem Step.path_outside (h : Step i s t) (hout : (s.phase i).holds = false) :
    t.path = s.path := by
  cases h with
  | unlink hp | bind _ hp | remove hp => rw [hp] at hout; cases hout
  | _ => rfl

theorem Step.bound (h : Step i s t) (hbound : Bound s i) : Bound t i := by
  have hidle : ∀ (t : World ι), (t.phase i).binding = false →
      (∀ inode, t.phase i ≠ .owner inode) → Bound t i := fun t hp howner =>
    ⟨fun hb => absurd (hb.symm.trans hp) Bool.true_eq_false.mp, fun inode ho =>
      absurd ho (howner inode)⟩
  cases h with
  | bind inode hp hpath => exact ⟨fun _ => ⟨inode, rfl⟩, fun _ ho => by simp at ho⟩
  | listen hp | permit hp =>
      exact ⟨fun _ => hbound.binding (by rw [hp]; rfl), fun _ ho => by simp at ho⟩
  | own hp hpath =>
      obtain ⟨inode, hnode⟩ := hbound.binding (by rw [hp]; rfl)
      rw [hnode] at hpath
      cases hpath
      refine ⟨fun hb => by simp [Phase.binding] at hb, fun inode' ho => ?_⟩
      rw [phase_put_same] at ho
      cases ho
      exact hnode
  | _ => exact hidle _ (by simp [Phase.binding]) (by simp)

theorem Sound.next (h : Sound s) (hnext : Next s t) : Sound t := by
  obtain ⟨i, hstep⟩ := hnext
  refine ⟨hstep.locked h.locked, fun j => ?_⟩
  by_cases hj : j = i
  · subst hj; exact hstep.bound (h.bound j)
  have hphase := hstep.phase_other hj
  -- while the call is bound, whoever moves is outside the lock
  have hpath : (s.phase j).holds = true → t.path = s.path := fun hholds =>
    hstep.path_outside (h.locked.not_holds hholds (Ne.symm hj))
  refine ⟨fun hb => ?_, fun inode ho => ?_⟩
  · rw [hphase] at hb
    rw [hpath (Phase.holds_of_binding hb)]
    exact (h.bound j).binding hb
  · rw [hphase] at ho
    rw [hpath (by rw [ho]; rfl)]
    exact (h.bound j).owner inode ho

omit [DecidableEq ι] in
theorem Started.sound (h : Started s) : Sound s := by
  refine ⟨fun i => ?_, fun i => ⟨fun hb => ?_, fun inode ho => ?_⟩⟩
  · rw [h.1 i, h.2]; exact iff_of_false (by decide) (by simp)
  · rw [h.1 i] at hb; cases hb
  · rw [h.1 i] at ho; cases ho

theorem reachable_sound (h : Reachable Started Next s) : Sound s :=
  h.keeps (fun _ => Started.sound) fun _ _ hnext hsound => hsound.next hnext

end Steps

/-- **One daemon owns the socket.**  In every run at most one call is past the lock; whoever
acquired the socket has the path bound to its own listener; and no step of another call or
owner, nor of one that lost the election, touches the path. -/
theorem one_owner (s : World ι) (h : Reachable Started Next s) :
    (∀ i j, (s.phase i).holds = true → (s.phase j).holds = true → i = j) ∧
    (∀ i inode, s.phase i = .owner inode → s.path = some ⟨true, inode, some i⟩) ∧
    (∀ i j inode t, s.phase i = .owner inode → j ≠ i → Step j s t →
      t.path = s.path ∧ t.phase i = .owner inode) ∧
    (∀ j t, Step j s t → (s.phase j).holds = false → t.path = s.path) := by
  have hsound := reachable_sound h
  refine ⟨fun i j => hsound.locked.unique, fun i => (hsound.bound i).owner,
    fun i j inode t howner hj hstep => ⟨?_, ?_⟩, fun j t hstep => hstep.path_outside⟩
  · have hholds : (s.phase i).holds = true := by rw [howner]; rfl
    exact hstep.path_outside (hsound.locked.not_holds hholds hj)
  · rw [hstep.phase_other (Ne.symm hj)]; exact howner

namespace Sample

/-- The second call has the lock file open. -/
def world (p : Phase) (lock : Option Bool) (path : Option (Node Bool)) : World Bool :=
  ⟨fun first => if first then p else .opened, lock, path⟩

theorem next_world {p q : Phase} {lock lock' : Option Bool} {path path' : Option (Node Bool)}
    (h : Step true (world p lock path)
      { (world p lock path).put true q with lock := lock', path := path' }) :
    Next (world p lock path) (world q lock' path') := by
  have hput : (world p lock path).put true q = world q lock path := by
    unfold World.put world
    congr 1
    funext first
    cases first <;> rfl
  rw [hput] at h
  exact ⟨true, h⟩

/-- The first call finds the socket of a crashed daemon, and becomes the owner. -/
theorem owned_reachable :
    Reachable Started Next (world (.owner 8) (some true) (some ⟨true, 8, some true⟩)) := by
  have hopen : Next ⟨fun _ => .idle, none, some ⟨true, 7, none⟩⟩
      (world .idle none (some ⟨true, 7, none⟩)) := by
    refine ⟨false, cast (congrArg _ ?_) (Step.openLock (i := false) rfl)⟩
    unfold World.put world
    congr 1
    funext first
    cases first <;> rfl
  have hstart : Reachable Started Next (world .idle none (some ⟨true, 7, none⟩)) :=
    ⟨_, ⟨fun _ => rfl, rfl⟩, .single hopen⟩
  have hlocked : ReflTransGen Next (world .idle none (some ⟨true, 7, none⟩))
      (world .locked (some true) (some ⟨true, 7, none⟩)) :=
    (ReflTransGen.single (next_world (.openLock rfl))).tail (next_world (.win rfl rfl))
  have hclear : ReflTransGen Next (world .locked (some true) (some ⟨true, 7, none⟩))
      (world .clear (some true) none) :=
    (ReflTransGen.single (next_world (.seeSocket rfl rfl rfl))).tail (next_world (.unlink rfl))
  have hlistening : ReflTransGen Next (world .clear (some true) none)
      (world .listening (some true) (some ⟨true, 8, some true⟩)) :=
    (ReflTransGen.single (next_world (.bind 8 rfl rfl))).tail (next_world (.listen rfl))
  have hown : Step true (world .permitted (some true) (some ⟨true, 8, some true⟩))
      ((world .permitted (some true) (some ⟨true, 8, some true⟩)).put true (.owner 8)) :=
    @Step.own Bool _ true (world .permitted (some true) (some ⟨true, 8, some true⟩))
      ⟨true, 8, some true⟩ rfl rfl
  have howner : ReflTransGen Next (world .listening (some true) (some ⟨true, 8, some true⟩))
      (world (.owner 8) (some true) (some ⟨true, 8, some true⟩)) :=
    (ReflTransGen.single (next_world (.permit rfl))).tail (next_world hown)
  exact hstart.then (((hlocked.trans hclear).trans hlistening).trans howner)

end Sample

/-- The second call loses, and leaves the first one's socket alone. -/
theorem one_owner_sample :
    ∃ t, Step false (Sample.world (.owner 8) (some true) (some ⟨true, 8, some true⟩)) t ∧
      t.phase false = .lost ∧ t.path = some ⟨true, 8, some true⟩ ∧ t.phase true = .owner 8 := by
  have hlose := Step.lose (i := false)
    (s := Sample.world (.owner 8) (some true) (some ⟨true, 8, some true⟩)) rfl nofun
  obtain ⟨-, hbound, hkept, -⟩ := one_owner _ Sample.owned_reachable
  obtain ⟨hpath, howner⟩ := hkept true false 8 _ rfl nofun hlose
  exact ⟨_, hlose, rfl, hpath.trans (hbound true 8 rfl), howner⟩

end Baleyg.Daemon.Election
