/-
How a follower knows that it has a leader.

A leader takes the leader lock, draws an incarnation, and writes it over the one it finds in
the lock file; it holds the lock while it leads, and the file keeps the incarnation when it
is gone.  A follower has no way to ask who holds the lock.  It reads the incarnation, tries
the lock, and reads again; an attempt that succeeds is undone at once and proves that there
is no leader, and a refused one between two equal readings is taken for the leader of that
incarnation.

No incarnation is drawn twice, so equal readings are one writing (`Settled.next`): at the
refused attempt the file had the incarnation that is reported.  What the attempt does not
tell is who refused it.  A leader that has taken the lock and not yet written refuses it in
its predecessor's name, and so does another follower's own attempt, for the moment it takes
to undo it.

Threads that share a guard share its descriptor, where an attempt does not meet the lock of
another thread; such an attempt ends in `fail` here.
-/
import Baleyg.Lib.Exclusive
import Baleyg.Lib.Runs

namespace Baleyg.Topology.Follower

open Relation (ReflTransGen)
open Runs (Reachable)
open Exclusive (Locked)

abbrev Incarnation := Nat

/-- Where a call of `acquire_leader` and its guard, of `follower`, or of a guard's `verify`
stands. -/
inductive Phase where
  | idle
  /-- `acquire_leader` has opened the lock file. -/
  | candidate
  | taken
  /-- The incarnation is drawn, and nothing is written. -/
  | minted (incarnation : Incarnation)
  | truncated (incarnation : Incarnation)
  | leading (incarnation : Incarnation)
  /-- `follower` has opened the lock file. -/
  | following
  | sampled (incarnation : Incarnation)
  /-- `verify` begins. -/
  | checking (expected : Incarnation)
  | probing (expected : Incarnation)
  /-- The attempt succeeded, and is to be undone. -/
  | transient
  /-- The attempt was refused, and the file is to be read again. -/
  | contended (expected : Incarnation)
  /-- `Ok`. -/
  | proved (expected : Incarnation)
  | gone
  deriving DecidableEq

namespace Phase

def holds : Phase → Bool
  | taken | minted _ | truncated _ | leading _ | transient => true
  | _ => false

/-- The lock is held by a leader. -/
def leads : Phase → Bool
  | taken | minted _ | truncated _ | leading _ => true
  | _ => false

/-- A leader that has not touched the file yet. -/
def unwritten : Phase → Bool
  | taken | minted _ => true
  | _ => false

/-- The incarnation is drawn and not written. -/
def Writing (incarnation : Incarnation) (p : Phase) : Prop :=
  p = minted incarnation ∨ p = truncated incarnation

end Phase

structure World (ι : Type*) where
  phase : ι → Phase
  /-- Who holds the `flock` of the lock file. -/
  lock : Option ι
  /-- What the lock file reads as, where it reads as an incarnation. -/
  content : Option Incarnation
  /-- The incarnations drawn so far. -/
  used : List Incarnation

variable {ι : Type*} [DecidableEq ι]

def World.put (s : World ι) (i : ι) (p : Phase) : World ι :=
  { s with phase := Function.update s.phase i p }

/-! ### Steps -/

inductive Step (i : ι) : World ι → World ι → Prop where
  | lead {s : World ι} (h : s.phase i = .idle) : Step i s (s.put i .candidate)
  /-- `storage_busy`. -/
  | busy {s : World ι} (h : s.phase i = .candidate) (hheld : s.lock ≠ none) :
      Step i s (s.put i .gone)
  | take {s : World ι} (h : s.phase i = .candidate) (hfree : s.lock = none) :
      Step i s { s.put i .taken with lock := some i }
  | mint {s : World ι} (incarnation : Incarnation) (h : s.phase i = .taken)
      (hfresh : incarnation ∉ s.used) :
      Step i s { s.put i (.minted incarnation) with used := incarnation :: s.used }
  | truncate {s : World ι} {incarnation : Incarnation} (h : s.phase i = .minted incarnation) :
      Step i s { s.put i (.truncated incarnation) with content := none }
  | write {s : World ι} {incarnation : Incarnation} (h : s.phase i = .truncated incarnation) :
      Step i s { s.put i (.leading incarnation) with content := some incarnation }
  /-- An error of `acquire_leader`, or the end of its guard. -/
  | resign {s : World ι} (h : (s.phase i).leads = true) :
      Step i s { s.put i .gone with lock := none }
  | follow {s : World ι} (h : s.phase i = .idle) : Step i s (s.put i .following)
  | sample {s : World ι} {incarnation : Incarnation} (h : s.phase i = .following)
      (hread : s.content = some incarnation) : Step i s (s.put i (.sampled incarnation))
  /-- The lock is held, and the new guard is verified. -/
  | refused {s : World ι} {incarnation : Incarnation} (h : s.phase i = .sampled incarnation)
      (hheld : s.lock ≠ none) : Step i s (s.put i (.checking incarnation))
  | verify {s : World ι} (expected : Incarnation) (h : s.phase i = .idle) :
      Step i s (s.put i (.checking expected))
  | check {s : World ι} {expected : Incarnation} (h : s.phase i = .checking expected)
      (hread : s.content = some expected) : Step i s (s.put i (.probing expected))
  /-- `leader lock is not held`, of `follower` or of `verify`. -/
  | seize {s : World ι} {incarnation : Incarnation}
      (h : s.phase i = .sampled incarnation ∨ s.phase i = .probing incarnation)
      (hfree : s.lock = none) : Step i s { s.put i .transient with lock := some i }
  | unlock {s : World ι} (h : s.phase i = .transient) :
      Step i s { s.put i .gone with lock := none }
  | contend {s : World ι} {expected : Incarnation} (h : s.phase i = .probing expected)
      (hheld : s.lock ≠ none) : Step i s (s.put i (.contended expected))
  | prove {s : World ι} {expected : Incarnation} (h : s.phase i = .contended expected)
      (hread : s.content = some expected) : Step i s (s.put i (.proved expected))
  /-- Another reading, no reading, another file, a lost root, or an error of `flock`. -/
  | fail {s : World ι} (h : (s.phase i).holds = false) : Step i s (s.put i .gone)
  | crash {s : World ι} :
      Step i s { s.put i .gone with lock := if s.lock = some i then none else s.lock }

def Next (s t : World ι) : Prop := ∃ i, Step i s t

/-- Nobody has begun; the file may have the incarnation of an earlier leader. -/
structure Started (s : World ι) : Prop where
  idle : ∀ i, s.phase i = .idle
  lock : s.lock = none
  used : ∀ incarnation, s.content = some incarnation → incarnation ∈ s.used

/-! ### One incarnation is written once -/

/-- The incarnation was drawn, and nobody is about to write it. -/
structure Settled (incarnation : Incarnation) (s : World ι) : Prop where
  used : incarnation ∈ s.used
  written : ∀ i, ¬ (s.phase i).Writing incarnation

structure Sound (s : World ι) : Prop where
  locked : Locked Phase.holds s.phase s.lock
  content : ∀ incarnation, s.content = some incarnation → Settled incarnation s
  truncated : ∀ i incarnation, s.phase i = .truncated incarnation → s.content = none
  leading : ∀ i incarnation, s.phase i = .leading incarnation → s.content = some incarnation
  probing : ∀ i expected, s.phase i = .probing expected → Settled expected s
  drawn : ∀ i incarnation, (s.phase i).Writing incarnation → incarnation ∈ s.used

section Steps

variable {s t u : World ι} {i j : ι} {p : Phase} {incarnation expected : Incarnation}

@[simp] theorem phase_put_same : (s.put i p).phase i = p := Function.update_self ..

@[simp] theorem phase_put_other (h : j ≠ i) : (s.put i p).phase j = s.phase j :=
  Function.update_of_ne h ..

theorem Step.phase_other (h : Step i s t) (hj : j ≠ i) : t.phase j = s.phase j := by
  cases h <;> exact phase_put_other hj

theorem Phase.holds_of_leads (h : p.leads = true) : p.holds = true := by
  cases p <;> first
    | rfl
    | cases h

theorem Phase.Writing.leads (h : p.Writing incarnation) : p.leads = true := by
  rcases h with rfl | rfl <;> rfl

theorem Step.locked (h : Step i s t) (hlocked : Locked Phase.holds s.phase s.lock) :
    Locked Phase.holds t.phase t.lock := by
  have hkeep : ∀ p, p.holds = (s.phase i).holds →
      Locked Phase.holds (s.put i p).phase s.lock := fun p hp => hlocked.keep hp
  cases h with
  | take hp hfree | seize hp hfree => exact hlocked.take rfl hfree
  | resign hp => exact hlocked.drop rfl (Phase.holds_of_leads hp)
  | unlock hp => exact hlocked.drop rfl (by rw [hp]; rfl)
  | crash => exact hlocked.crash rfl
  | fail hp => exact hkeep _ hp.symm
  | lead hp | busy hp | mint _ hp | truncate hp | write hp | follow hp | sample hp | refused hp
  | verify _ hp | check hp | contend hp | prove hp => exact hkeep _ (by rw [hp]; rfl)

theorem Step.used (h : Step i s t) (hused : incarnation ∈ s.used) : incarnation ∈ t.used := by
  cases h with
  | mint _ _ _ => exact List.mem_cons_of_mem _ hused
  | _ => exact hused

/-- Whoever is to write an incarnation was to do so before, or has just drawn it. -/
theorem Step.writing (h : Step i s t) (hw : (t.phase i).Writing incarnation) :
    (s.phase i).Writing incarnation ∨ incarnation ∉ s.used ∧ incarnation ∈ t.used := by
  cases h with
  | mint drawn hp hfresh =>
      have hsame : drawn = incarnation := by simpa [Phase.Writing] using hw
      subst hsame
      exact .inr ⟨hfresh, List.mem_cons_self⟩
  | truncate hp =>
      rename_i drawn
      have hsame : drawn = incarnation := by simpa [Phase.Writing] using hw
      subst hsame
      exact .inl (.inl hp)
  | _ => simp [Phase.Writing] at hw

/-- What the file comes to read as has been written by a leader of that incarnation. -/
theorem Step.content (h : Step i s t) (hread : t.content = some incarnation) :
    s.content = some incarnation ∨
      s.phase i = .truncated incarnation ∧ t.phase i = .leading incarnation := by
  cases h with
  | truncate hp => cases hread
  | write hp => cases hread; exact .inr ⟨hp, phase_put_same⟩
  | _ => exact .inl hread

/-- **A written incarnation is never written again.** -/
theorem Settled.next (h : Settled incarnation s) (hnext : Next s t) : Settled incarnation t := by
  obtain ⟨i, hstep⟩ := hnext
  refine ⟨hstep.used h.used, fun j hw => ?_⟩
  by_cases hj : j = i
  · subst hj
    rcases hstep.writing hw with hbefore | ⟨hfresh, -⟩
    · exact h.written j hbefore
    · exact hfresh h.used
  · rw [hstep.phase_other hj] at hw; exact h.written j hw

theorem Settled.lost (h : Settled incarnation s) (hnext : Next s t)
    (hlost : s.content ≠ some incarnation) : t.content ≠ some incarnation := by
  obtain ⟨i, hstep⟩ := hnext
  intro hread
  rcases hstep.content hread with hbefore | ⟨hwriting, -⟩
  · exact hlost hbefore
  · exact h.written i (.inr hwriting)

theorem Settled.between (h : Settled incarnation s) (hrun : ReflTransGen Next s t)
    (hread : t.content = some incarnation) : s.content = some incarnation := by
  by_contra hlost
  have hkept : Settled incarnation t ∧ t.content ≠ some incarnation :=
    Runs.keeps_run (I := fun u => Settled incarnation u ∧ u.content ≠ some incarnation)
      (fun _ _ hnext hu => ⟨hu.1.next hnext, hu.1.lost hnext hu.2⟩) hrun ⟨h, hlost⟩
  exact hkept.2 hread

theorem Step.content_outside (h : Step i s t) (hout : (s.phase i).holds = false) :
    t.content = s.content := by
  cases h with
  | truncate hp | write hp => rw [hp] at hout; cases hout
  | _ => rfl

theorem Step.arrives (h : Step i s t) :
    (∀ incarnation, t.phase i = .truncated incarnation → t.content = none) ∧
    (∀ incarnation, t.phase i = .leading incarnation → t.content = some incarnation) ∧
    ∀ expected, t.phase i = .probing expected → s.content = some expected := by
  cases h with
  | truncate hp => exact ⟨fun _ _ => rfl, by simp, by simp⟩
  | write hp =>
      refine ⟨by simp, fun incarnation hp => ?_, by simp⟩
      simp at hp
      rw [hp]
  | check hp hread =>
      refine ⟨by simp, by simp, fun expected hp => ?_⟩
      simp at hp
      rw [← hp]
      exact hread
  | _ => exact ⟨by simp, by simp, by simp⟩

theorem Sound.next (h : Sound s) (hnext : Next s t) : Sound t := by
  obtain ⟨i, hstep⟩ := hnext
  have hsettled : ∀ {x}, Settled x s → Settled x t := fun hx => hx.next ⟨i, hstep⟩
  -- whoever else holds the lock finds the file as it was
  have hsame : ∀ j, j ≠ i → (s.phase j).holds = true → t.content = s.content := fun j hj hholds =>
    hstep.content_outside (h.locked.not_holds hholds (Ne.symm hj))
  refine ⟨hstep.locked h.locked, fun x hread => ?_, fun j x hp => ?_, fun j x hp => ?_,
    fun j x hp => ?_, fun j x hw => ?_⟩
  · rcases hstep.content hread with hbefore | ⟨hwriting, hleading⟩
    · exact hsettled (h.content x hbefore)
    · refine ⟨hstep.used (h.drawn i x (.inr hwriting)), fun j hw => ?_⟩
      by_cases hj : j = i
      · subst hj
        rw [hleading] at hw
        rcases hw with hw | hw <;> cases hw
      · rw [hstep.phase_other hj] at hw
        have hholds : (s.phase i).holds = true := by rw [hwriting]; rfl
        exact hj (h.locked.unique (Phase.holds_of_leads hw.leads) hholds)
  · by_cases hj : j = i
    · subst hj; exact hstep.arrives.1 x hp
    · rw [hstep.phase_other hj] at hp
      rw [hsame j hj (by rw [hp]; rfl)]
      exact h.truncated j x hp
  · by_cases hj : j = i
    · subst hj; exact hstep.arrives.2.1 x hp
    · rw [hstep.phase_other hj] at hp
      rw [hsame j hj (by rw [hp]; rfl)]
      exact h.leading j x hp
  · by_cases hj : j = i
    · subst hj; exact hsettled (h.content x (hstep.arrives.2.2 x hp))
    · rw [hstep.phase_other hj] at hp; exact hsettled (h.probing j x hp)
  · by_cases hj : j = i
    · subst hj
      rcases hstep.writing hw with hbefore | ⟨-, hdrawn⟩
      · exact hstep.used (h.drawn j x hbefore)
      · exact hdrawn
    · rw [hstep.phase_other hj] at hw; exact hstep.used (h.drawn j x hw)

omit [DecidableEq ι] in
theorem Started.sound (h : Started s) : Sound s := by
  have hno : ∀ i (q : Phase), s.phase i = q → q = .idle := fun i q hq => hq ▸ h.idle i
  have hwriting : ∀ i x, ¬ (s.phase i).Writing x := by
    intro i x hw
    rw [h.idle i] at hw
    rcases hw with hw | hw <;> cases hw
  refine ⟨fun i => ?_, fun x hread => ⟨h.used x hread, fun i => hwriting i x⟩,
    fun i x hp => (Phase.noConfusion (hno i _ hp)), fun i x hp => (Phase.noConfusion (hno i _ hp)),
    fun i x hp => (Phase.noConfusion (hno i _ hp)), fun i x hw => absurd hw (hwriting i x)⟩
  rw [h.idle i, h.lock]
  exact iff_of_false (by decide) (by simp)

theorem reachable_sound (h : Reachable Started Next s) : Sound s :=
  h.keeps (fun _ => Started.sound) fun _ _ hnext hsound => hsound.next hnext

/-! ### What a proof has met -/

theorem Step.past_attempt (h : Step i s t)
    (hp : t.phase i = .contended expected ∨ t.phase i = .proved expected) :
    s.phase i = .probing expected ∧ s.lock ≠ none ∧ t.phase i = .contended expected ∨
      s.phase i = .contended expected ∧ s.content = some expected ∧ t.content = s.content := by
  cases h with
  | contend hprobing hheld =>
      simp at hp
      subst hp
      exact .inl ⟨hprobing, hheld, phase_put_same⟩
  | prove hcontended hread =>
      simp at hp
      subst hp
      exact .inr ⟨hcontended, hread, rfl⟩
  | _ => simp at hp

/-- A call that is past its refused attempt was refused since it began, and the file had
what it expects when it found that it has. -/
theorem refused_of_run (hsound : Sound s) (hrun : ReflTransGen Next s t) {v : ι}
    (hidle : s.phase v = .idle)
    (hp : t.phase v = .contended expected ∨ t.phase v = .proved expected) :
    ∃ w, ReflTransGen Next s w ∧ ReflTransGen Next w t ∧ w.phase v = .probing expected ∧
      w.lock ≠ none ∧ Settled expected w ∧
      (t.phase v = .proved expected → w.content = some expected) := by
  induction hrun with
  | refl => rcases hp with hp | hp <;> rw [hidle] at hp <;> cases hp
  | @tail u t hrun hlast ih =>
      have hsound : Sound u := Runs.keeps_run (fun _ _ hn hs => hs.next hn) hrun hsound
      obtain ⟨i, hstep⟩ := hlast
      have hrun' : ReflTransGen Next u t := .single ⟨i, hstep⟩
      rcases ne_or_eq v i with hi | rfl
      · rw [hstep.phase_other hi] at hp ⊢
        obtain ⟨w, hsw, hwu, hw⟩ := ih hp
        exact ⟨w, hsw, hwu.trans hrun', hw⟩
      rcases hstep.past_attempt hp with ⟨hprobing, hheld, hcontended⟩ |
        ⟨hcontended, hread, -⟩
      · refine ⟨u, hrun, hrun', hprobing, hheld, hsound.probing v expected hprobing,
          fun hproved => ?_⟩
        rw [hcontended] at hproved
        cases hproved
      · obtain ⟨w, hsw, hwu, hprobing, hheld, hsettled, -⟩ := ih (.inl hcontended)
        exact ⟨w, hsw, hwu.trans hrun', hprobing, hheld, hsettled,
          fun _ => hsettled.between hwu hread⟩

end Steps

/-- **What a follower's proof proves.**  If `follower` or `verify` reports an incarnation,
then there was a moment in the call when the file had that incarnation and the lock was
held; and if it was a leader who held it, then the leader of that incarnation, or one that
had not yet written its own. -/
theorem follower_proof (s t : World ι) (hs : Reachable Started Next s)
    (hrun : ReflTransGen Next s t) (v : ι) (incarnation : Incarnation)
    (hidle : s.phase v = .idle) (hok : t.phase v = .proved incarnation) :
    ∃ w h, ReflTransGen Next s w ∧ ReflTransGen Next w t ∧ w.phase v = .probing incarnation ∧
      w.lock = some h ∧ w.content = some incarnation ∧
      (w.phase h ≠ .transient →
        w.phase h = .leading incarnation ∨ (w.phase h).unwritten = true) := by
  have hsound := reachable_sound hs
  obtain ⟨w, hsw, hwt, hprobing, hheld, -, hread⟩ :=
    refused_of_run hsound hrun hidle (.inr hok)
  have hcontent := hread hok
  have hw : Sound w := Runs.keeps_run (fun _ _ hn hs => hs.next hn) hsw hsound
  obtain ⟨h, hlock, hholds⟩ := hw.locked.holder hheld
  refine ⟨w, h, hsw, hwt, hprobing, hlock, hcontent, fun hleader => ?_⟩
  cases hphase : w.phase h with
  | taken | minted _ => exact .inr rfl
  | truncated x => rw [hw.truncated h x hphase] at hcontent; cases hcontent
  | leading x =>
      rw [hw.leading h x hphase] at hcontent
      cases hcontent
      exact .inl rfl
  | transient => exact absurd hphase hleader
  | idle | candidate | following | sampled _ | checking _ | probing _ | contended _ | proved _
  | gone => rw [hphase] at hholds; cases hholds

/-! ### Without a leader of that name -/

section Steps

variable {s t : World ι} {i j : ι} {incarnation : Incarnation}

theorem Step.leads (h : Step i s t) (hleads : (s.phase i).leads = true) :
    (t.phase i).leads = true ∨ t.phase i = .gone := by
  cases h with
  | resign | crash => exact .inr phase_put_same
  | fail hp => rw [Phase.holds_of_leads hleads] at hp; cases hp
  | mint _ hp _ | truncate hp | write hp => exact .inl (by simp [Phase.leads])
  | lead hp | busy hp | take hp | follow hp | sample hp | refused hp | verify _ hp | check hp
  | unlock hp | contend hp | prove hp => rw [hp] at hleads; cases hleads
  | seize hp =>
      rcases hp with hp | hp <;> rw [hp] at hleads <;> cases hleads

theorem Step.gone (h : Step i s t) (hgone : s.phase i = .gone) : t.phase i = .gone := by
  cases h with
  | fail _ | crash => exact phase_put_same
  | resign hp => rw [hgone] at hp; cases hp
  | seize hp =>
      rcases hp with hp | hp <;> rw [hgone] at hp <;> cases hp
  | lead hp | busy hp | take hp | mint _ hp _ | truncate hp | write hp | follow hp | sample hp
  | refused hp | verify _ hp | check hp | unlock hp | contend hp | prove hp =>
      rw [hgone] at hp
      cases hp

theorem leads_run (hrun : ReflTransGen Next s t) (h : (s.phase j).leads = true) :
    (t.phase j).leads = true ∨ t.phase j = .gone := by
  refine Runs.keeps_run (I := fun u => (u.phase j).leads = true ∨ u.phase j = .gone)
    (fun u u' hnext hu => ?_) hrun (.inl h)
  obtain ⟨i, hstep⟩ := hnext
  rcases ne_or_eq j i with hj | rfl
  · rw [hstep.phase_other hj]; exact hu
  · rcases hu with hleads | hgone
    · exact hstep.leads hleads
    · exact .inr (hstep.gone hgone)

/-- A settled incarnation that nobody leads under, nobody ever leads under. -/
theorem Settled.leaderless (h : Settled incarnation s)
    (hnone : ∀ i, s.phase i ≠ .leading incarnation) (hrun : ReflTransGen Next s t) :
    ∀ i, t.phase i ≠ .leading incarnation := by
  have hkept : Settled incarnation t ∧ ∀ i, t.phase i ≠ .leading incarnation := by
    refine Runs.keeps_run
      (I := fun u => Settled incarnation u ∧ ∀ i, u.phase i ≠ .leading incarnation)
      (fun u u' hnext hu => ⟨hu.1.next hnext, fun j hleading => ?_⟩) hrun ⟨h, hnone⟩
    obtain ⟨i, hstep⟩ := hnext
    rcases ne_or_eq j i with hj | rfl
    · rw [hstep.phase_other hj] at hleading; exact hu.2 j hleading
    · cases hstep with
      | write hp =>
          simp at hleading
          rw [hleading] at hp
          exact hu.1.written j (.inr hp)
      | _ => simp at hleading
  exact hkept.2

end Steps

namespace Sample

def world (p q : Phase) (lock : Option Bool) : World Bool :=
  ⟨fun first => if first then p else q, lock, some 5, [5]⟩

def start : World Bool := world .idle .idle none

theorem next_first {p p' q : Phase} {lock lock' : Option Bool}
    (h : Step true (world p q lock) { (world p q lock).put true p' with lock := lock' }) :
    Next (world p q lock) (world p' q lock') := by
  have hput : (world p q lock).put true p' = world p' q lock := by
    unfold World.put world
    congr 1
    funext first
    cases first <;> rfl
  rw [hput] at h
  exact ⟨true, h⟩

theorem next_second {p q q' : Phase} {lock lock' : Option Bool}
    (h : Step false (world p q lock) { (world p q lock).put false q' with lock := lock' }) :
    Next (world p q lock) (world p q' lock') := by
  have hput : (world p q lock).put false q' = world p q' lock := by
    unfold World.put world
    congr 1
    funext first
    cases first <;> rfl
  rw [hput] at h
  exact ⟨false, h⟩

theorem start_reachable : Reachable Started Next start :=
  .start ⟨fun first => by cases first <;> rfl, rfl, fun x h => by cases h; exact .head _⟩

/-- A call of `follower` that finds the lock held. -/
theorem proof_run (q : Phase) :
    ReflTransGen Next (world .idle q (some false)) (world (.proved 5) q (some false)) := by
  have hsampled : ReflTransGen Next (world .idle q (some false))
      (world (.sampled 5) q (some false)) :=
    (ReflTransGen.single (next_first (.follow rfl))).tail (next_first (.sample rfl rfl))
  have hprobing : ReflTransGen Next (world (.sampled 5) q (some false))
      (world (.probing 5) q (some false)) :=
    (ReflTransGen.single (next_first (.refused rfl (by simp [world])))).tail
      (next_first (.check rfl rfl))
  have hproved : ReflTransGen Next (world (.probing 5) q (some false))
      (world (.proved 5) q (some false)) :=
    (ReflTransGen.single (next_first (.contend rfl (by simp [world])))).tail
      (next_first (.prove rfl rfl))
  exact (hsampled.trans hprobing).trans hproved

theorem takeover_run : ReflTransGen Next start (world (.proved 5) .taken (some false)) := by
  have htaken : ReflTransGen Next start (world .idle .taken (some false)) :=
    (ReflTransGen.single (next_second (.lead rfl))).tail (next_second (.take rfl rfl))
  exact htaken.trans (proof_run .taken)

theorem verified_run : ReflTransGen Next start (world (.proved 5) .transient (some false)) := by
  have hprobing : ReflTransGen Next start (world .idle (.probing 5) none) :=
    (ReflTransGen.single (next_second (.verify 5 rfl))).tail (next_second (.check rfl rfl))
  have hseized : ReflTransGen Next start (world .idle .transient (some false)) :=
    hprobing.tail (next_second (.seize (.inr rfl) rfl))
  exact hseized.trans (proof_run .transient)

end Sample

/-- A proof is found in the name of a leader that is gone, while its successor has not written
yet; and one is found while nobody leads at all. -/
theorem follower_proof_unfounded :
    (¬ ∀ (s t : World Bool), Reachable Started Next s → ReflTransGen Next s t →
      ∀ v incarnation, s.phase v = .idle → t.phase v = .proved incarnation →
        ∃ w h, ReflTransGen Next s w ∧ ReflTransGen Next w t ∧ w.lock = some h ∧
          w.phase h = .leading incarnation) ∧
    ¬ ∀ (s t : World Bool), Reachable Started Next s → ReflTransGen Next s t →
      ∀ v incarnation, s.phase v = .idle → t.phase v = .proved incarnation →
        ∃ w h, ReflTransGen Next s w ∧ ReflTransGen Next w t ∧ w.lock = some h ∧
          (w.phase h).leads = true := by
  constructor
  · intro hall
    obtain ⟨w, h, hsw, -, -, hleading⟩ := hall _ _ Sample.start_reachable Sample.takeover_run true 5
      rfl rfl
    have hsettled : Settled 5 Sample.start := (reachable_sound Sample.start_reachable).content 5 rfl
    refine hsettled.leaderless (fun i hi => ?_) hsw h hleading
    cases i <;> cases hi
  · intro hall
    obtain ⟨w, h, -, hwt, -, hleads⟩ := hall _ _ Sample.start_reachable Sample.verified_run true 5
      rfl rfl
    rcases leads_run hwt hleads with hleads | hgone
    · cases h <;> cases hleads
    · cases h <;> cases hgone

theorem follower_proof_sample :
    ∃ w h, ReflTransGen Next Sample.start w ∧
      ReflTransGen Next w (Sample.world (.proved 5) .taken (some false)) ∧
      w.phase true = .probing 5 ∧ w.lock = some h ∧ w.content = some 5 ∧
      (w.phase h ≠ .transient → w.phase h = .leading 5 ∨ (w.phase h).unwritten = true) :=
  follower_proof _ _ Sample.start_reachable Sample.takeover_run true 5 rfl rfl

end Baleyg.Topology.Follower
