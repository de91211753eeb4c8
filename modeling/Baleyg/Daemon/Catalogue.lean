/-
The worker that builds the dependency catalogue.

A request gives the catalogue a new generation, cancels the one before, and starts a worker
if none runs.  The worker takes up whatever generation there is, builds a catalogue for the
revision the store is at, and publishes it if the generation is still the same; then it takes
up the next one, or, if there was no request since, stops to run.

All that decides is done under one lock, and whether the worker stops and whether a request
starts another are decided by the same two fields.  So a generation that was not taken up has
a worker that is going to (`Sound.idle`), and it takes it up within six of its own steps
(`picks_up`).  The store's revision is no part of what the lock covers: it is compared after
the build and before the lock is taken, and the store may move in between.
-/
import Baleyg.Lib.Exclusive
import Baleyg.Lib.Runs

namespace Baleyg.Daemon.Catalogue

open Relation (ReflTransGen)
open Runs (Reachable Trace)
open Exclusive (Locked)

/-- The state that the status route reports. -/
inductive Status where
  | disabled
  | loading
  | ready
  | failed
  deriving DecidableEq

/-- A catalogue and the revision it describes.  The generation it was built for is not in the
source. -/
structure Catalog (R : Type*) where
  generation : Nat
  workspaceRevision : R
  deriving DecidableEq

/-- `DependencyIndex`. -/
structure Index (R : Type*) where
  generation : Nat
  /-- Which of the flags is the present generation's. -/
  cancel : Nat
  stopped : Bool
  workerRunning : Bool
  state : Status
  catalog : Option (Catalog R)
  warnings : List String

inductive Phase (R : Type*) where
  | absent
  | head
  /-- It has taken up a generation, with its flag. -/
  | picked (generation cancel : Nat)
  /-- The store's revision is read, and the catalogue is being built for it. -/
  | building (generation cancel : Nat) (revision : R)
  | built (generation cancel : Nat) (revision : R)
  /-- What is to be published: a catalogue for a revision, or an error. -/
  | checked (generation cancel : Nat) (result : Option R)
  | leaving (generation : Nat)
  | done

namespace Phase

variable {R : Type*}

def live : Phase R → Bool
  | absent | done => false
  | _ => true

def generation : Phase R → Option Nat
  | picked g _ | building g _ _ | built g _ _ | checked g _ _ | leaving g => some g
  | absent | head | done => none

/-- The worker is at a generation, with a flag, and has nothing to publish yet. -/
def Works (g cancel : Nat) (p : Phase R) : Prop :=
  p = picked g cancel ∨ ∃ revision, p = building g cancel revision ∨ p = built g cancel revision

/-- The steps it takes the worker to take up a generation, if there is a new one. -/
def rank : Phase R → Nat
  | absent | done => 0
  | head => 1
  | leaving _ => 2
  | checked .. => 3
  | built .. => 4
  | building .. => 5
  | picked .. => 6

end Phase

structure World (ι R : Type*) where
  /-- There are `dependency_options`. -/
  configured : Bool
  index : Index R
  cancelled : Nat → Bool
  revision : R
  phase : ι → Phase R
  /-- The generation last taken up, which the source does not keep. -/
  taken : Nat

variable {ι R : Type*}

/-! ### What is done under the lock -/

namespace World

/-- `request_build`, and whether a worker is to be started. -/
def requestBuild (s : World ι R) : Bool × World ι R :=
  if s.index.stopped then
    (false, s)
  else
    (!s.index.workerRunning,
      { s with
        cancelled := Function.update (Function.update s.cancelled s.index.cancel true)
          (s.index.cancel + 1) false
        index := { s.index with
          generation := s.index.generation + 1
          cancel := s.index.cancel + 1
          state := .loading
          catalog := none
          warnings := []
          workerRunning := true } })

/-- The last part of `publish_dependency_index`. -/
def publish (s : World ι R) (generation cancel : Nat) (result : Option R) : World ι R :=
  if s.index.stopped || s.index.generation != generation || s.cancelled cancel then
    s
  else
    match result with
    | some revision =>
        { s with index := { s.index with
          state := .ready
          catalog := some ⟨generation, revision⟩ } }
    | none =>
        { s with index := { s.index with
          state := .failed
          catalog := none
          warnings :=
            ["Dependency catalog build failed or workspace changed; refresh to retry"] } }

def cancelActive (s : World ι R) : World ι R :=
  { s with
    cancelled := Function.update s.cancelled s.index.cancel true
    index := { s.index with
      stopped := true
      generation := s.index.generation + 1
      catalog := none
      state := if s.configured then .failed else s.index.state
      warnings :=
        if s.configured then ["Dependency indexing cancelled during shutdown"]
        else s.index.warnings } }

def catalogSnapshot [DecidableEq R] (s : World ι R) (revision : R) : Option (Catalog R) :=
  s.index.catalog.filter fun catalog => catalog.workspaceRevision == revision

def shown (s : World ι R) : Status × Option (Catalog R) × List String :=
  (s.index.state, s.index.catalog, s.index.warnings)

variable [DecidableEq ι]

def put (s : World ι R) (i : ι) (p : Phase R) : World ι R :=
  { s with phase := Function.update s.phase i p }

def quit (s : World ι R) (i : ι) : World ι R :=
  { s.put i .done with index := { s.index with workerRunning := false } }

end World

variable [DecidableEq ι]

/-! ### Steps -/

/-- A step of a worker, or of anybody else. -/
inductive Step : World ι R → Option ι → World ι R → Prop where
  /-- `start_dependency_index`. -/
  | start {s : World ι R} (i : ι) (hoptions : s.configured = true) (h : s.phase i = .absent)
      (hstarts : s.requestBuild.1 = true) : Step s none (s.requestBuild.2.put i .head)
  | request {s : World ι R} (hoptions : s.configured = true) (hruns : s.requestBuild.1 = false) :
      Step s none s.requestBuild.2
  | cancelActive {s : World ι R} : Step s none s.cancelActive
  /-- Another revision is published. -/
  | move {s : World ι R} (revision : R) : Step s none { s with revision }
  | stop {s : World ι R} {i : ι} (h : s.phase i = .head) (hstopped : s.index.stopped = true) :
      Step s (some i) (s.quit i)
  | pick {s : World ι R} {i : ι} (h : s.phase i = .head) (hgo : s.index.stopped = false) :
      Step s (some i) { s.put i (.picked s.index.generation s.index.cancel) with
        taken := s.index.generation }
  | status {s : World ι R} {i : ι} {g cancel : Nat} (h : s.phase i = .picked g cancel) :
      Step s (some i) (s.put i (.building g cancel s.revision))
  | build {s : World ι R} {i : ι} {g cancel : Nat} {revision : R}
      (h : s.phase i = .building g cancel revision) :
      Step s (some i) (s.put i (.built g cancel revision))
  | check {s : World ι R} {i : ι} {g cancel : Nat} {revision : R}
      (h : s.phase i = .built g cancel revision) (hsame : s.revision = revision) :
      Step s (some i) (s.put i (.checked g cancel (some revision)))
  /-- The store has no answer or another revision, the build fails or is cancelled, or the
  blocking worker panics. -/
  | fail {s : World ι R} {i : ι} {g cancel : Nat} (h : (s.phase i).Works g cancel) :
      Step s (some i) (s.put i (.checked g cancel none))
  | publish {s : World ι R} {i : ι} {g cancel : Nat} {result : Option R}
      (h : s.phase i = .checked g cancel result) :
      Step s (some i) ((s.publish g cancel result).put i (.leaving g))
  | leave {s : World ι R} {i : ι} {g : Nat} (h : s.phase i = .leaving g)
      (hlast : s.index.stopped = true ∨ s.index.generation = g) : Step s (some i) (s.quit i)
  | again {s : World ι R} {i : ι} {g : Nat} (h : s.phase i = .leaving g)
      (hgo : s.index.stopped = false) (hnew : s.index.generation ≠ g) :
      Step s (some i) (s.put i .head)

def Next (s t : World ι R) : Prop := ∃ who, Step s who t

/-- A new daemon's state. -/
structure Started (s : World ι R) : Prop where
  absent : ∀ i, s.phase i = .absent
  index : s.index = ⟨0, 0, false, false, if s.configured then .loading else .disabled, none, []⟩
  cancelled : s.cancelled 0 = false
  taken : s.taken = 0

section Steps

variable {s t : World ι R} {i j : ι} {p : Phase R} {who : Option ι}

@[simp] theorem phase_put_same : (s.put i p).phase i = p := Function.update_self ..

@[simp] theorem phase_put_other (h : j ≠ i) : (s.put i p).phase j = s.phase j :=
  Function.update_of_ne h ..

@[simp] theorem index_put : (s.put i p).index = s.index := rfl

omit [DecidableEq ι] in
@[simp] theorem phase_publish {g cancel : Nat} {result : Option R} :
    (s.publish g cancel result).phase = s.phase := by
  unfold World.publish
  split
  · rfl
  · cases result <;> rfl

omit [DecidableEq ι] in
@[simp] theorem phase_requestBuild : s.requestBuild.2.phase = s.phase := by
  unfold World.requestBuild
  split <;> rfl

theorem Step.phase_other (h : Step s who t) (hj : who ≠ some j) (hpresent : s.phase j ≠ .absent) :
    t.phase j = s.phase j := by
  have hput : ∀ {i : ι} {p : Phase R}, some i ≠ some j → (s.put i p).phase j = s.phase j :=
    fun hi => phase_put_other fun hsame => hi (congrArg some hsame.symm)
  cases h with
  | start i hoptions habsent hstarts =>
      have hne : j ≠ i := fun hsame => hpresent (hsame ▸ habsent)
      rw [phase_put_other hne, phase_requestBuild]
  | request hoptions hruns => rw [phase_requestBuild]
  | cancelActive | move _ => rfl
  | publish hp =>
      rw [phase_put_other fun hsame => hj (congrArg some hsame.symm), phase_publish]
  | stop hp _ | pick hp _ | status hp | build hp | check hp _ | fail hp | leave hp _
  | again hp _ _ => exact hput hj

theorem Step.phase_before (h : Step s who t) (hj : who ≠ some j) (hp : t.phase j = p)
    (hhead : p ≠ .head) : s.phase j = p := by
  by_cases hpresent : s.phase j = .absent
  · have hne : ∀ {i : ι}, who = some i → j ≠ i := fun hwho hsame => hj (hsame ▸ hwho)
    cases h with
    | start i hoptions hfree hstarts =>
        by_cases hij : j = i
        · subst hij
          rw [phase_put_same] at hp
          exact absurd hp.symm hhead
        · rw [phase_put_other hij, phase_requestBuild] at hp; exact hp
    | request hoptions hruns => rw [phase_requestBuild] at hp; exact hp
    | cancelActive | move _ => exact hp
    | publish hphase => rw [phase_put_other (hne rfl), phase_publish] at hp; exact hp
    | stop _ _ | pick _ _ | status _ | build _ | check _ _ | fail _ | leave _ _ | again _ _ _ =>
        exact (phase_put_other (hne rfl)).symm.trans hp
  · exact (h.phase_other hj hpresent).symm.trans hp

omit [DecidableEq ι] in
theorem Phase.Works.live {g cancel : Nat} (h : p.Works g cancel) : p.live = true := by
  rcases h with rfl | ⟨revision, rfl | rfl⟩ <;> rfl

omit [DecidableEq ι] in
theorem Phase.Works.generation {g cancel : Nat} (h : p.Works g cancel) :
    p.generation = some g := by
  rcases h with rfl | ⟨revision, rfl | rfl⟩ <;> rfl

omit [DecidableEq ι] in
theorem Phase.rank_le (p : Phase R) : p.rank ≤ 6 := by
  cases p <;> simp [rank]

omit [DecidableEq ι] in
theorem Phase.rank_pos (h : p.live = true) : 0 < p.rank := by
  cases p <;> simp [live, rank] at h ⊢

omit [DecidableEq ι] in
theorem Phase.generation_of_not_live (h : p.live = false) : p.generation = none := by
  cases p <;> first
    | rfl
    | cases h

omit [DecidableEq ι] in
/-- A request that starts a worker finds none, and one that starts none is refused or finds
one. -/
theorem requestBuild_cases :
    s.index.stopped = true ∧ s.requestBuild = (false, s) ∨
      s.index.stopped = false ∧ s.requestBuild.1 = !s.index.workerRunning ∧
        s.requestBuild.2.index.generation = s.index.generation + 1 ∧
        s.requestBuild.2.index.stopped = false ∧
        s.requestBuild.2.index.workerRunning = true ∧
        s.requestBuild.2.index.catalog = none := by
  unfold World.requestBuild
  cases hstopped : s.index.stopped with
  | true => exact .inl ⟨rfl, if_pos rfl⟩
  | false => exact .inr ⟨rfl, rfl, rfl, hstopped, rfl, rfl⟩

omit [DecidableEq ι] in
/-- A publication changes nothing that decides, and nothing at all for a generation that is not
the present one. -/
theorem publish_cases (s : World ι R) (g cancel : Nat) (result : Option R) :
    s.publish g cancel result = s ∨
      s.index.stopped = false ∧ s.index.generation = g ∧ s.cancelled cancel = false ∧
        (s.publish g cancel result).index.generation = s.index.generation ∧
        (s.publish g cancel result).index.stopped = s.index.stopped ∧
        (s.publish g cancel result).index.workerRunning = s.index.workerRunning ∧
        (s.publish g cancel result).taken = s.taken ∧
        (s.publish g cancel result).index.catalog = result.map (Catalog.mk g) := by
  unfold World.publish
  split
  · exact .inl rfl
  · rename_i hcurrent
    simp only [Bool.or_eq_true, bne_iff_ne, ne_eq, not_or, Bool.not_eq_true, not_not] at hcurrent
    obtain ⟨⟨hstopped, hgeneration⟩, hcancelled⟩ := hcurrent
    refine .inr ⟨hstopped, hgeneration, hcancelled, ?_⟩
    cases result <;> exact ⟨rfl, rfl, rfl, rfl, rfl⟩

end Steps

/-! ### One worker, and none that leaves work behind -/

structure Sound (s : World ι R) : Prop where
  /-- A worker runs if and only if the index says so, and only one. -/
  driver : ∃ worker, Locked Phase.live s.phase worker ∧ s.index.workerRunning = worker.isSome
  /-- What a worker is at is what was last taken up. -/
  held : ∀ i g, (s.phase i).generation = some g → g = s.taken
  taken_le : s.taken ≤ s.index.generation
  /-- Where no worker runs, there is nothing to take up. -/
  idle : s.index.stopped = false → s.index.workerRunning = false → s.taken = s.index.generation
  slot : ∀ catalog, s.index.catalog = some catalog →
    catalog.generation = s.index.generation ∧ s.index.stopped = false

section Invariant

variable {s t : World ι R} {i : ι} {p : Phase R} {who : Option ι}

theorem Sound.put (h : Sound s) (hp : p.live = (s.phase i).live)
    (hheld : ∀ g, p.generation = some g → g = s.taken) : Sound (s.put i p) := by
  obtain ⟨worker, hlocked, hrunning⟩ := h.driver
  refine ⟨⟨worker, hlocked.keep hp, hrunning⟩, fun j g hg => ?_, h.taken_le, h.idle, h.slot⟩
  by_cases hj : j = i
  · subst hj
    rw [phase_put_same] at hg
    exact hheld g hg
  · rw [phase_put_other hj] at hg; exact h.held j g hg

theorem Sound.quit (h : Sound s) (hlive : (s.phase i).live = true)
    (hlast : s.index.stopped = true ∨ s.taken = s.index.generation) : Sound (s.quit i) := by
  obtain ⟨worker, hlocked, hrunning⟩ := h.driver
  refine ⟨⟨none, hlocked.drop rfl hlive, rfl⟩, fun j g hg => ?_, h.taken_le,
    fun hstopped _ => ?_, h.slot⟩
  · by_cases hj : j = i
    · subst hj
      have hdone : (s.quit j).phase j = .done := phase_put_same
      rw [hdone] at hg
      cases hg
    · have hsame : (s.quit i).phase j = s.phase j := phase_put_other hj
      rw [hsame] at hg
      exact h.held j g hg
  · rcases hlast with hlast | hlast
    · have hgo : s.index.stopped = false := hstopped
      rw [hlast] at hgo
      cases hgo
    · exact hlast

omit [DecidableEq ι] in
theorem Sound.publish (h : Sound s) (g cancel : Nat) (result : Option R) :
    Sound (s.publish g cancel result) := by
  rcases publish_cases s g cancel result with hsame |
    ⟨hstopped, hgeneration, -, hgen, hstop, hrun, htaken, hcatalog⟩
  · rw [hsame]; exact h
  refine ⟨?_, fun j g' hg => ?_, ?_, fun hstopped' hrunning => ?_, fun catalog hslot => ?_⟩
  · rw [phase_publish, hrun]; exact h.driver
  · rw [phase_publish] at hg
    rw [htaken]
    exact h.held j g' hg
  · rw [htaken, hgen]; exact h.taken_le
  · rw [hstop] at hstopped'
    rw [hrun] at hrunning
    rw [htaken, hgen]
    exact h.idle hstopped' hrunning
  · rw [hcatalog, Option.map_eq_some_iff] at hslot
    obtain ⟨revision, -, rfl⟩ := hslot
    rw [hgen, hstop]
    exact ⟨hgeneration.symm, hstopped⟩

omit [DecidableEq ι] in
theorem Sound.request (h : Sound s) (hruns : s.requestBuild.1 = false) :
    Sound s.requestBuild.2 := by
  rcases requestBuild_cases (s := s) with ⟨-, hsame⟩ |
    ⟨hstopped, hstarts, hgeneration, hgo, hrunning, hcatalog⟩
  · rw [hsame]; exact h
  obtain ⟨worker, hlocked, hworker⟩ := h.driver
  have htaken : s.requestBuild.2.taken = s.taken := by
    unfold World.requestBuild
    split <;> rfl
  rw [hruns] at hstarts
  have hworks : s.index.workerRunning = true := by simpa using hstarts.symm
  refine ⟨⟨worker, ?_, ?_⟩, fun j g hg => ?_, ?_, fun _ hnone => ?_, fun catalog hslot => ?_⟩
  · rw [phase_requestBuild]; exact hlocked
  · rw [hrunning, ← hworker, hworks]
  · rw [phase_requestBuild] at hg
    rw [htaken]
    exact h.held j g hg
  · have hle := h.taken_le
    rw [htaken, hgeneration]
    omega
  · rw [hrunning] at hnone; cases hnone
  · rw [hcatalog] at hslot; cases hslot

theorem Sound.start (h : Sound s) (hstarts : s.requestBuild.1 = true) :
    Sound (s.requestBuild.2.put i .head) := by
  rcases requestBuild_cases (s := s) with ⟨-, hsame⟩ |
    ⟨hstopped, hrun, hgeneration, hgo, hrunning, hcatalog⟩
  · rw [hsame] at hstarts; cases hstarts
  obtain ⟨worker, hlocked, hworker⟩ := h.driver
  have htaken : s.requestBuild.2.taken = s.taken := by
    unfold World.requestBuild
    split <;> rfl
  have hnone : worker = none := by
    rw [hrun, hworker] at hstarts
    simpa using hstarts
  refine ⟨⟨some i, ?_, hrunning⟩, fun j g hg => ?_, ?_, fun _ hidle => ?_, fun catalog hslot => ?_⟩
  · have htake := hlocked.take (i := i) (p := Phase.head) rfl hnone
    unfold World.put
    rw [phase_requestBuild]
    exact htake
  · by_cases hj : j = i
    · subst hj
      rw [phase_put_same] at hg
      cases hg
    · rw [phase_put_other hj, phase_requestBuild] at hg
      exact (h.held j g hg).trans htaken.symm
  · have hle : s.requestBuild.2.taken ≤ s.requestBuild.2.index.generation := by
      have hle := h.taken_le
      rw [htaken, hgeneration]
      omega
    exact hle
  · have hidle : s.requestBuild.2.index.workerRunning = false := hidle
    rw [hrunning] at hidle
    cases hidle
  · have hslot : s.requestBuild.2.index.catalog = some catalog := hslot
    rw [hcatalog] at hslot
    cases hslot

/-- **One step.** -/
theorem Sound.next (h : Sound s) (hstep : Step s who t) : Sound t := by
  cases hstep with
  | start i hoptions habsent hstarts => exact h.start hstarts
  | request hoptions hruns => exact h.request hruns
  | cancelActive =>
      refine ⟨h.driver, h.held, Nat.le_succ_of_le h.taken_le, fun hgo => ?_, fun _ hslot => ?_⟩
      · cases hgo
      · cases hslot
  | move revision => exact ⟨h.driver, h.held, h.taken_le, h.idle, h.slot⟩
  | stop hp hstopped => exact h.quit (by rw [hp]; rfl) (.inl hstopped)
  | @pick i hp hgo =>
      have hworker : (s.phase i).live = true := by rw [hp]; rfl
      obtain ⟨worker, hlocked, hrunning⟩ := h.driver
      refine ⟨⟨worker, hlocked.keep (by rw [hp]; rfl), hrunning⟩, fun j g hg => ?_, Nat.le_refl _,
        fun _ _ => rfl, h.slot⟩
      by_cases hj : j = i
      · subst hj
        have hpicked : (s.put j (.picked s.index.generation s.index.cancel)).phase j =
          .picked s.index.generation s.index.cancel := phase_put_same
        rw [hpicked] at hg
        cases hg
        rfl
      · have hsame : (s.put i (.picked s.index.generation s.index.cancel)).phase j = s.phase j :=
          phase_put_other hj
        rw [hsame] at hg
        -- nobody else is at a generation
        rw [Phase.generation_of_not_live (hlocked.not_holds hworker hj)] at hg
        cases hg
  | @status i g cancel hp | @build i g cancel _ hp | @check i g cancel _ hp _ =>
      refine h.put (by rw [hp]; rfl) fun g' hg => h.held i g' ?_
      rw [hp]
      exact hg
  | @fail i g cancel hp =>
      refine h.put ?_ fun g' hg => h.held i g' ?_
      · rw [hp.live]; rfl
      · rw [hp.generation]; exact hg
  | @publish i g cancel result hp =>
      refine (h.publish g cancel result).put ?_ fun g' hg => (h.publish g cancel result).held i g' ?_
      · rw [phase_publish, hp]; rfl
      · rw [phase_publish, hp]; exact hg
  | @leave i g hp hlast =>
      refine h.quit (by rw [hp]; rfl) (hlast.imp_right fun hsame => ?_)
      rw [hsame]
      exact (h.held i g (by rw [hp]; rfl)).symm
  | again hp hgo hnew => exact h.put (by rw [hp]; rfl) fun g' hg => by cases hg

omit [DecidableEq ι] in
theorem Started.sound (h : Started s) : Sound s := by
  have hindex := h.index
  refine ⟨⟨none, fun i => ?_, ?_⟩, fun i g hg => ?_, ?_, fun _ _ => ?_, fun catalog hslot => ?_⟩
  · rw [h.absent i]; exact iff_of_false Bool.false_ne_true (by simp)
  · rw [hindex]; rfl
  · rw [h.absent i] at hg; cases hg
  · rw [h.taken]; exact Nat.zero_le _
  · rw [h.taken, hindex]
  · rw [hindex] at hslot; cases hslot

theorem reachable_sound (h : Reachable Started Next s) : Sound s :=
  h.keeps (fun _ => Started.sound) fun _ _ hnext hsound => by
    obtain ⟨who, hstep⟩ := hnext
    exact hsound.next hstep

end Invariant

/-! ### What is asked for is taken up -/

section Progress

variable {s t : World ι R} {i : ι} {who : Option ι}

/-- **A worker is never stuck.** -/
theorem exists_step (h : (s.phase i).live = true) : ∃ t, Step s (some i) t := by
  cases hphase : s.phase i with
  | absent | done => rw [hphase] at h; cases h
  | head =>
      cases hstopped : s.index.stopped with
      | true => exact ⟨_, .stop hphase hstopped⟩
      | false => exact ⟨_, .pick hphase hstopped⟩
  | picked g cancel => exact ⟨_, .status hphase⟩
  | building g cancel revision => exact ⟨_, .build hphase⟩
  | built g cancel revision => exact ⟨_, .fail (.inr ⟨revision, .inr hphase⟩)⟩
  | checked g cancel result => exact ⟨_, .publish hphase⟩
  | leaving g =>
      by_cases hlast : s.index.stopped = true ∨ s.index.generation = g
      · exact ⟨_, .leave hphase hlast⟩
      · rw [not_or, Bool.not_eq_true] at hlast; exact ⟨_, .again hphase hlast.1 hlast.2⟩

/-- Generations only rise, and what is stopped stays so. -/
structure Later (s t : World ι R) : Prop where
  generation : s.index.generation ≤ t.index.generation
  stopped : s.index.stopped = true → t.index.stopped = true

omit [DecidableEq ι] in
theorem later_publish (g cancel : Nat) (result : Option R) :
    Later s (s.publish g cancel result) := by
  rcases publish_cases s g cancel result with hsame | ⟨-, -, -, hgen, hstop, -⟩
  · rw [hsame]; exact ⟨Nat.le_refl _, id⟩
  · exact ⟨Nat.le_of_eq hgen.symm, fun h => hstop.trans h⟩

omit [DecidableEq ι] in
theorem later_requestBuild : Later s s.requestBuild.2 := by
  rcases requestBuild_cases (s := s) with ⟨-, hsame⟩ | ⟨hgo, -, hgen, -⟩
  · rw [hsame]; exact ⟨Nat.le_refl _, id⟩
  · refine ⟨by omega, fun h => ?_⟩
    rw [hgo] at h
    cases h

theorem Step.later (h : Step s who t) : Later s t := by
  cases h with
  | start i hoptions habsent hstarts => exact ⟨later_requestBuild.1, later_requestBuild.2⟩
  | request hoptions hruns => exact later_requestBuild
  | cancelActive => exact ⟨Nat.le_succ _, fun _ => rfl⟩
  | publish hp => exact ⟨(later_publish _ _ _).1, (later_publish _ _ _).2⟩
  | move _ | stop _ _ | pick _ _ | status _ | build _ | check _ _ | fail _ | leave _ _
  | again _ _ _ => exact ⟨Nat.le_refl _, id⟩

/-- Only the head of the loop takes up a generation, and it takes up the present one. -/
theorem Step.taken (h : Step s who t) :
    t.taken = s.taken ∨ t.taken = t.index.generation := by
  cases h with
  | pick hp hgo => exact .inr rfl
  | start i hoptions habsent hstarts =>
      refine .inl ?_
      show s.requestBuild.2.taken = s.taken
      unfold World.requestBuild
      split <;> rfl
  | request hoptions hruns =>
      refine .inl ?_
      unfold World.requestBuild
      split <;> rfl
  | @publish i g cancel result hp =>
      refine .inl ?_
      show (s.publish g cancel result).taken = s.taken
      rcases publish_cases s g cancel result with hsame | ⟨-, -, -, -, -, -, htaken, -⟩
      · rw [hsame]
      · exact htaken
  | cancelActive | move _ | stop _ _ | status _ | build _ | check _ _ | fail _ | leave _ _
  | again _ _ _ => exact .inl rfl

/-- While there is something to take up, a worker's step brings it nearer. -/
theorem Step.nearer (h : Step s (some i) t) (hsound : Sound s) (hnew : s.taken < s.index.generation) :
    t.index.stopped = true ∨ t.taken = t.index.generation ∨
      (t.phase i).live = true ∧ (t.phase i).rank + 1 ≤ (s.phase i).rank := by
  cases h with
  | stop hp hstopped => exact .inl hstopped
  | pick hp hgo => exact .inr (.inl rfl)
  | leave hp hlast =>
      rename_i g
      rcases hlast with hstopped | hsame
      · exact .inl hstopped
      · have hg : g = s.taken := hsound.held i g (by rw [hp]; rfl)
        omega
  | status hp | build hp | check hp _ | publish hp | again hp _ _ =>
      refine .inr (.inr ?_)
      rw [phase_put_same, hp]
      exact ⟨rfl, Nat.le_refl _⟩
  | @fail i g cancel hp =>
      refine .inr (.inr ?_)
      rw [phase_put_same]
      refine ⟨rfl, ?_⟩
      rcases hp with hp | ⟨revision, hp | hp⟩ <;> rw [hp] <;> simp [Phase.rank]

/-- **Six steps of the worker take up what there is to take up.** -/
theorem picks_up (hsound : Sound s) (hlive : (s.phase i).live = true) {n : Nat}
    {steps : List (World ι R × Option ι × World ι R)} (htrace : Trace Step s steps t)
    (hn : (steps.filter fun step => step.2.1 = some i).length = n) :
    Sound t ∧ (t.index.stopped = true ∨ s.index.generation ≤ t.taken ∨
      (t.phase i).live = true ∧ (t.phase i).rank + n ≤ (s.phase i).rank) := by
  induction htrace generalizing n with
  | nil => subst hn; exact ⟨hsound, .inr (.inr ⟨hlive, Nat.le_refl _⟩)⟩
  | @snoc t u who steps htrace hlast ih =>
      obtain ⟨ht, hcases⟩ := ih rfl
      have hlater := hlast.later
      have hu := ht.next hlast
      refine ⟨hu, ?_⟩
      rw [List.filter_append, List.length_append] at hn
      rcases hcases with hstopped | htaken | ⟨hlive, hrank⟩
      · exact .inl (hlater.stopped hstopped)
      · refine .inr (.inl ?_)
        have hle := ht.taken_le
        have hgen := hlater.generation
        rcases hlast.taken with hsame | hpresent <;> omega
      · have hgen : s.index.generation ≤ t.index.generation :=
          Runs.keeps_run (I := fun v => s.index.generation ≤ v.index.generation)
            (fun _ _ hstep hle => by
              obtain ⟨_, hstep⟩ := hstep
              exact Nat.le_trans hle hstep.later.generation) htrace.run (Nat.le_refl _)
        by_cases hdone : s.index.generation ≤ t.taken
        · refine .inr (.inl ?_)
          have hle := ht.taken_le
          have hgen' := hlater.generation
          rcases hlast.taken with hsame | hpresent <;> omega
        by_cases hwho : who = some i
        · subst hwho
          rcases hlast.nearer ht (by omega) with hstopped | hpresent | ⟨hlive', hrank'⟩
          · exact .inl hstopped
          · refine .inr (.inl ?_)
            have hgen' := hlater.generation
            omega
          · refine .inr (.inr ⟨hlive', ?_⟩)
            simp at hn
            omega
        · have hsame := hlast.phase_other hwho fun habsent => by
            rw [habsent] at hlive
            cases hlive
          refine .inr (.inr ?_)
          simp [hwho] at hn
          rw [hsame]
          exact ⟨hlive, by omega⟩

end Progress

/-! ### Which revision is published -/

/-- The worker has taken up the generation, and reads the store's revision. -/
structure Began (s : World ι R) (i : ι) (g cancel : Nat) (revision : R) : Prop where
  phase : s.phase i = .picked g cancel
  revision : s.revision = revision

/-- The catalogue is built, and the store is found at the same revision. -/
structure Compared (s : World ι R) (i : ι) (g cancel : Nat) (revision : R) : Prop where
  phase : s.phase i = .built g cancel revision
  revision : s.revision = revision

/-- The build began in the run, for that revision. -/
def Begun (s₀ s : World ι R) (i : ι) (g cancel : Nat) (revision : R) : Prop :=
  ∃ u, ReflTransGen Next s₀ u ∧ Began u i g cancel revision ∧ ReflTransGen Next u s

/-- The build began and was compared in the run, for that revision. -/
def Matched (s₀ s : World ι R) (i : ι) (g cancel : Nat) (revision : R) : Prop :=
  ∃ u v, ReflTransGen Next s₀ u ∧ Began u i g cancel revision ∧ ReflTransGen Next u v ∧
    Compared v i g cancel revision ∧ ReflTransGen Next v s

/-- What is at hand and what is published has been through it. -/
structure Trail (s₀ s : World ι R) : Prop where
  run : ReflTransGen Next s₀ s
  building : ∀ i g cancel revision, s.phase i = .building g cancel revision ∨
    s.phase i = .built g cancel revision → Begun s₀ s i g cancel revision
  checked : ∀ i g cancel revision, s.phase i = .checked g cancel (some revision) →
    Matched s₀ s i g cancel revision
  slot : ∀ catalog, s.index.catalog = some catalog →
    ∃ i cancel, Matched s₀ s i catalog.generation cancel catalog.workspaceRevision

section Trails

variable {s₀ s t : World ι R} {i : ι} {g cancel : Nat} {revision : R} {who : Option ι}

theorem Begun.next (h : Begun s₀ s i g cancel revision) (hnext : Next s t) :
    Begun s₀ t i g cancel revision := by
  obtain ⟨u, hu, hbegan, hrun⟩ := h
  exact ⟨u, hu, hbegan, hrun.tail hnext⟩

theorem Matched.next (h : Matched s₀ s i g cancel revision) (hnext : Next s t) :
    Matched s₀ t i g cancel revision := by
  obtain ⟨u, v, hu, hbegan, huv, hcompared, hrun⟩ := h
  exact ⟨u, v, hu, hbegan, huv, hcompared, hrun.tail hnext⟩

theorem Step.comes_to_build (h : Step s (some i) t)
    (hp : t.phase i = .building g cancel revision ∨ t.phase i = .built g cancel revision) :
    Began s i g cancel revision ∨ s.phase i = .building g cancel revision := by
  cases h with
  | status hphase =>
      simp at hp
      obtain ⟨rfl, rfl, hsame⟩ := hp
      exact .inl ⟨hphase, hsame⟩
  | build hphase =>
      simp at hp
      obtain ⟨rfl, rfl, rfl⟩ := hp
      exact .inr hphase
  | stop _ _ | pick _ _ | check _ _ | fail _ | publish _ | leave _ _ | again _ _ _ =>
      simp [World.quit] at hp

theorem Step.comes_to_publish (h : Step s (some i) t)
    (hp : t.phase i = .checked g cancel (some revision)) : Compared s i g cancel revision := by
  cases h with
  | check hphase hsame =>
      simp at hp
      obtain ⟨rfl, rfl, rfl⟩ := hp
      exact ⟨hphase, hsame⟩
  | stop _ _ | pick _ _ | status _ | build _ | fail _ | publish _ | leave _ _ | again _ _ _ =>
      simp [World.quit] at hp

/-- What comes to be published, a worker had at hand, for the present generation. -/
theorem Step.published (h : Step s who t) {catalog : Catalog R}
    (hslot : t.index.catalog = some catalog) :
    s.index.catalog = some catalog ∨ ∃ i cancel,
      s.phase i = .checked catalog.generation cancel (some catalog.workspaceRevision) := by
  have hrequest : s.requestBuild.2.index.catalog = some catalog →
      s.index.catalog = some catalog := fun hslot => by
    rcases requestBuild_cases (s := s) with ⟨-, hsame⟩ | ⟨-, -, -, -, -, hnone⟩
    · rw [hsame] at hslot; exact hslot
    · rw [hnone] at hslot; cases hslot
  cases h with
  | start | request => exact .inl (hrequest hslot)
  | cancelActive => cases hslot
  | @publish i g cancel result hp =>
      have hslot : (s.publish g cancel result).index.catalog = some catalog := hslot
      rcases publish_cases s g cancel result with hsame | ⟨-, -, -, -, -, -, -, hcatalog⟩
      · rw [hsame] at hslot; exact .inl hslot
      · rw [hcatalog, Option.map_eq_some_iff] at hslot
        obtain ⟨revision, rfl, rfl⟩ := hslot
        exact .inr ⟨i, cancel, hp⟩
  | move _ | stop _ _ | pick _ _ | status _ | build _ | check _ _ | fail _ | leave _ _
  | again _ _ _ => exact .inl hslot

theorem Trail.next (h : Trail s₀ s) (hstep : Step s who t) : Trail s₀ t := by
  have hnext : Next s t := ⟨who, hstep⟩
  refine ⟨h.run.tail hnext, fun i g cancel revision hp => ?_, fun i g cancel revision hp => ?_,
    fun catalog hslot => ?_⟩
  · by_cases hwho : who = some i
    · subst hwho
      rcases hstep.comes_to_build hp with hbegan | hbuilding
      · exact ⟨s, h.run, hbegan, .single hnext⟩
      · exact (h.building i g cancel revision (.inl hbuilding)).next hnext
    · refine (h.building i g cancel revision ?_).next hnext
      exact hp.imp (fun hp => hstep.phase_before hwho hp nofun) fun hp =>
        hstep.phase_before hwho hp nofun
  · by_cases hwho : who = some i
    · subst hwho
      have hcompared := hstep.comes_to_publish hp
      obtain ⟨u, hu, hbegan, hrun⟩ := h.building i g cancel revision (.inr hcompared.phase)
      exact ⟨u, s, hu, hbegan, hrun, hcompared, .single hnext⟩
    · exact (h.checked i g cancel revision (hstep.phase_before hwho hp nofun)).next hnext
  · rcases hstep.published hslot with hbefore | ⟨i, cancel, hp⟩
    · obtain ⟨i, cancel, hmatched⟩ := h.slot catalog hbefore
      exact ⟨i, cancel, hmatched.next hnext⟩
    · exact ⟨i, cancel, (h.checked i _ cancel _ hp).next hnext⟩

theorem trail_of_run (hstarted : Started s₀) (hrun : ReflTransGen Next s₀ s) : Trail s₀ s := by
  refine Runs.keeps_run (I := Trail s₀) (fun _ _ hnext h => ?_) hrun
    ⟨.refl, fun i g cancel revision hp => ?_, fun i g cancel revision hp => ?_,
      fun catalog hslot => ?_⟩
  · obtain ⟨who, hstep⟩ := hnext
    exact h.next hstep
  · rw [hstarted.absent i] at hp
    rcases hp with hp | hp <;> cases hp
  · rw [hstarted.absent i] at hp; cases hp
  · rw [hstarted.index] at hslot; cases hslot

/-- **Only the worker at the present generation publishes**, and only if it is not cancelled. -/
theorem Step.shows (h : Step s (some i) t) (hshown : t.shown ≠ s.shown) :
    ∃ cancel result, s.phase i = .checked s.index.generation cancel result ∧
      s.index.stopped = false ∧ s.cancelled cancel = false := by
  cases h with
  | @publish i g cancel result hp =>
      rcases publish_cases s g cancel result with hsame | ⟨hgo, hgeneration, hcancelled, -⟩
      · refine absurd ?_ hshown
        show (s.publish g cancel result).shown = s.shown
        rw [hsame]
      · rw [hgeneration]; exact ⟨cancel, result, hp, hgo, hcancelled⟩
  | stop _ _ | pick _ _ | status _ | build _ | check _ _ | fail _ | leave _ _ | again _ _ _ =>
      exact absurd rfl hshown

end Trails

/-- **The worker loses no request.**  In every state that a new daemon comes to: one worker
runs at most, and it can always go on; the present generation has been taken up, or there is a
worker that takes it up within six of its steps, unless the daemon is stopped; only the worker
that is at the present generation publishes, uncancelled; and the catalogue there is belongs
to that generation and was built for the revision that the store had when its build began and
again when it was compared after the build, for which alone it is handed out. -/
theorem no_request_lost [DecidableEq R] (s₀ s : World ι R) (hstarted : Started s₀)
    (hrun : ReflTransGen Next s₀ s) :
    (∀ i j, (s.phase i).live = true → (s.phase j).live = true → i = j) ∧
    (∀ i, (s.phase i).live = true → ∃ t, Step s (some i) t) ∧
    (s.index.stopped = false → s.taken = s.index.generation ∨
      ∃ i, (s.phase i).live = true ∧ ∀ t steps, Trace Step s steps t →
        6 ≤ (steps.filter fun step => step.2.1 = some i).length →
          t.index.stopped = true ∨ s.index.generation ≤ t.taken) ∧
    (∀ i t, Step s (some i) t → t.shown ≠ s.shown →
      ∃ cancel result, s.phase i = .checked s.index.generation cancel result ∧
        s.index.stopped = false ∧ s.cancelled cancel = false) ∧
    (∀ catalog, s.index.catalog = some catalog →
      catalog.generation = s.index.generation ∧ s.index.stopped = false ∧
        ∃ i cancel, Matched s₀ s i catalog.generation cancel catalog.workspaceRevision) ∧
    ∀ revision catalog, s.catalogSnapshot revision = some catalog →
      s.index.catalog = some catalog ∧ catalog.workspaceRevision = revision := by
  have hsound := reachable_sound ⟨s₀, hstarted, hrun⟩
  obtain ⟨worker, hlocked, hrunning⟩ := hsound.driver
  refine ⟨fun i j hi hj => hlocked.unique hi hj, fun i hi => exists_step hi, fun hgo => ?_,
    fun i t hstep hshown => hstep.shows hshown, fun catalog hslot => ?_,
    fun revision catalog hsnapshot => ?_⟩
  · cases worker with
    | none => exact .inl (hsound.idle hgo hrunning)
    | some i =>
        have hlive := (hlocked i).mpr rfl
        refine .inr ⟨i, hlive, fun t steps htrace hsteps => ?_⟩
        obtain ⟨-, hstopped | htaken | ⟨hlive', hrank⟩⟩ := picks_up hsound hlive htrace rfl
        · exact .inl hstopped
        · exact .inr htaken
        · -- six steps have used up the rank, and a worker that runs has some
          have hmost := (s.phase i).rank_le
          have hleast := Phase.rank_pos hlive'
          omega
  · obtain ⟨hgeneration, hgo⟩ := hsound.slot catalog hslot
    exact ⟨hgeneration, hgo, (trail_of_run hstarted hrun).slot catalog hslot⟩
  · unfold World.catalogSnapshot at hsnapshot
    rw [Option.filter_eq_some_iff] at hsnapshot
    exact ⟨hsnapshot.1, by simpa using hsnapshot.2⟩

namespace Sample

def start : World Unit Nat :=
  ⟨true, ⟨0, 0, false, false, .loading, none, []⟩, fun _ => false, 0, fun _ => .absent, 0⟩

theorem start_started : Started start := ⟨fun _ => rfl, rfl, rfl, rfl⟩

def asked : World Unit Nat := start.requestBuild.2.put () .head

theorem asked_run : ReflTransGen Next start asked := .single ⟨none, .start () rfl rfl rfl⟩

theorem exists_moved :
    ∃ s, ReflTransGen Next start s ∧ s.phase () = .checked 1 1 (some 0) ∧ s.revision = 1 ∧
      s.index.generation = 1 ∧ s.index.stopped = false ∧ s.index.catalog = none ∧
      s.cancelled 1 = false := by
  have hbegun := asked_run.tail ⟨some (), .pick rfl rfl⟩
  have hcompared := ((hbegun.tail ⟨some (), .status rfl⟩).tail ⟨some (), .build rfl⟩).tail
    ⟨some (), .check rfl rfl⟩
  exact ⟨_, hcompared.tail ⟨none, .move 1⟩, rfl, rfl, rfl, rfl, rfl, rfl⟩

end Sample

/-- A catalogue is published that was built for a revision the store no longer has. -/
theorem no_request_lost_moved :
    ¬ ∀ (s₀ s t : World Unit Nat), Started s₀ → ReflTransGen Next s₀ s → ∀ i catalog,
      Step s (some i) t → s.index.catalog = none → t.index.catalog = some catalog →
        catalog.workspaceRevision = t.revision := by
  intro hall
  obtain ⟨s, hrun, hphase, hrevision, hgeneration, hgo, hnone, hcancelled⟩ := Sample.exists_moved
  have hpublish : s.publish 1 1 (some 0) =
      { s with index := { s.index with state := .ready, catalog := some ⟨1, 0⟩ } } := by
    unfold World.publish
    rw [hgo, hgeneration, hcancelled]
    rfl
  have hcatalog : ((s.publish 1 1 (some 0)).put () (.leaving 1)).index.catalog = some ⟨1, 0⟩ := by
    rw [hpublish]
    rfl
  have hsame := hall Sample.start s _ Sample.start_started hrun () ⟨1, 0⟩ (.publish hphase) hnone
    hcatalog
  rw [hpublish] at hsame
  have hzero : 0 = s.revision := hsame
  omega

theorem no_request_lost_sample :
    ∃ i, (Sample.asked.phase i).live = true ∧ ∀ t steps, Trace Step Sample.asked steps t →
      6 ≤ (steps.filter fun step => step.2.1 = some i).length →
        t.index.stopped = true ∨ 1 ≤ t.taken := by
  obtain ⟨-, -, htaken, -⟩ :=
    no_request_lost Sample.start Sample.asked Sample.start_started Sample.asked_run
  exact (htaken rfl).resolve_left (by decide)

end Baleyg.Daemon.Catalogue
