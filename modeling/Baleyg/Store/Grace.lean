/-
The grace of a superseded revision.

A revision is due 900 seconds after its stamp, by a present that may run ahead of
the monotonic clock of the process by five seconds at most.  So a revision whose
stamp is not behind that clock keeps its grace to within five seconds, whatever the
wall clock does afterwards.  Nothing puts the stamp there, however: a publication
stamps the head it supersedes with the wall clock as it reads, and a wall clock that
was stepped back gives a stamp that is already old.

`Timed` is the invariant of a process whose superseding publications all read a wall
clock that is on time.  It speaks of two kinds of pins, those a probe has selected
and those the process has superseded, and both are behind the head: no row is ever
added for them, and `behind_row` says what may happen to the row they have.
-/
import Baleyg.Store.Quiescence

namespace Baleyg.Store

open Fallible

variable {digest : Preimage → String} {P : Set Preimage} {base db : Database}
  {ws : List Write} {now : Int} {pin : IndexPin}

/-! ### The row of a revision under a unit -/

/-- How a row of the supersessions comes out of a unit of the release of `pin`: it
keeps its stamp, and it stops being retained only when it is due. -/
structure Ages (pin : IndexPin) (now : Int) (s s' : Supersession) : Prop where
  revision : s.revision = s'.revision
  stamp : s.supersededAt = s'.supersededAt
  retained : s'.state = .retained → s.state = .retained
  due : s.state = .retained → s'.state ≠ .retained →
    s.revision = pin ∧ s.supersededAt ≤ graceStart now

theorem Ages.refl (pin : IndexPin) (now : Int) (s : Supersession) : Ages pin now s s where
  revision := rfl
  stamp := rfl
  retained := id
  due := fun h hnot => absurd h hnot

/-- **What a unit does to the rows of the supersessions.** -/
theorem yields_releaseUnit_ages (h : db.Sound digest P) (ho : db.Orderly) (o : Outside)
    (head : IndexPin) (now : Int) :
    Yields (releaseUnit o head now pin) db (fun _ db' => ∀ s' ∈ db'.supersessions,
      ∃ s ∈ db.supersessions, Ages pin now s s') fun _ _ => True := by
  refine yields_releaseUnit_of o head now (fun _ ⟨t, ht, hrev, _, hdue⟩ _ s' hs' => ?_)
    fun _ hstate s' hs' => ?_
  · rcases mem_setState.mp hs' with ⟨hs, -⟩ | ⟨hpin, hnew, hs⟩
    · exact ⟨s', hs, Ages.refl pin now s'⟩
    · have hsame : t = { s' with state := .retained } :=
        ho.supersessionsKeyed.eq_of_key ht hs (hrev.trans hpin.symm)
      refine ⟨_, hs, rfl, rfl, fun _ => rfl, fun _ _ => ⟨hpin, ?_⟩⟩
      rwa [hsame] at hdue
  · obtain ⟨r, hr, hrev, -⟩ := (Database.stateOf_eq_some ho.supersessionsKeyed).mp hstate
    have hpin : db.Headed pin := hrev ▸ h.foreignKeys.supersessionsHeaded r hr
    have hsame := (releases_cleaned h hpin).shed.supersessions
    unfold Database.continueRelease at hs'
    dsimp only at hs'
    split at hs'
    · rcases mem_setState.mp hs' with ⟨hs, -⟩ | ⟨-, hnew, hs⟩
      · exact ⟨s', hsame ▸ hs, Ages.refl pin now s'⟩
      · rw [hsame] at hs
        refine ⟨_, hs, rfl, rfl, fun hret => ?_, fun hret => ?_⟩
        · simp [hnew] at hret
        · simp at hret
    · exact ⟨s', hsame ▸ hs', Ages.refl pin now s'⟩

/-! ### One process -/

namespace World

def InProcess : Event → Prop
  | .boot _ => False
  | _ => True

def ProcessStep (digest : Preimage → String) (P : Set Preimage) (w w' : World) : Prop :=
  ∃ e, InProcess e ∧ Possible digest P w e ∧ w' = w.perform digest e

/-- The seconds the process has been running for. -/
def elapsed (w : World) : Nat := w.sample.mono - w.clock.originMono

/-- The wall clock reads no less than the process has seen pass. -/
def OnTime (w : World) : Prop := w.clock.originWall + (w.elapsed : Int) ≤ w.sample.wall

instance (w : World) : Decidable w.OnTime := inferInstanceAs (Decidable (_ ≤ _))

def Supersedes (w w' : World) : Prop :=
  ∃ c ∈ w'.commits.drop w.commits.length, c.superseded ≠ none

/-- A step that supersedes a head only by a wall clock that is on time. -/
def TimelyStep (digest : Preimage → String) (P : Set Preimage) (w w' : World) : Prop :=
  ProcessStep digest P w w' ∧ (Supersedes w w' → w.OnTime)

/-- No revision superseded since `opened` has left the retained state within 895
seconds. -/
def GraceKept (opened w : World) : Prop :=
  ∀ c ∈ w.commits.drop opened.commits.length, ∀ pin ∈ c.superseded,
    ∀ s ∈ w.disk.supersessions, s.revision = pin → s.state ≠ .retained →
      c.sample.mono + 895 ≤ w.sample.mono

/-- What an event of the process does to the clocks and the probes. -/
structure Passes (w w' : World) : Prop where
  clock : w'.clock = w.clock
  mono : w.sample.mono ≤ w'.sample.mono
  probes : ∀ p ∈ w'.probes, p ∈ w.probes ∨ p = w.disk.probe w.clock w.sample

variable {w w' opened : World}

theorem passes_of_process (h : ProcessStep digest P w w') : Passes w w' := by
  have hsame : ∀ v : World, v.clock = w.clock → v.sample = w.sample → v.probes = w.probes →
      Passes w v := fun v hclock hsample hprobes =>
    ⟨hclock, hsample ▸ Nat.le_refl _, fun p hp => Or.inl (hprobes ▸ hp)⟩
  obtain ⟨e, hin, hpossible, rfl⟩ := h
  cases e with
  | tick sample => exact ⟨rfl, hpossible, fun p hp => Or.inl hp⟩
  | boot sample => exact absurd hin id
  | classify disposition => exact hsame _ rfl rfl rfl
  | prepare plan expected =>
      show Passes w (w.prepare digest plan expected)
      unfold World.prepare
      split <;> exact hsame _ rfl rfl rfl
  | publish t o compatible incarnation generation =>
      show Passes w (w.publish digest t o compatible incarnation generation)
      unfold World.publish
      split <;> exact hsame _ rfl rfl rfl
  | probe =>
      show Passes w (if _ then _ else _)
      split
      · refine ⟨rfl, Nat.le_refl _, fun p hp => ?_⟩
        rcases List.mem_append.mp hp with hp | hp
        · exact Or.inl hp
        · exact Or.inr (List.mem_singleton.mp hp)
      · exact hsame _ rfl rfl rfl
  | unit p o =>
      show Passes w (w.unit p o)
      unfold World.unit
      split <;> exact hsame _ rfl rfl rfl
  | collect o =>
      show Passes w (w.collect o)
      unfold World.collect
      split <;> exact hsame _ rfl rfl rfl
  | recreate b o incarnation generation =>
      show Passes w (w.recreate digest b o incarnation generation)
      unfold World.recreate
      split
      · split <;> exact hsame _ rfl rfl rfl
      · exact hsame _ rfl rfl rfl

/-! ### Pins behind the head -/

def Behind (w : World) (pin : IndexPin) : Prop := w.Past pin ∧ pin ≠ w.disk.current

theorem Kept.past_of_headed (h : w.Kept digest P) (hpin : w.disk.Headed pin) : w.Past pin := by
  obtain ⟨r, hr, hrp⟩ := hpin
  obtain ⟨c, hc, hcp⟩ := h.headers r hr
  obtain rfl : c.pin = pin := hcp.trans hrp
  exact h.committed c hc

theorem Kept.behind_of_row (h : w.Kept digest P) {s : Supersession}
    (hs : s ∈ w.disk.supersessions) : w.Behind s.revision :=
  ⟨h.past_of_headed (h.sound.foreignKeys.supersessionsHeaded s hs),
    h.orderly.not_current h.sound.foreignKeys hs⟩

theorem behind_moves (hmove : Moves digest P w w') (hb : w.Behind pin) : w'.Behind pin := by
  have hsame : ∀ v : World, v.disk.metadata = w.disk.metadata → v.generations = w.generations →
      v.Behind pin := by
    intro v hmeta hgenerations
    have hcurrent : v.disk.current = w.disk.current := congrArg Metadata.pin hmeta
    unfold Behind Past
    rw [hcurrent, hgenerations]
    exact hb
  cases hmove with
  | rests w' hdisk hversion hgenerations hcommits htickets =>
      exact hsame w' (by rw [hdisk]) hgenerations
  | serves p o pin' db hp hselected hrun hs => exact hsame _ hs.metadata rfl
  | collects db hc hfk => exact hsame _ (by rw [World.written, hc.rest]) rfl
  | lands ws base db expected generation hfresh hbase hexpected hl =>
      have hmoved := past_lands hfresh hbase hl hb.1
      refine ⟨⟨List.mem_append_left _ hb.1.1, fun hgen => (hmoved hgen).le⟩, ?_⟩
      intro heq
      have hlt := hmoved (congrArg _ heq)
      have hrev : pin.indexRevision = db.current.indexRevision := congrArg _ heq
      omega

/-- **What one event does to the row of a pin that is behind**: it is a row there was
before, aged by a unit of some probe of that pin. -/
theorem behind_row (h : w.Kept digest P) (hmove : Moves digest P w w') (hb : w.Behind pin)
    {s' : Supersession} (hs' : s' ∈ w'.disk.supersessions) (hrev : s'.revision = pin) :
    ∃ s ∈ w.disk.supersessions, s.revision = pin ∧ s.supersededAt = s'.supersededAt
      ∧ (s'.state = .retained → s.state = .retained)
      ∧ (s.state = .retained → s'.state ≠ .retained →
        ∃ p ∈ w.probes, p.selected = some pin ∧ s.supersededAt ≤ graceStart p.now) := by
  suffices hage : s' ∈ w.disk.supersessions ∨ ∃ p ∈ w.probes, p.selected = some pin
      ∧ ∃ s ∈ w.disk.supersessions, Ages pin p.now s s' by
    rcases hage with hs | ⟨p, hp, hselected, s, hs, hage⟩
    · exact ⟨s', hs, hrev, rfl, id, fun hst hnot => absurd hst hnot⟩
    · exact ⟨s, hs, hage.revision.trans hrev, hage.stamp, hage.retained,
        fun hst hnot => ⟨p, hp, hselected, (hage.due hst hnot).2⟩⟩
  cases hmove with
  | rests w' hdisk hversion hgenerations hcommits htickets => exact Or.inl (hdisk ▸ hs')
  | collects db hc hfk =>
      have hrows : s' ∈ db.supersessions := hs'
      rw [hc.rest] at hrows
      exact Or.inl hrows
  | lands ws base db expected generation hfresh hbase hexpected hl =>
      have hrows : s' ∈ db.supersessions := hs'
      rw [hl.advances.stamped, List.mem_append] at hrows
      rcases hbase with rfl | rfl
      · refine Or.inl (hrows.resolve_right fun hstamp => hb.2 ?_)
        rw [← hrev, mem_stampAt hstamp]
      · rcases hrows with hrows | hrows <;> cases hrows
  | serves p o pin' db hp hselected hrun hs =>
      have hages := @yields_releaseUnit_ages digest P w.disk pin' h.sound h.orderly o p.head p.now
      unfold Yields at hages
      rw [hrun] at hages
      obtain ⟨s, hrow, hage⟩ := hages s' hs'
      by_cases hpin : pin' = pin
      · subst hpin; exact Or.inr ⟨p, hp, hselected, s, hrow, hage⟩
      · exact Or.inl (((hs.same pin (Ne.symm hpin)).supersessions s' hrev).mp hs')

/-! ### The invariant of a timely process -/

/-- What a probe selected is being released already, or the present the probe went by
is at most five seconds ahead of the process. -/
def Trusted (w : World) (p : Probe) : Prop :=
  ∀ pin ∈ p.selected, w.Behind pin
    ∧ ((∀ s ∈ w.disk.supersessions, s.revision = pin → s.state ≠ .retained)
      ∨ p.now ≤ w.clock.originWall + (w.elapsed : Int) + 5)

/-- What a commit superseded has a stamp that is not behind the process, and keeps its
grace. -/
def Graced (w : World) (c : Commit) : Prop :=
  ∀ pin ∈ c.superseded, w.Behind pin ∧ w.clock.originMono ≤ c.sample.mono
    ∧ ∀ s ∈ w.disk.supersessions, s.revision = pin →
      w.clock.originWall + ((c.sample.mono - w.clock.originMono : Nat) : Int) ≤ s.supersededAt
        ∧ (s.state ≠ .retained → c.sample.mono + 895 ≤ w.sample.mono)

/-- **What holds in a process whose superseding publications are all on time**, of the
commits past the first `n`. -/
structure Timed (n : Nat) (w : World) : Prop where
  since : n ≤ w.commits.length
  origin : w.clock.originMono ≤ w.sample.mono
  probes : ∀ p ∈ w.probes, w.Trusted p
  commits : ∀ c ∈ w.commits.drop n, w.Graced c

theorem Kept.trusted (h : w.Kept digest P) : w.Trusted (w.disk.probe w.clock w.sample) := by
  intro pin hselected
  unfold Database.probe at hselected
  dsimp only at hselected
  cases hhead : w.disk.debt.head? with
  | some owed =>
      rw [hhead] at hselected
      obtain rfl : owed = pin := Option.some.inj hselected
      obtain ⟨hstate, -⟩ := h.orderly.pending_of_debt h.sound.foreignKeys
        (List.mem_of_mem_head? hhead)
      obtain ⟨s, hs, rfl, hst⟩ :=
        (Database.stateOf_eq_some h.orderly.supersessionsKeyed).mp hstate
      refine ⟨h.behind_of_row hs, Or.inl fun t ht htrev => ?_⟩
      rw [h.orderly.supersessionsKeyed.eq_of_key ht hs htrev, hst]
      simp
  | none =>
      rw [hhead] at hselected
      obtain ⟨s, hfirst, rfl⟩ := Option.map_eq_some_iff.mp hselected
      have hdue := Table.first_mem hfirst
      unfold Database.dueFor at hdue
      split at hdue
      · rename_i hplausible
        refine ⟨h.behind_of_row (List.mem_filter.mp hdue).1, Or.inr ?_⟩
        show w.disk.presentAt w.sample.wall ≤ _
        unfold retentionClockPlausible saturatingAdd at hplausible
        rw [decide_eq_true_eq] at hplausible
        unfold elapsed
        omega
      · cases hdue

theorem Trusted.moves {p : Probe} (hp : w.Trusted p) (h : w.Kept digest P)
    (hmove : Moves digest P w w') (hpass : Passes w w') : w'.Trusted p := by
  intro pin hselected
  obtain ⟨hb, hrows⟩ := hp pin hselected
  refine ⟨behind_moves hmove hb, ?_⟩
  rcases hrows with hrows | hnow
  · left
    intro s' hs' hrev hret
    obtain ⟨s, hs, hsrev, -, hback, -⟩ := behind_row h hmove hb hs' hrev
    exact hrows s hs hsrev (hback hret)
  · right
    have hmono := hpass.mono
    unfold elapsed at hnow ⊢
    rw [hpass.clock]
    omega

/-- **A superseded revision keeps its grace over one event.** -/
theorem Graced.moves {c : Commit} (hc : w.Graced c) (h : w.Kept digest P)
    (horigin : w.clock.originMono ≤ w.sample.mono) (hprobes : ∀ p ∈ w.probes, w.Trusted p)
    (hmove : Moves digest P w w') (hpass : Passes w w') : w'.Graced c := by
  intro pin hpin
  obtain ⟨hb, hcommit, hrows⟩ := hc pin hpin
  rw [hpass.clock]
  refine ⟨behind_moves hmove hb, hcommit, fun s' hs' hrev => ?_⟩
  obtain ⟨s, hs, hsrev, hstamp, -, hdue⟩ := behind_row h hmove hb hs' hrev
  obtain ⟨hold, hkept⟩ := hrows s hs hsrev
  refine ⟨hstamp ▸ hold, fun hnot => ?_⟩
  have hmono := hpass.mono
  by_cases hret : s.state = .retained
  · -- the row stops being retained now, by a probe whose present can be believed
    obtain ⟨p, hp, hselected, hover⟩ := hdue hret hnot
    rcases (hprobes p hp pin hselected).2 with hgone | hnow
    · exact absurd hret (hgone s hs hsrev)
    · unfold graceStart at hover
      unfold elapsed at hnow
      omega
  · have hbefore := hkept hret
    omega

/-- A commit that supersedes a pin supersedes the head there was, and stamps it. -/
theorem superseded_landed (h : w.Kept digest P) {generation : Nat}
    (hfresh : generation ∉ w.generations) (hbase : base = w.disk ∨ base = .bootstrap generation)
    (hl : Lands digest P ws now base db)
    (hpin : supersededBy w.disk.current db.current = some pin) :
    pin = w.disk.current ∧ pin ≠ db.current ∧ ∀ s ∈ db.supersessions, s.revision = pin →
      s = ⟨pin, now, .retained⟩ := by
  unfold supersededBy at hpin
  split at hpin
  · rename_i hsame
    obtain rfl : w.disk.current = pin := Option.some.inj hpin
    rcases hbase with rfl | rfl
    · refine ⟨rfl, hl.advances.follows.current_ne.symm, fun s hs hrev => ?_⟩
      rw [hl.advances.stamped, List.mem_append] at hs
      rcases hs with hs | hs
      · exact absurd hrev (h.orderly.not_current h.sound.foreignKeys hs)
      · exact mem_stampAt hs
    · refine absurd h.drawn fun hdrawn => hfresh ?_
      rw [← hsame.1, hl.advances.next] at hdrawn
      exact hdrawn
  · cases hpin

theorem graced_landed (h : w.Kept digest P) (horigin : w.clock.originMono ≤ w.sample.mono)
    {generation : Nat} {expected : Option IndexPin} (hfresh : generation ∉ w.generations)
    (hbase : base = w.disk ∨ base = .bootstrap generation)
    (hl : Lands digest P ws w.sample.wall base db)
    (htimely : supersededBy w.disk.current db.current ≠ none → w.OnTime) :
    (w.landed expected generation db).Graced ⟨expected, db.current,
      supersededBy w.disk.current db.current, w.sample, db.evidence db.current⟩ := by
  intro pin hpin
  obtain ⟨rfl, hne, hstamp⟩ := superseded_landed h hfresh hbase hl hpin
  have hpast : w.Past w.disk.current := ⟨h.drawn, fun _ => Nat.le_refl _⟩
  have hmoved := past_lands hfresh hbase hl hpast
  refine ⟨⟨⟨List.mem_append_left _ h.drawn, fun hgen => (hmoved hgen).le⟩, hne⟩, horigin, ?_⟩
  intro s hs hrev
  rw [hstamp s hs hrev]
  have hsome : supersededBy w.disk.current db.current = some w.disk.current := hpin
  refine ⟨htimely ?_, fun hnot => absurd rfl hnot⟩
  rw [hsome]
  exact Option.some_ne_none _

/-- **One timely event keeps the invariant.** -/
theorem timed_step {n : Nat} (h : w.Kept digest P) (hstep : TimelyStep digest P w w')
    (ht : Timed n w) : Timed n w' := by
  obtain ⟨hprocess, htimely⟩ := hstep
  have hpass := passes_of_process hprocess
  have hmove : Moves digest P w w' := by
    obtain ⟨e, -, hpossible, hw⟩ := hprocess
    exact moves_of_step h ⟨e, hpossible, hw⟩
  have hold : ∀ c ∈ w.commits.drop n, w'.Graced c := fun c hc =>
    (ht.commits c hc).moves h ht.origin ht.probes hmove hpass
  refine
    { since := ht.since.trans hmove.commits_grow.length_le
      origin := hpass.clock ▸ ht.origin.trans hpass.mono
      probes := ?_
      commits := ?_ }
  · intro p hp
    rcases hpass.probes p hp with hp | rfl
    · exact (ht.probes p hp).moves h hmove hpass
    · exact h.trusted.moves h hmove hpass
  · cases hmove with
    | rests w' hdisk hversion hgenerations hcommits htickets => rw [hcommits]; exact hold
    | serves | collects => exact hold
    | lands ws base db expected generation hfresh hbase hexpected hl =>
        intro c hc
        unfold landed at hc
        rw [List.drop_append_of_le_length ht.since, List.mem_append, List.mem_singleton] at hc
        rcases hc with hc | rfl
        · exact hold c hc
        · refine graced_landed h ht.origin hfresh hbase hl fun hsome => htimely ?_
          unfold Supersedes landed
          rw [List.drop_left]
          exact ⟨_, List.mem_singleton_self _, hsome⟩

theorem timed_boot (u : World) (sample : Sample) :
    Timed u.commits.length (u.perform digest (.boot sample)) where
  since := Nat.le_refl _
  origin := Nat.le_refl _
  probes := by intro p hp; cases hp
  commits := by
    intro c hc
    have hnone : c ∈ u.commits.drop u.commits.length := hc
    rw [List.drop_length] at hnone
    cases hnone

end World

/-- **A revision keeps its grace for 895 seconds**, in every history of a process in
which no publication supersedes a head by a wall clock that is behind the process. -/
theorem retention_grace {u opened w : World} (sample : Sample) (hu : World.Reached digest P u)
    (hopened : opened = u.perform digest (.boot sample))
    (hrun : Relation.ReflTransGen (World.TimelyStep digest P) opened w) :
    World.GraceKept opened w := by
  have hstart : opened.Kept digest P :=
    World.kept_step ⟨.boot sample, trivial, hopened⟩ hu.kept
  have hstep : ∀ v v', World.TimelyStep digest P v v' →
      v.Kept digest P ∧ World.Timed u.commits.length v →
      v'.Kept digest P ∧ World.Timed u.commits.length v' := by
    rintro v v' hv ⟨hk, ht⟩
    obtain ⟨e, -, hpossible, hw⟩ := hv.1
    exact ⟨World.kept_step ⟨e, hpossible, hw⟩ hk, World.timed_step hk hv ht⟩
  have htimed : World.Timed u.commits.length opened := hopened ▸ World.timed_boot u sample
  have hcommits : opened.commits = u.commits := by rw [hopened]; rfl
  intro c hc pin hpin s hs hrev hnot
  rw [hcommits] at hc
  have hgraced := (Runs.keeps_run hstep hrun ⟨hstart, htimed⟩).2.commits c hc
  exact ((hgraced pin hpin).2.2 s hs hrev).2 hnot

namespace Sample

/-! ### The second publication under two clocks -/

/-- What follows the first publication: the second at `s`, and at `s'` a probe. -/
def ticked (s : Sample) : World := published₁.perform Sample.digest (.tick s)

def prepared (s : Sample) : World :=
  (ticked s).perform Sample.digest (.prepare (.full (bundle "2")) ⟨7, 1⟩)

def superseding (s : Sample) : World :=
  (prepared s).perform Sample.digest (.publish ticket₂ .quiet true 1 9)

def waited (s s' : Sample) : World := (superseding s).perform Sample.digest (.tick s')

def probed (s s' : Sample) : World := (waited s s').perform Sample.digest .probe

def maintained (s s' : Sample) : World :=
  (probed s s').perform Sample.digest
    (.unit ((waited s s').disk.probe (waited s s').clock s') .quiet)

/-- The states before each step. -/
def stages (s s' : Sample) : List World :=
  [World.start 7 ⟨10000, 0⟩, admitted₁, published₁, ticked s, prepared s, superseding s,
    waited s s', probed s s']

/-- The run is one of a process, by steps that may be as timely as the states are. -/
theorem run_maintained {R : World → World → Prop} (s s' : Sample)
    (hR : ∀ v ∈ stages s s', ∀ v', World.ProcessStep Sample.digest hashed v v' → R v v')
    (hs : published₁.sample.mono ≤ s.mono) (hs' : (superseding s).sample.mono ≤ s'.mono)
    (hticket : ticket₂ ∈ (prepared s).tickets) (hfresh : 9 ∉ (prepared s).generations)
    (hprobe : (waited s s').disk.probe (waited s s').clock s' ∈ (probed s s').probes) :
    Relation.ReflTransGen R (World.start 7 ⟨10000, 0⟩) (maintained s s') := by
  have hstep : ∀ v e, v ∈ stages s s' → World.InProcess e →
      World.Possible Sample.digest hashed v e → R v (v.perform Sample.digest e) :=
    fun v e hv hin hpossible => hR v hv _ ⟨e, hin, hpossible, rfl⟩
  have hfirst : R (World.start 7 ⟨10000, 0⟩) admitted₁ :=
    hstep _ (.prepare (.full (bundle "1")) ⟨7, 0⟩) (by simp [stages]) trivial
      (bundle_measured (by simp))
  have hpublished : R admitted₁ published₁ :=
    hstep _ (.publish ticket₁ .quiet true 1 8) (by simp [stages]) trivial
      ⟨ticket₁_mem, by decide +kernel⟩
  have hticked : R published₁ (ticked s) := hstep _ (.tick s) (by simp [stages]) trivial hs
  have hprepared : R (ticked s) (prepared s) :=
    hstep _ (.prepare (.full (bundle "2")) ⟨7, 1⟩) (by simp [stages]) trivial
      (bundle_measured (by simp))
  have hsuperseding : R (prepared s) (superseding s) :=
    hstep _ (.publish ticket₂ .quiet true 1 9) (by simp [stages]) trivial ⟨hticket, hfresh⟩
  have hwaited : R (superseding s) (waited s s') :=
    hstep _ (.tick s') (by simp [stages]) trivial hs'
  have hprobed : R (waited s s') (probed s s') := hstep _ .probe (by simp [stages]) trivial trivial
  have hmaintained : R (probed s s') (maintained s s') :=
    hstep _ (.unit _ .quiet) (by simp [stages]) trivial hprobe
  exact .head hfirst (.head hpublished (.head hticked (.head hprepared (.head hsuperseding
    (.head hwaited (.head hprobed (.single hmaintained)))))))

theorem reached_start : World.Reached Sample.digest hashed (World.start 7 ⟨10000, 0⟩) :=
  Runs.Reachable.start ⟨7, _, rfl⟩

end Sample

/-- The sample with the clocks right: the first revision is being released 1000 seconds
after the second was published. -/
theorem retention_grace_sample :
    (Sample.maintained ⟨10000, 0⟩ ⟨11000, 1000⟩).disk.stateOf ⟨7, 1⟩ = some .pending
      ∧ World.GraceKept (World.start 7 ⟨10000, 0⟩)
        (Sample.maintained ⟨10000, 0⟩ ⟨11000, 1000⟩) := by
  refine ⟨by decide +kernel, retention_grace ⟨10000, 0⟩ Sample.reached_start rfl
    (Sample.run_maintained ⟨10000, 0⟩ ⟨11000, 1000⟩ (fun v hv v' hstep => ⟨hstep, fun _ => ?_⟩)
      (by decide +kernel) (by decide +kernel) (by decide +kernel) (by decide +kernel)
      (by decide +kernel))⟩
  have hall : ∀ v ∈ Sample.stages ⟨10000, 0⟩ ⟨11000, 1000⟩, v.OnTime := by decide +kernel
  exact hall v hv

/-- **With the wall clock stepped back while the second revision is published**, the
first is being released nine seconds later. -/
theorem retention_grace_stepped_back :
    ¬ ∀ (u opened w : World) (sample : Sample), World.Reached Sample.digest Sample.hashed u →
      opened = u.perform Sample.digest (.boot sample) →
      Relation.ReflTransGen (World.ProcessStep Sample.digest Sample.hashed) opened w →
      World.GraceKept opened w := by
  intro hgrace
  have hrun := Sample.run_maintained ⟨5000, 1⟩ ⟨10010, 10⟩ (fun _ _ _ hstep => hstep)
    (by decide +kernel) (by decide +kernel) (by decide +kernel)
    (by decide +kernel) (by decide +kernel)
  have hbroken : ∃ c ∈ (Sample.maintained ⟨5000, 1⟩ ⟨10010, 10⟩).commits, ∃ pin ∈ c.superseded,
      ∃ s ∈ (Sample.maintained ⟨5000, 1⟩ ⟨10010, 10⟩).disk.supersessions, s.revision = pin
        ∧ s.state ≠ .retained
        ∧ ¬ c.sample.mono + 895 ≤ (Sample.maintained ⟨5000, 1⟩ ⟨10010, 10⟩).sample.mono := by
    refine ⟨_, List.mem_of_getElem? (show _[1]? = _ from rfl), ⟨7, 1⟩, ?_⟩
    decide +kernel
  obtain ⟨c, hc, pin, hpin, s, hs, hrev, hnot, hearly⟩ := hbroken
  exact hearly (hgrace _ _ _ ⟨10000, 0⟩ Sample.reached_start rfl hrun c hc pin hpin s hs hrev hnot)

end Baleyg.Store
