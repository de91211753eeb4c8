/-
Histories of the store.

`Moves` lists what one event can do to a world: nothing to the database, a
publication that lands over it or over an empty index, a unit of a release, a
collection.  Everything about histories is proved of these four, and the event's
own code is unfolded only once, in `moves_of_step`.

`Kept` is the invariant: the evidence is sound, the control tables are in order,
a prepared publication is still what its preparation said as long as the data
version stands, and the history of commits is that of the head moving on, never
back and never twice from one pin.
-/
import Baleyg.Store.Shared

namespace Baleyg.Store

open Fallible

variable {digest : Preimage → String} {P : Set Preimage} {base db db' disk : Database}
  {ws : List Write} {now : Int} {pin : IndexPin} {b : Bundle} {reuse : PreflightReuse}

/-! ### Immediate transactions -/

/-- A committed transaction did what its body guarantees, and every reference is met. -/
theorem immediate_ok {α : Type} {o : Outside} {body : Tx α} {a : α} {Q : α → Database → Prop}
    {E : Failure → Database → Prop} (h : immediate o body disk = (.ok a, db))
    (hbody : Yields body disk Q E) : body disk = .ok a db ∧ Q a db ∧ db.ForeignKeys := by
  unfold immediate at h
  unfold Yields at hbody
  cases hrun : body disk with
  | error e mid => rw [hrun] at h; cases h
  | ok a' mid =>
      rw [hrun] at h hbody
      dsimp only at h
      split at h
      · cases h
      · split at h
        · rename_i hfk
          cases h
          exact ⟨rfl, hbody, hfk⟩
        · cases h

/-- **A transaction that does not commit leaves every table as it was.** -/
theorem immediate_error {α : Type} {o : Outside} {body : Tx α} {e : Failure}
    (h : (immediate o body disk).1 = .error e) : (immediate o body disk).2 = disk := by
  unfold immediate at h ⊢
  cases hrun : body disk with
  | error e' mid => rfl
  | ok a mid =>
      rw [hrun] at h
      dsimp only at h ⊢
      split at h
      · rename_i hcommit
        rw [if_pos hcommit]
      · rename_i hcommit
        rw [if_neg hcommit]
        split at h
        · cases h
        · rename_i hfk
          rw [if_neg hfk]

/-! ### The bootstrap -/

theorem sound_bootstrap (generation : Nat) : (Database.bootstrap generation).Sound digest P where
  parentsKeyed := Table.keyed_nil _
  childrenKeyed := Table.keyed_nil _
  manifestApart := List.Pairwise.nil
  bound := by intro p hp; cases hp
  rows := by intro r hr; cases hr
  complete := by intro p hp; cases hp
  journaled := by intro p hp; cases hp
  foreignKeys :=
    { children := by intro r hr; cases hr
      parents := by intro p hp; cases hp
      manifest := by intro m hm; cases hm
      manifestHeaded := by intro m hm; cases hm
      inputsHeaded := by intro i hi; cases hi
      supersessionsHeaded := by intro s hs; cases hs
      debtHeaded := by intro p hp; cases hp
      candidatesHeaded := by intro c hc; cases hc }

theorem orderly_bootstrap (generation : Nat) : (Database.bootstrap generation).Orderly where
  headersKeyed := Table.keyed_nil _
  supersessionsKeyed := Table.keyed_nil _
  inputsKeyed := Table.keyed_nil _
  generation := by intro h hh; cases hh
  headed := by
    intro n hn hle
    exact absurd (hn.trans hle) (Nat.not_succ_le_zero 0)
  paired := by intro h hh; cases hh
  unmarked := by
    rintro (⟨i, hi, -⟩ | ⟨i, hi, -⟩) <;> cases hi
  candidatesPending := by intro c hc; cases hc
  stamps := by intro s hs; cases hs

/-! ### What an event does -/

/-- A prepared publication is what its preparation said of this database. -/
def Ticket.Authentic (digest : Preimage → String) (db : Database) (t : Ticket) : Prop :=
  match t.plan with
  | .full b => (b.documents.map (·.file.path)).Nodup → t.admission.reuse.Authentic digest b db
  | .changed b _ => (b.documents.map (·.file.path)).Nodup → t.admission.reuse.Authentic digest b db
  | .unchanged _ => True

/-- A publication landed over `base`. -/
structure Lands (digest : Preimage → String) (P : Set Preimage) (ws : List Write) (now : Int)
    (base db : Database) : Prop where
  advances : Advances ws now base db
  grounded : Grounded digest P ws base
  foreignKeys : db.ForeignKeys

namespace World

/-- The world after a publication lands. -/
def landed (w : World) (expected : Option IndexPin) (generation : Nat) (db : Database) : World :=
  { w with
    disk := db
    dataVersion := w.dataVersion + 1
    disposition := .ready
    generations := w.generations ++ [generation]
    commits := w.commits
      ++ [⟨expected, db.current, supersededBy w.disk.current db.current, w.sample,
        db.evidence db.current⟩] }

def written (w : World) (db : Database) : World :=
  { w with disk := db, dataVersion := w.dataVersion + 1 }

/-- **Everything one event can do to a world.** -/
inductive Moves (digest : Preimage → String) (P : Set Preimage) (w : World) : World → Prop
  | rests (w' : World) (hdisk : w'.disk = w.disk) (hversion : w'.dataVersion = w.dataVersion)
      (hgenerations : w'.generations = w.generations) (hcommits : w'.commits = w.commits)
      (htickets : ∀ t ∈ w'.tickets, t ∈ w.tickets ∨ (t.plan.Measured digest P
        ∧ t.admission.dataVersion = w.dataVersion ∧ t.Authentic digest w.disk)) :
      Moves digest P w w'
  | lands (ws : List Write) (base db : Database) (expected : Option IndexPin) (generation : Nat)
      (hfresh : generation ∉ w.generations)
      (hbase : base = w.disk ∨ base = .bootstrap generation)
      (hexpected : ∀ e ∈ expected, e = w.disk.current)
      (h : Lands digest P ws w.sample.wall base db) :
      Moves digest P w (w.landed expected generation db)
  | serves (p : Probe) (o : Outside) (pin : IndexPin) (db : Database) (hp : p ∈ w.probes)
      (hselected : p.selected = some pin)
      (hrun : releaseUnit o p.head p.now pin w.disk = .ok () db)
      (h : Serves digest P pin w.disk db) : Moves digest P w (w.written db)
  | collects (db : Database) (h : Collected w.disk db) (hfk : db.ForeignKeys) :
      Moves digest P w (w.written db)

/-- **What holds of every world.** -/
structure Kept (digest : Preimage → String) (P : Set Preimage) (w : World) : Prop where
  sound : w.disk.Sound digest P
  orderly : w.disk.Orderly
  tickets : ∀ t ∈ w.tickets, t.plan.Measured digest P ∧ t.admission.dataVersion ≤ w.dataVersion
    ∧ (t.admission.dataVersion = w.dataVersion → t.Authentic digest w.disk)
  drawn : w.disk.current.indexGeneration ∈ w.generations
  pins : (w.commits.map Commit.pin).Nodup
  committed : ∀ c ∈ w.commits, c.pin.indexGeneration ∈ w.generations
    ∧ (c.pin.indexGeneration = w.disk.current.indexGeneration →
      c.pin.indexRevision ≤ w.disk.current.indexRevision)
  headers : ∀ h ∈ w.disk.headers, ∃ c ∈ w.commits, c.pin = h.pin
  once : (w.commits.filterMap Commit.expected).Nodup
  expected : ∀ c ∈ w.commits, ∀ e ∈ c.expected, e.indexGeneration ∈ w.generations
    ∧ (e.indexGeneration = w.disk.current.indexGeneration →
      e.indexRevision < w.disk.current.indexRevision)

/-! ### Every event is one of the moves -/

theorem admission_authentic {w : World} {plan : Plan} {expected : IndexPin} {admission : Admission}
    (h : w.admission digest expected plan = .ok admission) :
    admission.dataVersion = w.dataVersion
      ∧ Ticket.Authentic digest w.disk ⟨plan, expected, admission⟩ := by
  unfold World.admission at h
  cases plan with
  | full b =>
      obtain ⟨reuse, hreuse, hpure⟩ := bind_eq_ok.mp h
      obtain rfl := Except.ok.inj hpure
      exact ⟨rfl, fun hpaths => authentic_preflightReuse hpaths hreuse⟩
  | changed b prepared =>
      simp only [bind_eq_ok, ensure_eq_ok] at h
      obtain ⟨-, -, -, -, reuse, hreuse, hpure⟩ := h
      obtain rfl := Except.ok.inj hpure
      exact ⟨rfl, fun _ => authentic_preflightLocalReuse hreuse⟩
  | unchanged c =>
      simp only [bind_eq_ok, ensure_eq_ok] at h
      obtain ⟨-, -, -, -, -, -, hpure⟩ := h
      obtain rfl := Except.ok.inj hpure
      exact ⟨rfl, trivial⟩

theorem underlying_cases (disk : Database) (rebaseline : Bool) (generation : Nat) :
    disk.underlying rebaseline generation = disk
      ∨ disk.underlying rebaseline generation = .bootstrap generation := by
  cases rebaseline with
  | true => exact Or.inr rfl
  | false => exact Or.inl rfl

/-- **A committed transaction of the full or local route lands.** -/
theorem lands_publishBody {o : Outside} {expected : IndexPin} {admitted : Admission}
    {locked : Locked} {stamp : Stamp} (hm : b.Measured digest P)
    (ha : locked.dataVersion = admitted.dataVersion →
      (b.documents.map (·.file.path)).Nodup → admitted.reuse.Authentic digest b disk)
    (h : immediate o (publishBody digest o b expected admitted locked stamp) disk = (.ok pin, db)) :
    disk.current = expected ∧ db.current = pin
      ∧ ∃ ws base, (base = disk ∨ base = .bootstrap stamp.generation)
        ∧ Lands digest P ws stamp.wall base db := by
  obtain ⟨-, ⟨hpaths, hexpected, hversion, -, hpin, hadvances⟩, hfk⟩ := immediate_ok h
    (yields_publishBody digest o b expected admitted locked stamp disk)
  exact ⟨hexpected, hpin, _, _, underlying_cases disk locked.rebaseline stamp.generation,
    hadvances,
    grounded_writes hm (ha hversion hpaths) stamp.incarnation locked.rebaseline stamp.generation,
    hfk⟩

variable {w w' : World}

/-- **A committed transaction of any route lands**, and the head it found was the one
it expected. -/
theorem lands_publication (h : w.Kept digest P) {t : Ticket} (ht : t ∈ w.tickets) {o : Outside}
    {compatible : Bool} {stamp : Stamp}
    (hout : immediate o (publication digest t o (w.locked compatible) stamp) w.disk
      = (.ok pin, db)) :
    w.disk.current = t.expected ∧ db.current = pin
      ∧ ∃ ws base, (base = w.disk ∨ base = .bootstrap stamp.generation)
        ∧ Lands digest P ws stamp.wall base db := by
  obtain ⟨hm, -, hauthentic⟩ := h.tickets t ht
  unfold World.publication at hout
  unfold Ticket.Authentic at hauthentic
  cases hplan : t.plan with
  | full | changed =>
      rw [hplan] at hout hm hauthentic
      exact lands_publishBody hm (fun hversion => hauthentic hversion.symm) hout
  | unchanged c =>
      rw [hplan] at hout
      obtain ⟨-, ⟨hexpected, -, hpin, hadvances⟩, hfk⟩ := immediate_ok hout
        (yields_publishUnchangedBody o c t.expected t.admission (w.locked compatible) stamp
          h.orderly)
      exact ⟨hexpected, hpin, _, w.disk, Or.inl rfl, hadvances, grounded_copies stamp.incarnation,
        hfk⟩

theorem Moves.refl (w : World) : Moves digest P w w :=
  .rests w rfl rfl rfl rfl fun _ ht => Or.inl ht

variable {generation : Nat}

theorem moves_publish (h : w.Kept digest P) {t : Ticket} (ht : t ∈ w.tickets)
    (hfresh : generation ∉ w.generations) (o : Outside) (compatible : Bool)
    (incarnation : Incarnation) :
    Moves digest P w (w.publish digest t o compatible incarnation generation) := by
  unfold World.publish
  split
  · exact Moves.refl w
  · rename_i pin db hout
    obtain ⟨hexpected, rfl, ws, base, hbase, hlands⟩ := lands_publication h ht hout
    rw [← hexpected]
    exact .lands ws base db (some w.disk.current) generation hfresh hbase
      (fun e he => (Option.mem_some_iff.mp he).symm) hlands

theorem moves_recreate (h : w.Kept digest P) (hm : b.Measured digest P)
    (hfresh : generation ∉ w.generations) (o : Outside) (incarnation : Incarnation) :
    Moves digest P w (w.recreate digest b o incarnation generation) := by
  unfold World.recreate
  split
  · split
    · exact Moves.refl w
    · rename_i pin db hout
      obtain ⟨-, rfl, ws, base, hbase, hlands⟩ := lands_publishBody hm
        (fun _ _ => authentic_default b (.bootstrap generation)) hout
      rw [or_self] at hbase
      have hnext : db.current = ⟨generation, 1⟩ := by
        rw [hlands.advances.next, hbase]
        rfl
      have hsuperseded : supersededBy w.disk.current db.current = none := by
        unfold supersededBy
        refine if_neg fun hsame => hfresh ?_
        have hgeneration : generation = w.disk.current.indexGeneration := by
          rw [← hsame.1, hnext]
        exact hgeneration ▸ h.drawn
      have hmove := Moves.lands ws base db none generation hfresh (Or.inr hbase)
        (by intro e he; cases he) hlands
      unfold World.landed at hmove
      rwa [hsuperseded] at hmove
  · exact Moves.refl w

theorem moves_unit (h : w.Kept digest P) {p : Probe} (hp : p ∈ w.probes) (o : Outside) :
    Moves digest P w (w.unit p o) := by
  unfold World.unit runUnit
  cases hselected : p.selected with
  | none => exact Moves.refl w
  | some pin =>
      dsimp only
      by_cases hpermits : o.permits .unit = false
      · rw [if_pos hpermits]; exact Moves.refl w
      · rw [if_neg hpermits]
        cases hout : immediate o (releaseUnit o p.head p.now pin) w.disk with
        | mk result db =>
            cases result with
            | ok u =>
                obtain ⟨hrun, hserves, -⟩ := immediate_ok hout
                  (yields_releaseUnit h.sound h.orderly o p.head p.now)
                exact .serves p o pin db hp hselected hrun hserves
            | error e =>
                cases e with
                | stopped point => cases point <;> exact Moves.refl w
                | _ => exact Moves.refl w

theorem moves_collect (o : Outside) : Moves digest P w (w.collect o) := by
  unfold World.collect
  split
  · exact Moves.refl w
  · rename_i db hout
    obtain ⟨-, ⟨hcollected, -⟩, hfk⟩ := immediate_ok hout (yields_collectBody o w.disk)
    exact .collects db hcollected hfk

/-- **What an event does to a world is one of the four moves.** -/
theorem moves_of_step (h : w.Kept digest P) (hstep : World.Step digest P w w') :
    Moves digest P w w' := by
  obtain ⟨e, hpossible, rfl⟩ := hstep
  cases e with
  | tick | classify => exact .rests _ rfl rfl rfl rfl fun _ ht => Or.inl ht
  | boot sample => exact .rests _ rfl rfl rfl rfl (by intro t ht; cases ht)
  | prepare plan expected =>
      show Moves digest P w (w.prepare digest plan expected)
      unfold World.prepare
      split
      · exact Moves.refl w
      · rename_i admission hadmitted
        obtain ⟨hversion, hauthentic⟩ := admission_authentic hadmitted
        refine .rests _ rfl rfl rfl rfl fun t ht => ?_
        rcases List.mem_append.mp ht with ht | ht
        · exact Or.inl ht
        · rw [List.mem_singleton.mp ht]; exact Or.inr ⟨hpossible, hversion, hauthentic⟩
  | publish t o compatible incarnation generation =>
      exact moves_publish h hpossible.1 hpossible.2 o compatible incarnation
  | probe =>
      show Moves digest P w (if _ then _ else _)
      split
      · exact .rests _ rfl rfl rfl rfl fun _ ht => Or.inl ht
      · exact Moves.refl w
  | unit p o => exact moves_unit h hpossible o
  | collect o => exact moves_collect o
  | recreate b o incarnation generation =>
      exact moves_recreate h hpossible.1 hpossible.2 o incarnation

/-! ### The invariant of every history -/

/-- A pin of a drawn generation, not ahead of the head. -/
def Past (w : World) (pin : IndexPin) : Prop :=
  pin.indexGeneration ∈ w.generations ∧ (pin.indexGeneration = w.disk.current.indexGeneration →
    pin.indexRevision ≤ w.disk.current.indexRevision)

/-- **The head moves past every pin there was.** -/
theorem past_lands (hfresh : generation ∉ w.generations)
    (hbase : base = w.disk ∨ base = .bootstrap generation) (h : Lands digest P ws now base db)
    {e : IndexPin} (he : w.Past e) (hgen : e.indexGeneration = db.current.indexGeneration) :
    e.indexRevision < db.current.indexRevision := by
  rw [h.advances.next] at hgen ⊢
  rcases hbase with rfl | rfl
  · exact Nat.lt_succ_of_le (he.2 hgen)
  · have hdrawn : e.indexGeneration = generation := hgen
    exact absurd (hdrawn ▸ he.1) hfresh

theorem kept_landed (h : w.Kept digest P) {expected : Option IndexPin}
    (hfresh : generation ∉ w.generations) (hbase : base = w.disk ∨ base = .bootstrap generation)
    (hexpected : ∀ e ∈ expected, e = w.disk.current) (hl : Lands digest P ws w.sample.wall base db) :
    (w.landed expected generation db).Kept digest P := by
  have hsound : base.Sound digest P := by
    rcases hbase with rfl | rfl
    · exact h.sound
    · exact sound_bootstrap generation
  have horderly : base.Orderly := by
    rcases hbase with rfl | rfl
    · exact h.orderly
    · exact orderly_bootstrap generation
  have hhead : w.Past w.disk.current := ⟨h.drawn, fun _ => Nat.le_refl _⟩
  have hmoved : ∀ e, w.Past e → e.indexGeneration = db.current.indexGeneration →
      e.indexRevision < db.current.indexRevision := fun e he hgen =>
    past_lands hfresh hbase hl he hgen
  have hdrawn : db.current.indexGeneration ∈ w.generations ++ [generation] := by
    rw [hl.advances.next]
    rcases hbase with rfl | rfl
    · exact List.mem_append_left _ h.drawn
    · exact List.mem_append_right _ List.mem_cons_self
  exact
    { sound := hl.advances.sound hl.grounded hsound hl.foreignKeys
      orderly := hl.advances.orderly horderly hsound.foreignKeys
      tickets := by
        intro t ht
        obtain ⟨hm, hversion, -⟩ := h.tickets t ht
        exact ⟨hm, Nat.le_succ_of_le hversion,
          fun hcurrent => absurd (hcurrent ▸ hversion) (Nat.not_succ_le_self _)⟩
      drawn := hdrawn
      pins := by
        show ((w.commits ++ [_]).map Commit.pin).Nodup
        rw [List.map_append, List.nodup_append]
        refine ⟨h.pins, List.nodup_singleton _, ?_⟩
        intro a ha a' ha'
        obtain ⟨c, hc, rfl⟩ := List.mem_map.mp ha
        rw [List.map_singleton, List.mem_singleton] at ha'
        rw [ha']
        intro heq
        have hlt := hmoved c.pin (h.committed c hc) (congrArg _ heq)
        rw [heq] at hlt
        exact Nat.lt_irrefl _ hlt
      committed := by
        intro c hc
        rcases List.mem_append.mp hc with hc | hc
        · exact ⟨List.mem_append_left _ (h.committed c hc).1,
            fun hgen => (hmoved c.pin (h.committed c hc) hgen).le⟩
        · rw [List.mem_singleton.mp hc]; exact ⟨hdrawn, fun _ => Nat.le_refl _⟩
      headers := by
        intro r hr
        have hr' : r ∈ db.headers := hr
        rw [hl.advances.headers, List.mem_append] at hr'
        rcases hr' with hr' | hr'
        · rcases hbase with rfl | rfl
          · obtain ⟨c, hc, hpin⟩ := h.headers r hr'
            exact ⟨c, List.mem_append_left _ hc, hpin⟩
          · cases hr'
        · exact ⟨_, List.mem_append_right _ List.mem_cons_self, (hl.advances.header_about hr').symm⟩
      once := by
        show ((w.commits ++ [_]).filterMap Commit.expected).Nodup
        rw [List.filterMap_append, List.nodup_append]
        refine ⟨h.once, ?_, ?_⟩
        · cases expected <;> simp
        · intro e he e' he'
          obtain ⟨c, hc, hce⟩ := List.mem_filterMap.mp he
          have hexp : expected = some e' := by
            cases expected <;> simp at he' ⊢
            exact he'.symm
          rw [hexpected e' hexp]
          intro heq
          have hlt := (h.expected c hc e hce).2 (congrArg _ heq)
          rw [heq] at hlt
          exact Nat.lt_irrefl _ hlt
      expected := by
        intro c hc e he
        rcases List.mem_append.mp hc with hc | hc
        · have hpast : w.Past e := ⟨(h.expected c hc e he).1,
            fun hgen => ((h.expected c hc e he).2 hgen).le⟩
          exact ⟨List.mem_append_left _ hpast.1, hmoved e hpast⟩
        · rw [List.mem_singleton.mp hc] at he
          rw [hexpected e he]
          exact ⟨List.mem_append_left _ h.drawn, hmoved _ hhead⟩ }

/-- A transaction that keeps the evidence sound, the tables in order and the head where
it is keeps the invariant. -/
theorem kept_written (h : w.Kept digest P) (hs : db.Sound digest P) (ho : db.Orderly)
    (hmeta : db.metadata = w.disk.metadata) (hheaders : db.headers = w.disk.headers) :
    (w.written db).Kept digest P := by
  have hcurrent : db.current = w.disk.current := congrArg Metadata.pin hmeta
  exact
    { sound := hs
      orderly := ho
      tickets := by
        intro t ht
        obtain ⟨hm, hversion, -⟩ := h.tickets t ht
        exact ⟨hm, Nat.le_succ_of_le hversion,
          fun hstill => absurd (hstill ▸ hversion) (Nat.not_succ_le_self _)⟩
      drawn := by
        show db.current.indexGeneration ∈ _
        rw [hcurrent]
        exact h.drawn
      pins := h.pins
      committed := by
        show ∀ c ∈ w.commits, _ ∧ (_ = db.current.indexGeneration → _ ≤ db.current.indexRevision)
        rw [hcurrent]
        exact h.committed
      headers := by
        show ∀ r ∈ db.headers, _
        rw [hheaders]
        exact h.headers
      once := h.once
      expected := by
        show ∀ c ∈ w.commits, ∀ e ∈ c.expected,
          _ ∧ (_ = db.current.indexGeneration → _ < db.current.indexRevision)
        rw [hcurrent]
        exact h.expected }

/-- **Every move keeps the invariant.** -/
theorem kept_moves (h : w.Kept digest P) (hmove : Moves digest P w w') : w'.Kept digest P := by
  cases hmove with
  | rests w' hdisk hversion hgenerations hcommits htickets =>
      exact
        { sound := hdisk ▸ h.sound
          orderly := hdisk ▸ h.orderly
          tickets := by
            intro t ht
            rw [hdisk, hversion]
            rcases htickets t ht with ht | ⟨hm, hv, ha⟩
            · exact h.tickets t ht
            · exact ⟨hm, hv.le, fun _ => ha⟩
          drawn := by
            rw [hdisk, hgenerations]
            exact h.drawn
          pins := hcommits ▸ h.pins
          committed := by
            rw [hcommits, hgenerations, hdisk]
            exact h.committed
          headers := by
            rw [hcommits, hdisk]
            exact h.headers
          once := hcommits ▸ h.once
          expected := by
            rw [hcommits, hgenerations, hdisk]
            exact h.expected }
  | lands ws base db expected generation hfresh hbase hexpected hl =>
      exact kept_landed h hfresh hbase hexpected hl
  | serves p o pin db hp hselected hrun hs =>
      exact kept_written h hs.sound hs.orderly hs.metadata hs.headers
  | collects db hc hfk =>
      exact kept_written h (hc.sound h.sound hfk) (hc.orderly h.orderly) (by rw [hc.rest])
        (by rw [hc.rest])

theorem kept_start (generation : Nat) (sample : Sample) :
    (start generation sample).Kept digest P where
  sound := sound_bootstrap generation
  orderly := orderly_bootstrap generation
  tickets := by intro t ht; cases ht
  drawn := List.mem_cons_self
  pins := List.nodup_nil
  committed := by intro c hc; cases hc
  headers := by intro r hr; cases hr
  once := List.nodup_nil
  expected := by intro c hc; cases hc

theorem kept_step (hstep : World.Step digest P w w') (h : w.Kept digest P) : w'.Kept digest P :=
  kept_moves h (moves_of_step h hstep)

/-- **The invariant holds of every world a history leads to.** -/
theorem Reached.kept (h : Reached digest P w) : w.Kept digest P := by
  have hstep : ∀ u v, World.Step digest P u v → u.Kept digest P → v.Kept digest P :=
    fun u v huv hu => kept_step huv hu
  refine Runs.Reachable.keeps ?_ hstep h
  rintro _ ⟨generation, sample, rfl⟩
  exact kept_start generation sample

end World

end Baleyg.Store
