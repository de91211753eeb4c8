/-
Published pins.

A commit records what was readable at its pin.  No later move changes it: a unit of
a release touches the revision it releases, which can no longer be read, a
collection takes what no manifest row selects, and a publication adds rows that no
older pin can see.  So a read at a pin gives what was committed there or an error,
the commits are a compare-and-set on the head, and whatever a live revision selects
is there in full.
-/
import Baleyg.Store.History

namespace Baleyg.Store

open Fallible

variable {digest : Preimage → String} {P : Set Preimage} {db db' disk : Database}
  {pin : IndexPin} {b : Bundle} {w w' : World} {β : Type}

theorem Database.released_congr (h : db'.inputsOf pin = db.inputsOf pin) :
    db'.Released pin ↔ db.Released pin := by
  unfold Database.Released
  rw [Database.hasInput_iff, Database.hasInput_iff, Database.hasInput_iff, Database.hasInput_iff, h]

theorem Advances.headed (h : Advances ws now base db) (hnew : pin ≠ db.current)
    (hpin : db.Headed pin) : base.Headed pin := by
  obtain ⟨r, hr, hrp⟩ := hpin
  rw [h.headers, List.mem_append] at hr
  rcases hr with hr | hr
  · exact ⟨r, hr, hrp⟩
  · exact absurd (hrp.symm.trans (h.header_about hr)) hnew

namespace World

/-! ### What a commit recorded -/

/-- A view of one pin is what the pin's commit recorded, while the pin can be read. -/
def Recorded (view : Database → IndexPin → β) (recorded : Evidence → β) (w : World) : Prop :=
  ∀ c ∈ w.commits, w.disk.Headed c.pin → ¬ w.disk.Released c.pin →
    view w.disk c.pin = recorded c.evidence

section View

variable {view : Database → IndexPin → β} {taken : Evidence → β}
  (hrecord : ∀ db pin, view db pin = taken (db.evidence pin))
  (hserves : ∀ {pin disk db}, Serves digest P pin disk db → ∀ pin', pin' ≠ pin →
    view db pin' = view disk pin')
  (hcollects : ∀ {disk db}, disk.Sound digest P → Collected disk db → ∀ pin',
    view db pin' = view disk pin')
  (hlands : ∀ {ws now base db}, base.Sound digest P → Lands digest P ws now base db →
    ∀ pin', pin' ≠ db.current → view db pin' = view base pin')

include hrecord hserves hcollects hlands

/-- **A view no move changes at the other pins stays what was recorded.** -/
theorem recorded_moves (h : w.Kept digest P) (hr : Recorded view taken w)
    (hmove : Moves digest P w w') : Recorded view taken w' := by
  cases hmove with
  | rests w' hdisk hversion hgenerations hcommits htickets =>
      unfold Recorded
      rw [hdisk, hcommits]
      exact hr
  | serves p o pin db hp hselected hrun hs =>
      intro c hc hheaded hmark
      have hne : c.pin ≠ pin := by
        intro heq
        exact hmark (heq ▸ hs.expired)
      have hsame := hs.same c.pin hne
      rw [← hr c hc ?_ ?_]
      · exact hserves hs c.pin hne
      · unfold Database.Headed
        rw [← hs.headers]
        exact hheaded
      · rwa [← Database.released_congr hsame.inputs]
  | collects db hcollected hfk =>
      intro c hc hheaded hmark
      rw [← hr c hc ?_ ?_]
      · exact hcollects h.sound hcollected c.pin
      · have hheaded' : db.Headed c.pin := hheaded
        rw [hcollected.rest] at hheaded'
        exact hheaded'
      · have hmark' : ¬ db.Released c.pin := hmark
        rw [hcollected.rest] at hmark'
        exact hmark'
  | lands ws base db expected generation hfresh hbase hexpected hl =>
      intro c hc hheaded hmark
      rcases List.mem_append.mp hc with hc | hc
      · have hne : c.pin ≠ db.current := by
          intro heq
          have hlt := past_lands hfresh hbase hl (h.committed c hc) (congrArg _ heq)
          rw [heq] at hlt
          exact Nat.lt_irrefl _ hlt
        have hold := hl.advances.headed hne hheaded
        rcases hbase with rfl | rfl
        · rw [← hr c hc hold ?_]
          · exact hlands h.sound hl c.pin hne
          · rwa [← Database.released_congr (hl.advances.follows.inputsOf hne)]
        · obtain ⟨r, hr, -⟩ := hold
          cases hr
      · rw [List.mem_singleton.mp hc]; exact hrecord db db.current

theorem Reached.recorded (h : Reached digest P w) : Recorded view taken w := by
  have hstep : ∀ u v, World.Step digest P u v → u.Kept digest P ∧ Recorded view taken u →
      v.Kept digest P ∧ Recorded view taken v := by
    rintro u v huv ⟨hk, hr⟩
    exact ⟨kept_step huv hk,
      recorded_moves hrecord hserves hcollects hlands hk hr (moves_of_step hk huv)⟩
  refine (Runs.Reachable.keeps ?_ hstep h).2
  rintro _ ⟨generation, sample, rfl⟩
  exact ⟨kept_start generation sample, by intro c hc; cases hc⟩

end View

/-- **Every pin that can be read reads as it was committed**, as long as no two of the
hashed preimages collide. -/
theorem Reached.evidence (hinj : Set.InjOn digest P) (h : Reached digest P w) :
    Recorded Database.evidence id w :=
  h.recorded (fun _ _ => rfl) (fun hs => hs.evidence)
    (fun hsound hc pin' => hc.evidence hsound pin')
    fun hsound hl _ hne => hl.advances.evidence hinj hl.grounded hsound hne

/-- The manifest of a pin that can be read is the committed one, collisions or not. -/
theorem Reached.manifest (h : Reached digest P w) :
    Recorded Database.manifestOf (fun e => e.documents.map DocumentEvidence.row) w := by
  refine h.recorded (fun db pin => ?_) (fun hs pin' hne => (hs.same pin' hne).manifest)
    (fun _ hc pin' => ?_) fun _ hl _ hne => hl.advances.follows.manifestOf hne
  · unfold Database.evidence
    rw [List.map_map]
    exact (List.map_id _).symm
  · rw [hc.rest]; rfl

theorem Moves.commits_grow (hmove : Moves digest P w w') : w.commits <+: w'.commits := by
  cases hmove with
  | rests w' hdisk hversion hgenerations hcommits htickets =>
      exact hcommits ▸ List.prefix_refl _
  | lands ws base db expected generation hfresh hbase hexpected hl => exact List.prefix_append _ _
  | serves | collects => exact List.prefix_refl _

theorem commits_grow (h : w.Kept digest P)
    (hrun : Relation.ReflTransGen (World.Step digest P) w w') : w.commits <+: w'.commits := by
  have hrefl : Std.Refl fun u v : World => u.commits <+: v.commits :=
    ⟨fun _ => List.prefix_refl _⟩
  have htrans : IsTrans World fun u v => u.commits <+: v.commits :=
    ⟨fun _ _ _ huv hvx => huv.trans hvx⟩
  have hkept : ∀ u v, World.Step digest P u v → u.Kept digest P → v.Kept digest P :=
    fun u v huv hu => kept_step huv hu
  exact Runs.relates_run hkept (fun u v huv hu => (moves_of_step hu huv).commits_grow) hrun h

end World

/-! ### Reads -/

theorem readRevisionFor_ok {o : Outside} {expected : Option IndexPin}
    (h : readRevisionFor o db expected = .ok pin) :
    pin = expected.getD db.current ∧ db.Headed pin ∧ ¬ db.Released pin := by
  unfold readRevisionFor at h
  simp only [bind_eq_ok, ensure_eq_ok] at h
  obtain ⟨-, -, -, -, -, -, -, hheaded, -, hmark, hpure⟩ := h
  obtain rfl := Except.ok.inj hpure
  exact ⟨rfl, hheaded, hmark⟩

/-- **Published pins are immutable.**  No pin is committed twice, the record of a commit
is never dropped, a read at a committed pin is a read of what was committed or an error
at every later state, and there is nothing to read at any other pin. -/
theorem published_pins_immutable (hinj : Set.InjOn digest P) (h : World.Reached digest P w)
    (hrun : Relation.ReflTransGen (World.Step digest P) w w') :
    (w'.commits.map Commit.pin).Nodup ∧ w.commits <+: w'.commits
      ∧ (∀ c ∈ w.commits, ∀ (o : Outside) (read : Evidence → Except Failure β),
        nativeAt o w'.disk c.pin read = read c.evidence
          ∨ ∃ e, nativeAt o w'.disk c.pin read = .error e)
      ∧ ∀ (o : Outside) expected pin, readRevisionFor o w'.disk expected = .ok pin →
        ∃ c ∈ w'.commits, c.pin = pin ∧ w'.disk.evidence pin = c.evidence := by
  have h' : World.Reached digest P w' := Runs.Reachable.then h hrun
  have hkept := h'.kept
  have hgrow := World.commits_grow h.kept hrun
  have hrecorded := h'.evidence hinj
  refine ⟨hkept.pins, hgrow, ?_, ?_⟩
  · intro c hc o read
    unfold nativeAt
    cases hread : readRevisionFor o w'.disk (some c.pin) with
    | error e => exact Or.inr ⟨e, rfl⟩
    | ok selected =>
        obtain ⟨rfl, hheaded, hmark⟩ := readRevisionFor_ok hread
        left
        show read (w'.disk.evidence c.pin) = _
        rw [hrecorded c (hgrow.subset hc) hheaded hmark]
        rfl
  · intro o expected pin hread
    obtain ⟨-, hheaded, hmark⟩ := readRevisionFor_ok hread
    obtain ⟨r, hr, hrp⟩ := hheaded
    obtain ⟨c, hc, hcp⟩ := hkept.headers r hr
    obtain rfl : c.pin = pin := hcp.trans hrp
    exact ⟨c, hc, rfl, hrecorded c hc ⟨r, hr, hrp⟩ hmark⟩

theorem published_pins_immutable_sample :
    Sample.published₁.commits.length = 1 ∧ Sample.published₂.commits.length = 2
      ∧ ∀ c ∈ Sample.published₁.commits, ∀ (o : Outside) (read : Evidence → Except Failure Nat),
        nativeAt o Sample.published₂.disk c.pin read = read c.evidence
          ∨ ∃ e, nativeAt o Sample.published₂.disk c.pin read = .error e :=
  ⟨by decide +kernel, by decide +kernel,
    (published_pins_immutable Sample.digest_injOn Sample.reached₁ Sample.run₂).2.2.1⟩

/-! ### Compare and set -/

/-- **Publication is an atomic compare-and-set.**  No two commits expected one pin; a
publication finds the pin it expected and moves the head to the next revision, or to
the first of a fresh generation, or it fails and every table stays as it was; and a
recreation starts a fresh generation or changes nothing. -/
theorem publication_compare_and_set (h : World.Reached digest P w) :
    (w.commits.filterMap Commit.expected).Nodup
      ∧ (∀ t ∈ w.tickets, ∀ o compatible incarnation generation, generation ∉ w.generations →
        ∀ result db, immediate o (World.publication digest t o (w.locked compatible)
          ⟨w.sample.wall, incarnation, generation⟩) w.disk = (result, db) →
        (∀ pin, result = .ok pin → w.disk.current = t.expected ∧ db.current = pin
          ∧ (pin = ⟨t.expected.indexGeneration, t.expected.indexRevision + 1⟩
            ∨ pin = ⟨generation, 1⟩)
          ∧ (w.publish digest t o compatible incarnation generation).disk = db
          ∧ (w.publish digest t o compatible incarnation generation).commits.map Commit.expected
            = w.commits.map Commit.expected ++ [some t.expected])
        ∧ ∀ e, result = .error e →
          db = w.disk ∧ w.publish digest t o compatible incarnation generation = w)
      ∧ ∀ b o incarnation generation, b.Measured digest P → generation ∉ w.generations →
        (w.recreate digest b o incarnation generation).disk.current = ⟨generation, 1⟩
          ∨ w.recreate digest b o incarnation generation = w := by
  have hkept := h.kept
  refine ⟨hkept.once, ?_, ?_⟩
  · intro t ht o compatible incarnation generation hfresh result db hout
    refine ⟨?_, ?_⟩
    · rintro pin rfl
      obtain ⟨hexpected, hpin, ws, base, hbase, hlands⟩ := World.lands_publication hkept ht hout
      refine ⟨hexpected, hpin, ?_, ?_, ?_⟩
      · rw [← hpin, hlands.advances.next, ← hexpected]
        rcases hbase with rfl | rfl
        · exact Or.inl rfl
        · exact Or.inr rfl
      · unfold World.publish
        rw [hout]
      · unfold World.publish
        rw [hout]
        show (w.commits ++ [_]).map Commit.expected = _
        rw [List.map_append]
        rfl
    · rintro e rfl
      refine ⟨?_, ?_⟩
      · have hsame := immediate_error (congrArg Prod.fst hout)
        rw [hout] at hsame
        exact hsame
      · unfold World.publish
        rw [hout]
  · intro b o incarnation generation hm hfresh
    unfold World.recreate
    split
    · split
      · exact Or.inr rfl
      · rename_i pin db hout
        left
        obtain ⟨-, -, ws, base, hbase, hlands⟩ := World.lands_publishBody hm
          (fun _ _ => authentic_default b (.bootstrap generation)) hout
        rw [or_self] at hbase
        show db.current = _
        rw [hlands.advances.next, hbase]
        rfl
    · exact Or.inr rfl

/-- The second publication of the sample, which expects the first one's pin. -/
theorem publication_compare_and_set_sample :
    Sample.published₂.commits.length = 2
      ∧ (Sample.published₂.commits.filterMap Commit.expected).Nodup :=
  ⟨by decide +kernel, (publication_compare_and_set Sample.reached₂).1⟩

/-! ### Live rows -/

theorem Database.Sound.selects_complete (h : db.Sound digest P) {m : ManifestRow}
    (hm : m ∈ db.manifestOf pin) {k : ParentKey} (hk : k ∈ m.selects) :
    ∃ p ∈ db.parents, p.key = k ∧ db.Complete digest P p := by
  have hselected : db.Selected k := ⟨m, (Database.mem_manifestOf.mp hm).1, hk⟩
  obtain ⟨p, hp, rfl⟩ := h.foreignKeys.selected_mem hselected
  exact ⟨p, hp, rfl, h.complete p hp hselected⟩

/-- **Maintenance never removes live rows.**  In every state a history leads to, all
references are met; the head and every retained revision has the manifest committed
under its pin, one row for each document of its inventory, and every parent a manifest
row selects is there with all its child rows; and when a publication commits, so is
everything its manifest selects, whatever a release had left of it. -/
theorem live_rows_complete (h : World.Reached digest P w) :
    w.disk.ForeignKeys
      ∧ (∀ pin, w.disk.Headed pin →
        pin = w.disk.current ∨ w.disk.stateOf pin = some .retained →
        (∃ c ∈ w.commits, c.pin = pin
          ∧ w.disk.manifestOf pin = c.evidence.documents.map DocumentEvidence.row)
        ∧ (w.disk.manifestOf pin).length = w.disk.inventoryOf pin
        ∧ ∀ m ∈ w.disk.manifestOf pin, ∀ k ∈ m.selects,
          ∃ p ∈ w.disk.parents, p.key = k ∧ w.disk.Complete digest P p)
      ∧ ∀ t ∈ w.tickets, ∀ o compatible incarnation generation, generation ∉ w.generations →
        ∀ pin db, immediate o (World.publication digest t o (w.locked compatible)
          ⟨w.sample.wall, incarnation, generation⟩) w.disk = (.ok pin, db) →
        ∀ m ∈ db.manifestOf pin, ∀ k ∈ m.selects,
          ∃ p ∈ db.parents, p.key = k ∧ db.Complete digest P p := by
  have hkept := h.kept
  refine ⟨hkept.sound.foreignKeys, ?_, ?_⟩
  · intro pin hheaded hlive
    obtain ⟨-, hhead, -, hstate⟩ := hkept.orderly.pairedRevision_of_headed hheaded
    have hpaired : ¬ w.disk.Released pin
        ∧ (w.disk.manifestOf pin).length = w.disk.inventoryOf pin := by
      rcases hlive with rfl | hretained
      · exact ⟨hkept.orderly.unmarked, (hhead rfl).2.2⟩
      · obtain ⟨s, hs, hrev, hst⟩ :=
          (Database.stateOf_eq_some hkept.orderly.supersessionsKeyed).mp hretained
        have hpaired := hstate s hs hrev
        rw [hst] at hpaired
        exact hpaired.2
    obtain ⟨r, hr, hrp⟩ := hheaded
    obtain ⟨c, hc, hcp⟩ := hkept.headers r hr
    obtain rfl : c.pin = pin := hcp.trans hrp
    refine ⟨⟨c, hc, rfl, h.manifest c hc ⟨r, hr, hrp⟩ hpaired.1⟩, hpaired.2, ?_⟩
    exact fun m hm k hk => hkept.sound.selects_complete hm hk
  · intro t ht o compatible incarnation generation hfresh pin db hout m hm k hk
    have hnext := World.kept_moves hkept
      (World.moves_publish hkept ht hfresh o compatible incarnation)
    have hdisk : (w.publish digest t o compatible incarnation generation).disk = db := by
      unfold World.publish
      rw [hout]
    exact (hdisk ▸ hnext.sound).selects_complete hm hk

theorem live_rows_complete_sample :
    Sample.published₂.disk.stateOf ⟨7, 1⟩ = some .retained
      ∧ (Sample.published₂.disk.manifestOf ⟨7, 1⟩).length = 1
      ∧ ∀ m ∈ Sample.published₂.disk.manifestOf ⟨7, 1⟩, ∀ k ∈ m.selects,
        ∃ p ∈ Sample.published₂.disk.parents,
          p.key = k ∧ Sample.published₂.disk.Complete Sample.digest Sample.hashed p :=
  ⟨by decide +kernel, by decide +kernel,
    ((live_rows_complete Sample.reached₂).2.1 ⟨7, 1⟩ (by decide +kernel)
      (Or.inr (by decide +kernel))).2.2⟩

/-! ### Reading what is live -/

/-- **The head and the retained revisions can be read, and no others.**  What is read of one is
what was committed under its pin. -/
theorem readable_iff_live (hinj : Set.InjOn digest P) (h : World.Reached digest P w) {o : Outside}
    (ho : o.permits .admission = true) (pin : IndexPin) :
    (∃ c ∈ w.commits, c.pin = pin ∧ ∀ read : Evidence → Except Failure Evidence,
        nativeAt o w.disk pin read = read c.evidence) ↔
      w.disk.Headed pin ∧ (pin = w.disk.current ∨ w.disk.stateOf pin = some .retained) := by
  have horderly := h.kept.orderly
  constructor
  · rintro ⟨c, -, -, hread⟩
    obtain ⟨selected, hselected, -⟩ := bind_eq_ok.mp (hread .ok)
    obtain ⟨rfl, hheaded, hmark⟩ := readRevisionFor_ok hselected
    exact ⟨hheaded, not_not.mp fun hlive => hmark ((horderly.released_iff hheaded).mpr hlive)⟩
  · rintro ⟨hheaded, hlive⟩
    have hmark : ¬ w.disk.Released pin := fun hmark =>
      (horderly.released_iff hheaded).mp hmark hlive
    obtain ⟨r, hr, rfl⟩ := hheaded
    obtain ⟨c, hc, hpin⟩ := h.kept.headers r hr
    obtain ⟨hgeneration, hfrom, hto⟩ := horderly.generation r hr
    refine ⟨c, hc, hpin, fun read => ?_⟩
    have hselected : readRevisionFor o w.disk (some r.pin) = .ok r.pin := by
      unfold readRevisionFor
      simp only [bind_eq_ok, ensure_eq_ok, Option.getD_some, exists_const]
      exact ⟨ho, hfrom.trans hto, ⟨hgeneration, hfrom, hto⟩, ⟨r, hr, rfl⟩, hmark, rfl⟩
    have hrecorded := h.evidence hinj c hc (hpin ▸ ⟨r, hr, rfl⟩) (hpin ▸ hmark)
    rw [hpin] at hrecorded
    show readRevisionFor o w.disk (some r.pin) >>= _ = _
    rw [hselected]
    exact congrArg read hrecorded

theorem readable_iff_live_sample : ∃ c ∈ Sample.published₂.commits, c.pin = ⟨7, 1⟩ ∧
    ∀ read : Evidence → Except Failure Evidence,
      nativeAt .quiet Sample.published₂.disk ⟨7, 1⟩ read = read c.evidence :=
  (readable_iff_live Sample.digest_injOn Sample.reached₂ rfl ⟨7, 1⟩).mpr
    ⟨by decide +kernel, Or.inr (by decide +kernel)⟩

end Baleyg.Store
