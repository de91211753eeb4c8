/-
What a publication's transaction does.

All three routes do the same thing to the tables: over some base they write the
rows of the next revision, stamp its predecessor and move the head.  The base is
the database itself, or, when the index is being rebuilt, an empty index of the
fresh generation.  `Advances` says this once, and from it follow that the control
tables stay in order, that the evidence stays sound, and that no pin of the base
reads differently afterwards.
-/
import Baleyg.Store.Unit

namespace Baleyg.Store

open Fallible

variable {digest : Preimage → String} {P : Set Preimage} {base db db' : Database}
  {ws : List Write} {now : Int} {pin : IndexPin}

/-- A write of one revision's rows, or of shared ones. -/
def Write.About (pin : IndexPin) : Write → Prop
  | header row => row.pin = pin
  | input row => row.revision = pin
  | manifest row => row.revision = pin
  | parent _ => True
  | child _ => True

/-- The stamp a commit leaves on the head it supersedes. -/
def Database.stampAt (db : Database) (now : Int) : List Supersession :=
  if 0 < db.current.indexRevision then [⟨db.current, now, .retained⟩] else []

/-- **Everything a publication's transaction can have done to `base`.** -/
structure Advances (ws : List Write) (now : Int) (base db' : Database) : Prop where
  wrote : Wrote ws base
    { db' with metadata := base.metadata, supersessions := base.supersessions }
  about : ∀ w ∈ ws, w.About db'.current
  next : db'.current = ⟨base.current.indexGeneration, base.current.indexRevision + 1⟩
  stamped : db'.supersessions = base.supersessions ++ base.stampAt now
  wall : 0 ≤ now ∧ now ≤ maxInteger
  paired : db'.PairedMetadata db'.changingScope

/-- What a publication writes over: the database, or an empty index. -/
def Database.underlying (db : Database) (rebaseline : Bool) (generation : Nat) : Database :=
  if rebaseline then .bootstrap generation else db

/-! ### The full and local routes -/

theorem yields_writeRows (o : Outside) (ws : List Write) (db : Database) :
    Yields (writeRows o ws) db (fun _ mid => Wrote ws db mid) fun _ _ => True := by
  unfold writeRows finish
  rw [yields_zoom, yields_bind]
  refine (putAll_wrote o ws (Draft.start db)).mono (fun _ d h => ?_) fun _ _ _ => trivial
  simp only [yields_bind, yields_get, yields_ensure, implies_true, and_true]
  exact fun _ => h

theorem about_writes (b : Bundle) (reuse : PreflightReuse) (incarnation : Incarnation) :
    ∀ w ∈ writes digest b reuse pin incarnation, w.About pin := by
  intro w hw
  unfold writes at hw
  simp only [List.cons_append, List.mem_cons, List.mem_append, List.mem_map, List.mem_flatMap,
    Selection.parentWrites, Selection.childWrites, Bundle.inputs, List.not_mem_nil, or_false] at hw
  rcases hw with rfl | ((⟨i, ⟨x, -, rfl⟩, rfl⟩ | ⟨s, -, ⟨t, -, rfl⟩ | rfl⟩) | ⟨s, -, t, -, r, -, rfl⟩)
    | ⟨s, -, t, -, r, -, rfl⟩
  all_goals first | rfl | trivial

/-- **The transaction of the full and local routes**: what its checks found, and what
it did. -/
theorem yields_publishBody (digest : Preimage → String) (o : Outside) (b : Bundle)
    (expected : IndexPin) (admitted : Admission) (locked : Locked) (stamp : Stamp)
    (db : Database) :
    Yields (publishBody digest o b expected admitted locked stamp) db
      (fun pin db' => (b.documents.map (·.file.path)).Nodup
        ∧ db.current = expected ∧ locked.dataVersion = admitted.dataVersion
        ∧ (∀ pin ∈ admitted.reuse.pin, pin = expected) ∧ db'.current = pin
        ∧ Advances (writes digest b admitted.reuse pin stamp.incarnation) stamp.wall
          (db.underlying locked.rebaseline stamp.generation) db')
      fun _ _ => True := by
  unfold publishBody checkExpected checkpoint
  simp only [yields_bind, yields_get, yields_ensure, implies_true, and_true]
  intro hpaths _ hversion hcurrent hreuse _ _ _
  unfold nextPin installSupersessions clearOn stampOn stampPredecessor retentionTime
    updateMetadata validatePaired countManifest
  cases hre : locked.rebaseline with
  | true =>
      simp only [if_true, yields_pure, yields_bind, yields_get, yields_ensure, implies_true,
        and_true, yields_modify]
      intro _
      refine (yields_writeRows _ _ _).mono (fun _ mid hmid => ?_) fun _ _ _ => trivial
      simp only [yields_pure, Bool.true_eq_false, false_and, if_false]
      intro hwall hpaired _ _ _ _
      refine ⟨hpaths, hcurrent, hversion, hcurrent ▸ hreuse, rfl, ?_⟩
      refine ⟨?_, about_writes b admitted.reuse stamp.incarnation, rfl, ?_, hwall, hpaired⟩
      · exact { hmid with metadata := rfl, supersessions := rfl }
      · exact hmid.supersessions
  | false =>
      simp only [Bool.false_eq_true, if_false, yields_bind, yields_ensure, yields_pure, yields_get,
        implies_true, and_true, yields_modify, false_or]
      intro hmax _
      refine (yields_writeRows _ _ _).mono (fun _ mid hmid => ?_) fun _ _ _ => trivial
      simp only [true_and]
      intro hwall
      subst hcurrent
      split
      · rename_i hpos
        simp only [yields_bind, yields_get, yields_ensure, yields_set, implies_true, and_true]
        intro _ hpaired _ _ _ _
        refine ⟨hpaths, trivial, hversion, hreuse, rfl, ?_⟩
        refine ⟨?_, about_writes b admitted.reuse stamp.incarnation, rfl, ?_, hwall, hpaired⟩
        · exact { hmid with metadata := rfl, supersessions := rfl }
        · show mid.supersessions ++ _ = db.supersessions ++ db.stampAt stamp.wall
          unfold Database.stampAt
          rw [if_pos hpos, hmid.supersessions]
      · rename_i hpos
        simp only [yields_pure]
        intro hpaired _ _ _ _
        refine ⟨hpaths, trivial, hversion, hreuse, rfl, ?_⟩
        refine ⟨?_, about_writes b admitted.reuse stamp.incarnation, rfl, ?_, hwall, hpaired⟩
        · exact { hmid with metadata := rfl, supersessions := rfl }
        · show mid.supersessions = db.supersessions ++ db.stampAt stamp.wall
          unfold Database.stampAt
          rw [if_neg hpos, List.append_nil, hmid.supersessions]

/-! ### The unchanged route -/

/-- The rows the unchanged route writes: the head's own, under the next pin. -/
def Database.copies (db : Database) (pin : IndexPin) (incarnation : Incarnation) : List Write :=
  (db.headerOf db.current).toList.map
      (fun h => Write.header { h with pin := pin, reconciledIncarnation := incarnation })
    ++ (db.inputsOf db.current).map (fun i => Write.input { i with revision := pin })
    ++ (db.manifestOf db.current).map fun m => Write.manifest { m with revision := pin }

theorem about_copies (incarnation : Incarnation) :
    ∀ w ∈ db.copies pin incarnation, w.About pin := by
  intro w hw
  unfold Database.copies at hw
  simp only [List.mem_append, List.mem_map] at hw
  rcases hw with (⟨h, -, rfl⟩ | ⟨i, -, rfl⟩) | ⟨m, -, rfl⟩ <;> rfl

theorem yields_copyInputs (h : Wrote ws base db) (old pin : IndexPin)
    (hkeys : ∀ i ∈ db.inputsOf old, i.inputKey ≠ releasedMarker ∧ i.inputKey ≠ pendingMarker) :
    Yields (copyInputs old pin) db
      (fun _ db' => Wrote (ws ++ (db.inputsOf old).map fun i => .input { i with revision := pin })
        base db') fun _ _ => True := by
  unfold copyInputs
  rw [yields_bind, yields_get]
  have hloop := @yields_forM Database Failure CaptureInput db (fun _ _ => True)
    (fun i => insertInput { i with revision := pin }) (db.inputsOf old)
    fun done t => Wrote (ws ++ done.map fun i => .input { i with revision := pin }) base t
  refine hloop (fun done i hi t ht => ?_) (by simpa using h)
  rw [List.map_append, ← List.append_assoc]
  exact insertInput_wrote ht (hkeys i hi)

theorem yields_copyManifest (h : Wrote ws base db) (old pin : IndexPin) (files : Nat) :
    Yields (copyManifest old pin files) db
      (fun _ db' =>
        Wrote (ws ++ (db.manifestOf old).map fun m => .manifest { m with revision := pin }) base db')
      fun _ _ => True := by
  unfold copyManifest
  rw [yields_bind, yields_get, yields_bind]
  have hloop := @yields_forM Database Failure ManifestRow db (fun _ _ => True)
    (fun m => insertManifest { m with revision := pin }) (db.manifestOf old)
    fun done t => Wrote (ws ++ done.map fun m => .manifest { m with revision := pin }) base t
  refine (hloop (fun done m _ t ht => ?_) (by simpa using h)).mono (fun _ t ht => ?_)
    fun _ _ _ => trivial
  · rw [List.map_append, ← List.append_assoc]; exact insertManifest_wrote ht _
  · rw [yields_ensure]; exact ⟨fun _ => ht, fun _ => trivial⟩

/-- **The transaction of the unchanged route.** -/
theorem yields_publishUnchangedBody (o : Outside) (c : Capture) (expected : IndexPin)
    (admitted : Admission) (locked : Locked) (stamp : Stamp) (ho : db.Orderly) :
    Yields (publishUnchangedBody o c expected admitted locked stamp) db
      (fun pin db' => db.current = expected ∧ locked.dataVersion = admitted.dataVersion
        ∧ db'.current = pin ∧ Advances (db.copies pin stamp.incarnation) stamp.wall db db')
      fun _ _ => True := by
  have hkeys : ∀ i ∈ db.inputsOf db.current,
      i.inputKey ≠ releasedMarker ∧ i.inputKey ≠ pendingMarker := by
    intro i hi
    obtain ⟨hi, hrev⟩ := Database.mem_inputsOf.mp hi
    exact ⟨fun hk => ho.unmarked (Or.inl ⟨i, hi, hrev, hk⟩),
      fun hk => ho.unmarked (Or.inr ⟨i, hi, hrev, hk⟩)⟩
  unfold publishUnchangedBody checkExpected checkpoint nextPin copyHeader
  simp only [yields_bind, yields_get, yields_ensure, implies_true, and_true, Bool.false_eq_true,
    if_false, yields_pure]
  intro _ hversion hcurrent _ _ _ _
  subst hcurrent
  cases hheader : db.headerOf db.current with
  | none => exact trivial
  | some h =>
      have hpos : 0 < db.current.indexRevision := by
        have hpin : h.pin = db.current := by simpa using List.find?_some hheader
        have hgen := ho.generation h (List.mem_of_find?_eq_some hheader)
        rw [hpin] at hgen
        exact hgen.2.1
      have hstart : Wrote [] db db := Appended.refl db
      refine (insertHeader_wrote hstart _).mono (fun _ db₁ h₁ => ?_) fun _ _ _ => trivial
      have hinputs : db₁.inputsOf db.current = db.inputsOf db.current := by
        unfold Database.inputsOf
        rw [h₁.inputs]
        simp
      refine (yields_copyInputs h₁ db.current _ (hinputs ▸ hkeys)).mono (fun _ db₂ h₂ => ?_)
        fun _ _ _ => trivial
      have hmanifest : db₂.manifestOf db.current = db.manifestOf db.current := by
        unfold Database.manifestOf
        rw [h₂.manifest]
        simp
      refine (yields_copyManifest h₂ db.current _ _).mono (fun _ mid hmid => ?_)
        fun _ _ _ => trivial
      rw [hinputs, hmanifest] at hmid
      have hwrote : Wrote (db.copies ⟨db.current.indexGeneration, db.current.indexRevision + 1⟩
          stamp.incarnation) db mid := by
        unfold Database.copies
        rw [hheader]
        exact hmid
      unfold retentionTime stampPredecessor updateUnchanged validatePaired
      simp only [yields_bind, yields_get, yields_ensure, yields_set, yields_modify, yields_pure,
        implies_true, and_true]
      intro hwall _ hpaired _
      refine ⟨trivial, hversion, rfl, ?_, about_copies stamp.incarnation, rfl, ?_, hwall, hpaired⟩
      · exact { hwrote with metadata := rfl, supersessions := rfl }
      · show mid.supersessions ++ _ = db.supersessions ++ db.stampAt stamp.wall
        unfold Database.stampAt
        rw [if_pos hpos, hwrote.supersessions]

/-! ### The rows of the next revision

This much every route does to the control tables, whatever it found in them. -/

theorem mem_stampAt {s : Supersession} (hs : s ∈ base.stampAt now) :
    s = ⟨base.current, now, .retained⟩ := by
  unfold Database.stampAt at hs
  split at hs
  · exact List.mem_singleton.mp hs
  · cases hs

/-- **Rows of the committed revision were added, and its predecessor was stamped.** -/
structure Follows (now : Int) (base db' : Database) : Prop where
  headers : ∃ rows, db'.headers = base.headers ++ rows ∧ ∀ r ∈ rows, r.pin = db'.current
  inputs : ∃ rows, db'.inputs = base.inputs ++ rows ∧ ∀ i ∈ rows, i.revision = db'.current
  manifest : ∃ rows, db'.manifest = base.manifest ++ rows ∧ ∀ m ∈ rows, m.revision = db'.current
  debt : db'.debt = base.debt
  supersessions : db'.supersessions = base.supersessions ++ base.stampAt now
  next : db'.current = ⟨base.current.indexGeneration, base.current.indexRevision + 1⟩

namespace Follows

theorem current_ne (h : Follows now base db') : db'.current ≠ base.current := by
  rw [h.next]
  intro heq
  have hrev := congrArg IndexPin.indexRevision heq
  exact absurd hrev (Nat.succ_ne_self _)

theorem headerOf (h : Follows now base db') (hnew : pin ≠ db'.current) :
    db'.headerOf pin = base.headerOf pin := by
  obtain ⟨rows, hrows, habout⟩ := h.headers
  have hnone : rows.find? (fun r => r.pin = pin) = none := by
    refine List.find?_eq_none.mpr fun r hr => ?_
    rw [decide_eq_true_eq, habout r hr]
    exact hnew.symm
  unfold Database.headerOf
  rw [hrows, List.find?_append, hnone, Option.or_none]

theorem inputsOf (h : Follows now base db') (hnew : pin ≠ db'.current) :
    db'.inputsOf pin = base.inputsOf pin := by
  obtain ⟨rows, hrows, habout⟩ := h.inputs
  unfold Database.inputsOf
  rw [hrows, Table.filter_append_of_none]
  intro i hi
  rw [decide_eq_false_iff_not, habout i hi]
  exact hnew.symm

theorem manifestOf (h : Follows now base db') (hnew : pin ≠ db'.current) :
    db'.manifestOf pin = base.manifestOf pin := by
  obtain ⟨rows, hrows, habout⟩ := h.manifest
  unfold Database.manifestOf
  rw [hrows, Table.filter_append_of_none]
  intro m hm
  rw [decide_eq_false_iff_not, habout m hm]
  exact hnew.symm

theorem header_base (h : Follows now base db') {row : RevisionHeader} (hrow : row ∈ db'.headers)
    (hnew : row.pin ≠ db'.current) : row ∈ base.headers := by
  obtain ⟨rows, hrows, habout⟩ := h.headers
  rw [hrows, List.mem_append] at hrow
  exact hrow.resolve_right fun hr => hnew (habout row hr)

/-- **Every older revision but the superseded one keeps its rows.** -/
theorem sameFor (h : Follows now base db') (hnew : pin ≠ db'.current)
    (hold : pin ≠ base.current) : Database.SameFor pin base db' where
  headed := by
    rintro ⟨r, hr, hrp⟩
    obtain ⟨rows, hrows, -⟩ := h.headers
    refine ⟨r, ?_, hrp⟩
    rw [hrows]
    exact List.mem_append_left _ hr
  inventory := by
    unfold Database.inventoryOf
    rw [h.headerOf hnew]
  supersessions := by
    intro s hs
    rw [h.supersessions, List.mem_append, or_iff_left]
    intro hstamp
    rw [mem_stampAt hstamp] at hs
    exact hold hs.symm
  debt := by rw [h.debt]
  inputs := h.inputsOf hnew
  manifest := h.manifestOf hnew
  current := ⟨fun hc => absurd hc hnew, fun hc => absurd hc hold⟩

end Follows

/-! ### The control tables after a publication -/

namespace Advances

theorem headers (h : Advances ws now base db') :
    db'.headers = base.headers ++ ws.filterMap Write.header? := h.wrote.headers

theorem inputs (h : Advances ws now base db') :
    db'.inputs = base.inputs ++ ws.filterMap Write.input? := h.wrote.inputs

theorem manifest (h : Advances ws now base db') :
    db'.manifest = base.manifest ++ ws.filterMap Write.manifest? := h.wrote.manifest

theorem debt (h : Advances ws now base db') : db'.debt = base.debt := h.wrote.debt

theorem candidates (h : Advances ws now base db') : db'.candidates = base.candidates :=
  h.wrote.candidates

theorem header_about (h : Advances ws now base db') {row : RevisionHeader}
    (hrow : row ∈ ws.filterMap Write.header?) : row.pin = db'.current := by
  obtain ⟨w, hw, hrow⟩ := List.mem_filterMap.mp hrow
  have habout := h.about w hw
  cases w <;> simp only [Write.header?, Option.some.injEq, reduceCtorEq] at hrow
  exact hrow ▸ habout

theorem input_about (h : Advances ws now base db') {row : CaptureInput}
    (hrow : row ∈ ws.filterMap Write.input?) : row.revision = db'.current := by
  obtain ⟨w, hw, hrow⟩ := List.mem_filterMap.mp hrow
  have habout := h.about w hw
  cases w <;> simp only [Write.input?, Option.some.injEq, reduceCtorEq] at hrow
  exact hrow ▸ habout

theorem manifest_about (h : Advances ws now base db') {row : ManifestRow}
    (hrow : row ∈ ws.filterMap Write.manifest?) : row.revision = db'.current := by
  obtain ⟨w, hw, hrow⟩ := List.mem_filterMap.mp hrow
  have habout := h.about w hw
  cases w <;> simp only [Write.manifest?, Option.some.injEq, reduceCtorEq] at hrow
  exact hrow ▸ habout

theorem fresh (h : Advances ws now base db') (ho : base.Orderly) : ¬ base.Headed db'.current := by
  rintro ⟨r, hr, hrp⟩
  have hle := (ho.generation r hr).2.2
  rw [hrp, h.next] at hle
  exact absurd hle (Nat.not_succ_le_self _)

theorem follows (h : Advances ws now base db') : Follows now base db' where
  headers := ⟨_, h.headers, fun _ hr => h.header_about hr⟩
  inputs := ⟨_, h.inputs, fun _ hi => h.input_about hi⟩
  manifest := ⟨_, h.manifest, fun _ hm => h.manifest_about hm⟩
  debt := h.debt
  supersessions := h.stamped
  next := h.next

/-- **The head moves to the next revision of its generation, and the tables stay in
order.** -/
theorem orderly (h : Advances ws now base db') (ho : base.Orderly) (hfk : base.ForeignKeys) :
    db'.Orderly := by
  obtain ⟨hcontiguous, hscope, hcandidates, -⟩ := h.paired
  have hnotHead : ∀ s ∈ base.supersessions, s.revision ≠ base.current := fun s hs =>
    ho.not_current hfk hs
  exact
    { headersKeyed := h.wrote.headersKeyed ho.headersKeyed
      supersessionsKeyed := by
        rw [h.stamped]
        unfold Database.stampAt
        split
        · exact ho.supersessionsKeyed.append_row hnotHead
        · rw [List.append_nil]; exact ho.supersessionsKeyed
      inputsKeyed := h.wrote.inputsKeyed ho.inputsKeyed
      generation := hcontiguous.2.2.2
      headed := by
        intro n hn hle
        rw [h.next] at hle ⊢
        rcases Nat.lt_or_eq_of_le hle with hlt | rfl
        · obtain ⟨r, hr, hrp⟩ := ho.headed n hn (Nat.lt_succ_iff.mp hlt)
          exact ⟨r, h.headers ▸ List.mem_append_left _ hr, hrp⟩
        · exact h.next ▸ hcontiguous.2.2.1
      paired := by
        intro r hr
        by_cases hnew : r.pin = db'.current
        · refine hscope _ ?_
          rw [hnew]
          exact List.mem_cons_self
        · have hbase : r ∈ base.headers := h.follows.header_base hr hnew
          by_cases hold : r.pin = base.current
          · -- the superseded head is in the scope of the check
            refine hscope _ ?_
            have hpos : 0 < base.current.indexRevision := hold ▸ (ho.generation r hbase).2.1
            unfold Database.changingScope
            rw [h.next, if_pos (by simpa using hpos), hold]
            simp
          · exact (h.follows.sameFor hnew hold).pairedRevision (ho.paired r hbase)
      unmarked := by
        have hmarks : ∀ key, key = releasedMarker ∨ key = pendingMarker →
            ¬ db'.HasInput db'.current key := by
          rintro key hkey ⟨i, hi, hrev, rfl⟩
          rw [h.inputs, List.mem_append] at hi
          rcases hi with hi | hi
          · exact h.fresh ho (hrev ▸ hfk.inputsHeaded i hi)
          · have hun := h.wrote.unreserved i hi
            exact hkey.elim hun.1 hun.2
        rintro (hm | hm)
        · exact hmarks _ (Or.inl rfl) hm
        · exact hmarks _ (Or.inr rfl) hm
      candidatesPending := hcandidates
      stamps := by
        intro s hs
        rw [h.stamped, List.mem_append] at hs
        rcases hs with hs | hs
        · exact ho.stamps s hs
        · rw [mem_stampAt hs]; exact h.wall }

end Advances

end Baleyg.Store
