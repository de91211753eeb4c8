/-
What is always true of the control tables.

The headers are the revisions of one generation, one to the head, and each is as
its state promises: the full form of the check that a publication only makes of
what it is changing.  Almost every step changes the rows of one revision, so the
other revisions are carried over by `SameFor`.
-/
import Baleyg.Store.Release

namespace Baleyg.Store

variable {digest : Preimage → String} {P : Set Preimage} {db db' : Database} {pin : IndexPin}

/-- **The control tables are in order.** -/
structure Database.Orderly (db : Database) : Prop where
  headersKeyed : Table.Keyed RevisionHeader.pin db.headers
  supersessionsKeyed : Table.Keyed Supersession.revision db.supersessions
  inputsKeyed : Table.Keyed (fun i : CaptureInput => (i.revision, i.inputKey)) db.inputs
  generation : ∀ h ∈ db.headers, h.pin.indexGeneration = db.current.indexGeneration
    ∧ 1 ≤ h.pin.indexRevision ∧ h.pin.indexRevision ≤ db.current.indexRevision
  headed : ∀ n, 1 ≤ n → n ≤ db.current.indexRevision →
    db.Headed ⟨db.current.indexGeneration, n⟩
  paired : ∀ h ∈ db.headers, db.PairedRevision h.pin
  unmarked : ¬ db.Released db.current
  candidatesPending : db.CandidatesPending
  stamps : ∀ s ∈ db.supersessions, 0 ≤ s.supersededAt ∧ s.supersededAt ≤ maxInteger

namespace Database

/-! ### Rows of one revision -/

theorem hasInput_iff {inputKey : String} :
    db.HasInput pin inputKey ↔ ∃ i ∈ db.inputsOf pin, i.inputKey = inputKey := by
  unfold HasInput inputsOf
  constructor
  · rintro ⟨i, hi, hrev, hkey⟩
    exact ⟨i, List.mem_filter.mpr ⟨hi, by simpa using hrev⟩, hkey⟩
  · rintro ⟨i, hi, hkey⟩
    obtain ⟨hi, hrev⟩ := List.mem_filter.mp hi
    exact ⟨i, hi, by simpa using hrev, hkey⟩

theorem mem_inputsOf {i : CaptureInput} :
    i ∈ db.inputsOf pin ↔ i ∈ db.inputs ∧ i.revision = pin := by
  unfold inputsOf
  rw [List.mem_filter, decide_eq_true_eq]

theorem mem_manifestOf {m : ManifestRow} :
    m ∈ db.manifestOf pin ↔ m ∈ db.manifest ∧ m.revision = pin := by
  unfold manifestOf
  rw [List.mem_filter, decide_eq_true_eq]

theorem stateOf_eq_some (h : Table.Keyed Supersession.revision db.supersessions)
    {state : Retention} :
    db.stateOf pin = some state
      ↔ ∃ s ∈ db.supersessions, s.revision = pin ∧ s.state = state := by
  unfold stateOf supersessionOf
  rw [Option.map_eq_some_iff]
  constructor
  · rintro ⟨s, hfind, hstate⟩
    refine ⟨s, List.mem_of_find?_eq_some hfind, ?_, hstate⟩
    simpa using List.find?_some hfind
  · rintro ⟨s, hs, hrev, hstate⟩
    refine ⟨s, ?_, hstate⟩
    cases hfind : db.supersessions.find? fun s => s.revision = pin with
    | none => exact absurd (List.find?_eq_none.mp hfind s hs) (by simpa using hrev)
    | some t =>
        have ht : t.revision = pin := by simpa using List.find?_some hfind
        rw [h.eq_of_key (List.mem_of_find?_eq_some hfind) hs (ht.trans hrev.symm)]

/-- The rows of a revision are the same in both, and so is whether it is the head. -/
structure SameFor (pin : IndexPin) (db db' : Database) : Prop where
  headed : db.Headed pin → db'.Headed pin
  inventory : db'.inventoryOf pin = db.inventoryOf pin
  supersessions : ∀ s : Supersession, s.revision = pin →
    (s ∈ db'.supersessions ↔ s ∈ db.supersessions)
  debt : pin ∈ db'.debt ↔ pin ∈ db.debt
  inputs : db'.inputsOf pin = db.inputsOf pin
  manifest : db'.manifestOf pin = db.manifestOf pin
  current : pin = db'.current ↔ pin = db.current

theorem SameFor.pairedState (h : SameFor pin db db') {state : Retention}
    (hs : db.PairedState pin state) : db'.PairedState pin state := by
  have hinput : ∀ key, db'.HasInput pin key ↔ db.HasInput pin key := by
    intro key
    rw [hasInput_iff, hasInput_iff, h.inputs]
  have hmem : ∀ i : CaptureInput, i.revision = pin → (i ∈ db'.inputs ↔ i ∈ db.inputs) := by
    intro i hi
    have hboth : i ∈ db'.inputsOf pin ↔ i ∈ db.inputsOf pin := by rw [h.inputs]
    simpa [mem_inputsOf, hi] using hboth
  cases state with
  | retained =>
      obtain ⟨hdebt, hmark, hcount⟩ := hs
      refine ⟨fun hd => hdebt (h.debt.mp hd), ?_, ?_⟩
      · unfold Released at hmark ⊢
        rwa [hinput, hinput]
      · rwa [h.manifest, h.inventory]
  | pending =>
      obtain ⟨hdebt, hmark, hrel, hcount⟩ := hs
      refine ⟨h.debt.mpr hdebt, (hmem _ rfl).mpr hmark, ?_, ?_⟩
      · rwa [hinput]
      · rwa [h.manifest, h.inventory]
  | released =>
      obtain ⟨hdebt, hinputs, hmanifest⟩ := hs
      exact ⟨fun hd => hdebt (h.debt.mp hd), h.inputs.trans hinputs, h.manifest.trans hmanifest⟩

/-- **A revision whose rows are the same is as well paired as before.** -/
theorem SameFor.pairedRevision (h : SameFor pin db db') (hp : db.PairedRevision pin) :
    db'.PairedRevision pin := by
  obtain ⟨hheaded, hhead, hother, hstate⟩ := hp
  refine ⟨h.headed hheaded, ?_, ?_, ?_⟩
  · intro hcur
    obtain ⟨hnone, hdebt, hcount⟩ := hhead (h.current.mp hcur)
    refine ⟨?_, fun hd => hdebt (h.debt.mp hd), by rwa [h.manifest, h.inventory]⟩
    intro s hs hrev
    exact hnone s ((h.supersessions s hrev).mp hs) hrev
  · intro hcur
    obtain ⟨s, hs, hrev⟩ := hother fun hc => hcur (h.current.mpr hc)
    exact ⟨s, (h.supersessions s hrev).mpr hs, hrev⟩
  · intro s hs hrev; exact h.pairedState (hstate s ((h.supersessions s hrev).mp hs) hrev)

namespace Orderly

theorem pairedState (h : db.Orderly) (hfk : db.ForeignKeys) {s : Supersession}
    (hs : s ∈ db.supersessions) : db.PairedState s.revision s.state := by
  obtain ⟨r, hr, hpin⟩ := hfk.supersessionsHeaded s hs
  obtain ⟨-, -, -, hstate⟩ := h.paired r hr
  rw [hpin] at hstate
  exact hstate s hs rfl

theorem not_current (h : db.Orderly) (hfk : db.ForeignKeys) {s : Supersession}
    (hs : s ∈ db.supersessions) : s.revision ≠ db.current := by
  obtain ⟨r, hr, hpin⟩ := hfk.supersessionsHeaded s hs
  obtain ⟨-, hhead, -, -⟩ := h.paired r hr
  rw [hpin] at hhead
  intro hcur
  exact (hhead hcur).1 s hs rfl

/-- **The full check passes**, of every revision. -/
theorem pairedRevision_of_headed (h : db.Orderly) (hheaded : db.Headed pin) :
    db.PairedRevision pin := by
  obtain ⟨r, hr, rfl⟩ := hheaded
  exact h.paired r hr

/-- Of the revisions with a header only the head and the retained ones are not marked. -/
theorem released_iff (h : db.Orderly) (hheaded : db.Headed pin) :
    db.Released pin ↔ ¬ (pin = db.current ∨ db.stateOf pin = some .retained) := by
  obtain ⟨-, -, hother, hstate⟩ := h.pairedRevision_of_headed hheaded
  constructor
  · rintro hmark (rfl | hretained)
    · exact h.unmarked hmark
    · obtain ⟨s, hs, hrev, hs'⟩ := (stateOf_eq_some h.supersessionsKeyed).mp hretained
      have hpaired := hstate s hs hrev
      rw [hs'] at hpaired
      exact hpaired.2.1 hmark
  · intro hlive
    obtain ⟨s, hs, hrev⟩ := hother fun hcur => hlive (.inl hcur)
    have hpaired := hstate s hs hrev
    cases hs' : s.state with
    | retained =>
        exact absurd (.inr ((stateOf_eq_some h.supersessionsKeyed).mpr
          ⟨s, hs, hrev, hs'⟩)) hlive
    | pending => rw [hs'] at hpaired; exact .inr ⟨_, hpaired.2.1, rfl, rfl⟩
    | released =>
        rw [hs'] at hpaired
        have hmem := List.mem_singleton_self (⟨pin, releasedMarker, releasedPayload⟩ : CaptureInput)
        rw [← hpaired.2.1] at hmem
        exact .inl ⟨_, (mem_inputsOf.mp hmem).1, rfl, rfl⟩

end Orderly

end Database

end Baleyg.Store
