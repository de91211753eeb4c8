/-
A ledger nobody else touches.

As long as only the system's own steps are taken, the file the ledger's name leads to
holds what was last committed, so the account can be read there.  The one thing that can
be lost is the name: an entry of a directory that was not synced may go with the power.
`open` syncs the directory before it returns, and nothing is reserved without a handle,
so a name that can be lost has no reservations under it.
-/
import Baleyg.Allowance.Account

namespace Baleyg.Allowance

variable {ρ ο : Type} {K : Ledger ρ ο}

def Phase.Sited (w : World ρ ο) : Phase ρ → Prop
  | .asked => True
  | .connected i => w.path = some i
  | .inspected i => w.path = some i
  | .within i _ => w.path = some i

def Op.Sited (w : World ρ ο) : Op ο → Prop
  | .bind _ => w.path ≠ none
  | _ => w.entered = true

def Point.Sited (w : World ρ ο) : Point ρ ο → Prop
  | .working _ op phase => op.Sited w ∧ phase.Sited w
  | .closing _ => w.path ≠ none
  | .opened _ => w.entered = true
  | .reserved _ _ _ => w.entered = true
  | .started _ _ _ => w.entered = true
  | _ => True

/-- What can be found under the ledger's name. -/
structure Kept (K : Ledger ρ ο) (w : World ρ ο) (i : Nat) (v : Tables ρ) : Prop where
  content : (w.disk i).content = some v
  path : w.path = some i ∨ (w.path = none ∧ K.keys v = [])
  entered : w.entered = false → K.keys v = []

/-- **The file holds what was last committed**, and a name with reservations is synced. -/
structure Intact (K : Ledger ρ ο) (w : World ρ ο) : Prop where
  torn : ∀ i, (w.disk i).torn = false
  kept : ∀ i v, w.committed = some (i, v) → Kept K w i v
  entered : w.entered = true → w.path ≠ none
  tasks : ∀ t, (w.tasks t).Sited w

theorem intact_start : Intact K .start where
  torn _ := rfl
  kept _ _ h := by cases h
  entered h := by cases h
  tasks _ := trivial

section Intact

variable {w w' : World ρ ο} {t : Nat} {p : Point ρ ο}

theorem Point.Sited.same (h : p.Sited w) (hpath : w'.path = w.path)
    (hentered : w.entered = true → w'.entered = true) : p.Sited w' := by
  cases p with
  | working b op phase =>
      obtain ⟨hop, hphase⟩ := h
      refine ⟨?_, ?_⟩
      · cases op with
        | bind initialized => exact fun hnone => hop (hpath.symm.trans hnone)
        | reserve | record => exact hentered hop
      · cases phase with
        | asked => trivial
        | connected | inspected | within => exact hpath.trans hphase
  | closing b => exact fun hnone => h (hpath.symm.trans hnone)
  | opened | reserved | started => exact hentered h
  | unborn | opening | ended => trivial

theorem sited_update {tasks : Nat → Point ρ ο} (hmine : p.Sited w')
    (hothers : ∀ s, (tasks s).Sited w') (s : Nat) : (Function.update tasks t p s).Sited w' := by
  by_cases hst : s = t
  · subst hst
    rw [Function.update_self]
    exact hmine
  · rw [Function.update_of_ne hst]; exact hothers s

theorem Intact.sited_of_step (hi : Intact K w) (htasks : w'.tasks = Function.update w.tasks t p)
    (hpath : w'.path = w.path) (hentered : w.entered = true → w'.entered = true)
    (hmine : p.Sited w') (s : Nat) : (w'.tasks s).Sited w' := by
  rw [htasks]
  exact sited_update hmine (fun s => (hi.tasks s).same hpath hentered) s

/-- Whoever has the ledger open has found a name: where there is none, nobody has. -/
theorem Intact.sited_of_unnamed (hi : Intact K w) (hpath : w.path = none) (s : Nat) :
    (w.tasks s).Sited w' := by
  have hunentered : w.entered ≠ true := fun h => hi.entered h hpath
  have hold := hi.tasks s
  cases hs : w.tasks s with
  | working c op phase =>
      rw [hs] at hold
      cases op with
      | bind initialized => exact absurd hpath hold.1
      | reserve | record => exact absurd hold.1 hunentered
  | closing c => rw [hs] at hold; exact absurd hpath hold
  | opened | reserved | started => rw [hs] at hold; exact absurd hold hunentered
  | unborn | opening | ended => trivial

theorem Intact.move (hi : Intact K w) (hdisk : w'.disk = w.disk)
    (hcommitted : w'.committed = w.committed) (hpath : w'.path = w.path)
    (hentered : w'.entered = w.entered) (htasks : w'.tasks = Function.update w.tasks t p)
    (hmine : p.Sited w) : Intact K w' where
  torn i := by
    rw [hdisk]
    exact hi.torn i
  kept i v hv := by
    rw [hcommitted] at hv
    obtain ⟨hcontent, hname, hempty⟩ := hi.kept i v hv
    refine ⟨?_, ?_, ?_⟩
    · rw [hdisk]; exact hcontent
    · rw [hpath]; exact hname
    · rw [hentered]; exact hempty
  entered h := by
    rw [hpath]
    exact hi.entered (hentered.symm.trans h)
  tasks := hi.sited_of_step htasks hpath (fun h => hentered.trans h)
    (hmine.same hpath fun h => hentered.trans h)

theorem Intact.point (hi : Intact K w) (h : w.tasks t = p) : p.Sited w := by
  rw [← h]
  exact hi.tasks t

theorem Lands.eq_some {n : Inode ρ} {v new : Tables ρ} {content : Option (Tables ρ)}
    (h : Lands n v new content) (htorn : n.torn = false) (hcontent : n.content = some v) :
    content = some new := by
  cases h with
  | kept hsame => rw [hsame, hcontent]
  | whole hpages => rfl
  | spoiled htorn' =>
      rw [htorn] at htorn'
      cases htorn'

/-- A commit on the ledger's file; what it enters is entered under a synced name. -/
theorem Intact.commit (hi : Intact K w) {i : Nat} {v new : Tables ρ}
    {content : Option (Tables ρ)} (hcommits : Commits K w t i v new)
    (hlands : Lands (w.disk i) v new content) (hpath : w.path = some i)
    (hempty : w.entered = false → K.keys new = []) (hmine : p.Sited w) :
    Intact K (w.commit t i new content p) := by
  have hcontent := hlands.eq_some (hi.torn i) (hcommits.view.content (hi.torn i))
  refine ⟨fun j => ?_, fun j u hu => ?_, hi.entered, ?_⟩
  · by_cases hj : j = i
    · subst hj
      simpa [World.commit, World.move, World.write] using hi.torn j
    · simpa [World.commit, World.move, World.write, hj] using hi.torn j
  · cases hu
    refine ⟨?_, .inl hpath, hempty⟩
    simpa [World.commit, World.move, World.write] using hcontent
  · exact hi.sited_of_step rfl rfl id (hmine.same rfl id)

theorem recording_sited {slot : Nat} {b : Binding} {id : String} (results : List ο)
    (h : w.entered = true) : (Point.recording slot b id results : Point ρ ο).Sited w := by
  cases results with
  | nil => trivial
  | cons o rest => exact ⟨h, trivial⟩

/-- A transaction that begins changes nothing that can be read. -/
theorem Intact.begins (hi : Intact K w) {i : Nat} (hmine : p.Sited w) :
    Intact K ((w.write i { w.disk i with writer := some t, torn := false }).move t p) := by
  refine ⟨fun j => ?_, fun j u hu => ?_, hi.entered,
    hi.sited_of_step rfl rfl id (hmine.same rfl id)⟩
  · by_cases hj : j = i
    · subst hj; simp [World.write, World.move]
    · simpa [World.write, World.move, hj] using hi.torn j
  · obtain ⟨hcontent, hname, hempty⟩ := hi.kept j u hu
    refine ⟨?_, hname, hempty⟩
    by_cases hj : j = i
    · subst hj
      simpa [World.write, World.move] using hcontent
    · simpa [World.write, World.move, hj] using hcontent

/-- Tasks that end leave a file that is not cut off as it is. -/
theorem Intact.dropped (hi : Intact K w) {S : Nat → Bool} {disk : Nat → Inode ρ}
    (hdisk : ∀ i, (w.disk i).Dropped S (disk i)) :
    (∀ i, (disk i).torn = false) ∧
      ∀ i v, w.committed = some (i, v) → (disk i).content = some v :=
  ⟨fun i => (hdisk i).torn.trans (hi.torn i),
    fun i v hv => ((hdisk i).content_eq (hi.torn i)).trans (hi.kept i v hv).content⟩

/-- **A step of the system keeps the ledger in its file.** -/
theorem Step.intact (h : Step K w w') (hw : Guarded K w) (hK : K.Lawful) (hi : Intact K w) :
    Intact K w' := by
  cases h with
  | call | lock | look | stamp | settle => exact hi.move rfl rfl rfl rfl rfl trivial
  | find hpoint hpath => exact hi.move rfl rfl rfl rfl rfl ⟨hpath, trivial⟩
  | @make t b hpoint hpath =>
      have hnone := ((hw.point hpoint).2 rfl).1
      refine ⟨fun i => ?_, fun i v hv => ?_, fun h => (by cases h),
        sited_update ⟨Option.some_ne_none _, trivial⟩ (hi.sited_of_unnamed hpath)⟩
      · by_cases hmade : i = w.made
        · subst hmade; simp [World.write, World.move, Inode.made]
        · simpa [World.write, World.move, hmade] using hi.torn i
      · exact absurd (hnone.symm.trans hv) fun h => by cases h
  | connect hpoint hpath hmarker =>
      exact hi.move rfl rfl rfl rfl rfl ⟨(hi.point hpoint).1, hpath⟩
  | inspect hpoint hview hbinding =>
      obtain ⟨hentered, hpath⟩ := hi.point hpoint
      exact hi.move rfl rfl rfl rfl rfl ⟨hentered, hpath⟩
  | @begin t i b op v hpoint hfree hview =>
      have hsited := hi.point hpoint
      have hpath : w.path = some i := by
        obtain ⟨-, hgate⟩ := hsited
        cases op with
        | bind | reserve | record => exact hgate
      exact hi.begins ⟨hsited.1, hpath⟩
  | @bind t i b initialized v new content hpoint hbind hlands =>
      obtain ⟨hcommits, -, hkeys⟩ := hw.bind_commits hK hpoint hbind
      obtain ⟨hnamed, hpath⟩ := hi.point hpoint
      refine hi.commit hcommits hlands hpath (fun hunentered => ?_) hnamed
      rw [hkeys]
      cases hcommitted : w.committed with
      | none => exact paid_of_none hcommitted
      | some last =>
          rw [paid_of_committed (i := last.1) (v := last.2) hcommitted]
          exact (hi.kept last.1 last.2 hcommitted).entered hunentered
  | reserve id hpoint hreserve hlands =>
      obtain ⟨hentered, hpath⟩ := hi.point hpoint
      refine hi.commit (hw.reserve_commits hK hpoint hreserve).1 hlands hpath (fun hfalse => ?_)
        hentered
      exact absurd (hfalse.symm.trans hentered) fun h => by cases h
  | record hpoint hrecord hlands =>
      obtain ⟨hentered, hpath⟩ := hi.point hpoint
      refine hi.commit (hw.record_commits hK hpoint hrecord).1 hlands hpath (fun hfalse => ?_)
        (recording_sited _ hentered)
      exact absurd (hfalse.symm.trans hentered) fun h => by cases h
  | finish hpoint =>
      refine ⟨hi.torn, fun i v hv => ?_, fun _ => hi.point hpoint, ?_⟩
      · obtain ⟨hcontent, hname, -⟩ := hi.kept i v hv
        exact ⟨hcontent, hname, fun h => by cases h⟩
      · exact hi.sited_of_step rfl rfl (fun _ => rfl) rfl
  | run request hpoint hhandle hrunning =>
      exact hi.move rfl rfl rfl rfl rfl ⟨hi.point hhandle, trivial⟩
  | start hpoint hrunning =>
      have hentered := hi.point hpoint
      exact hi.move rfl rfl rfl rfl rfl hentered
  | receive results hpoint hreports | skip results hpoint hreports =>
      exact hi.move rfl rfl rfl rfl rfl (recording_sited _ (hi.point hpoint))
  | halt slot hhalts =>
      refine ⟨hi.torn, fun i v hv => ?_, hi.entered, fun s => (hi.tasks s).same rfl id⟩
      obtain ⟨hcontent, hname, hempty⟩ := hi.kept i v hv
      exact ⟨hcontent, hname, hempty⟩
  | crash S disk hdisk =>
      obtain ⟨htorn, hcontent⟩ := hi.dropped hdisk
      refine ⟨htorn, fun i v hv => ?_, hi.entered, fun s => ?_⟩
      · exact ⟨hcontent i v hv, (hi.kept i v hv).path, (hi.kept i v hv).entered⟩
      · show (if S s = true then Point.ended else w.tasks s).Sited _
        split
        · trivial
        · exact (hi.tasks s).same rfl id
  | powerLoss disk marker path hdisk hmarker hpath =>
      obtain ⟨htorn, hcontent⟩ := hi.dropped hdisk
      refine ⟨htorn, fun i v hv => ?_, fun hentered => ?_, fun _ => trivial⟩
      · obtain ⟨-, hname, hempty⟩ := hi.kept i v hv
        refine ⟨hcontent i v hv, ?_, hempty⟩
        rcases hpath with rfl | ⟨hunentered, rfl⟩
        · exact hname
        · exact .inr ⟨rfl, hempty hunentered⟩
      · rcases hpath with rfl | ⟨hunentered, rfl⟩
        · exact hi.entered hentered
        · exact absurd (hunentered.symm.trans hentered) fun h => by cases h

/-- **What the file holds is what was paid.** -/
theorem Intact.keys_ledger (hi : Intact K w) (hw : Guarded K w) :
    (w.ledger.elim [] K.keys) = w.paid K := by
  cases hcommitted : w.committed with
  | none =>
      rw [paid_of_none hcommitted]
      cases hledger : w.ledger with
      | none => rfl
      | some v =>
          obtain ⟨i, -, hcontent⟩ := Option.bind_eq_some_iff.mp hledger
          rcases hw.files.content i v hcontent with rfl | hsome
          · rfl
          · rw [hcommitted] at hsome; cases hsome
  | some last =>
      obtain ⟨i, v⟩ := last
      rw [paid_of_committed hcommitted]
      obtain ⟨hcontent, hname, -⟩ := hi.kept i v hcommitted
      rcases hname with hpath | ⟨hpath, hempty⟩
      · rw [World.ledger, hpath, Option.bind_some, hcontent]; rfl
      · rw [World.ledger, hpath, hempty]; rfl

end Intact

end Baleyg.Allowance
