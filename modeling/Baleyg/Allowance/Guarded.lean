/-
What the lock, the marker and the transactions keep true.

There is one inode the ledger was ever made on, and a file that SQLite can read holds
either nothing or exactly what was last committed to that inode.  The only `open` that
may make a ledger is one that found no marker; it holds `initialize.lock` from before it
looked until it returns, and it has synced the marker before it makes the file, so once
there is a ledger no later `open` can find no marker.  Everybody else gets no further
than a read, unless the tables are the committed ones.

From this a step is, for the books, one of three things: nothing, a reservation, or the
use of one.  `World.account` is the books as a prepaid account.
-/
import Baleyg.Lib.Prepaid
import Baleyg.Allowance.World

namespace Baleyg.Allowance

open Relation

variable {ρ ο : Type} {K : Ledger ρ ο}

/-! ### Where a task may stand -/

def World.Binds (K : Ledger ρ ο) (w : World ρ ο) (b : Binding) : Prop :=
  ∃ i v, w.committed = some (i, v) ∧ K.Bound b v

/-- What an `open` knows before it touches the ledger. -/
def Stage.Fits (w : World ρ ο) (t : Nat) : Stage → Prop
  | .called => True
  | .locked => w.lock = some t
  | .looked initialized => w.lock = some t ∧ (initialized = false → w.committed = none)
  | .stamped initialized =>
      w.lock = some t ∧ (initialized = false → w.committed = none ∧ w.marker ≠ .absent)
  | .settled initialized =>
      w.lock = some t ∧ (initialized = false → w.committed = none ∧ w.marker = .synced)

def Op.Fits (K : Ledger ρ ο) (w : World ρ ο) (t : Nat) (b : Binding) : Op ο → Prop
  | .bind initialized =>
      w.lock = some t ∧ (initialized = false → w.committed = none ∧ w.marker = .synced)
  | _ => w.Binds K b

/-- A transaction sees an empty ledger or the committed one. -/
structure Views (w : World ρ ο) (t i : Nat) (v : Tables ρ) : Prop where
  writer : (w.disk i).writer = some t
  view : v = .blank ∨ w.committed = some (i, v)
  content : (w.disk i).torn = false → (w.disk i).content = some v

def Phase.Fits (w : World ρ ο) (t : Nat) : Phase ρ → Prop
  | .asked => True
  | .connected i => i < w.made
  | .inspected i => i < w.made
  | .within i v => i < w.made ∧ Views w t i v

/-- **What holds where a task stands.** -/
def Point.Fits (K : Ledger ρ ο) (w : World ρ ο) (t : Nat) : Point ρ ο → Prop
  | .unborn => True
  | .opening _ stage => stage.Fits w t
  | .working b op phase => op.Fits K w t b ∧ phase.Fits w t
  | .closing b => w.lock = some t ∧ w.Binds K b
  | .opened b => w.Binds K b
  | .reserved _ b _ => w.Binds K b
  | .started _ b _ => w.Binds K b
  | .ended => True

/-- What the files and the last commit have to do with each other. -/
structure Filed (K : Ledger ρ ο) (w : World ρ ο) : Prop where
  marker : w.committed ≠ none → w.marker = .synced
  bound : ∀ i v, w.committed = some (i, v) → i < w.made ∧ ∃ b, K.Bound b v
  content : ∀ i v, (w.disk i).content = some v → v = .blank ∨ w.committed = some (i, v)
  path : ∀ i, w.path = some i → i < w.made

structure Booked (K : Ledger ρ ο) (w : World ρ ο) : Prop where
  held : ∀ t id, (w.tasks t).holding = some id → id ∈ w.paid K ∧ id ∉ w.calls
  apart : ∀ s t id, (w.tasks s).holding = some id → (w.tasks t).holding = some id → s = t
  nodup : w.calls.Nodup
  paid : w.calls ⊆ w.paid K

/-- **The invariant of the directory and its tasks.** -/
structure Guarded (K : Ledger ρ ο) (w : World ρ ο) : Prop where
  files : Filed K w
  tasks : ∀ t, (w.tasks t).Fits K w t
  books : Booked K w

theorem guarded_start : Guarded K .start where
  files :=
    { marker := fun h => absurd rfl h
      bound := fun _ _ h => by cases h
      content := fun _ _ h => .inl (Option.some.inj h).symm
      path := fun _ h => by cases h }
  tasks _ := trivial
  books :=
    { held := fun _ _ h => by cases h
      apart := fun _ _ _ h => by cases h
      nodup := List.nodup_nil
      paid := List.nil_subset _ }

/-! ### What one task does to the others

A task relies on the lock it holds, on the marker, and on the transaction it has begun.
-/

/-- What a step leaves alone that another task relies on. -/
structure Spares (K : Ledger ρ ο) (w w' : World ρ ο) (t : Nat) : Prop where
  lock : w.lock = some t → w'.lock = some t
  marker : w.marker ≠ .absent → w'.marker ≠ .absent
  synced : w.marker = .synced → w'.marker = .synced
  made : w.made ≤ w'.made
  binds : ∀ b, w.Binds K b → w'.Binds K b
  fresh : w.lock = some t → w.committed = none → w'.committed = none
  view : ∀ i v, i < w.made → Views w t i v → Views w' t i v

section Spared

variable {w w' : World ρ ο} {t : Nat}

theorem Stage.Fits.spared {stage : Stage} (h : stage.Fits w t) (hw : Spares K w w' t) :
    stage.Fits w' t := by
  cases stage with
  | called => trivial
  | locked => exact hw.lock h
  | looked initialized => exact ⟨hw.lock h.1, fun hi => hw.fresh h.1 (h.2 hi)⟩
  | stamped initialized =>
      exact ⟨hw.lock h.1, fun hi => ⟨hw.fresh h.1 (h.2 hi).1, hw.marker (h.2 hi).2⟩⟩
  | settled initialized =>
      exact ⟨hw.lock h.1, fun hi => ⟨hw.fresh h.1 (h.2 hi).1, hw.synced (h.2 hi).2⟩⟩

theorem Op.Fits.spared {op : Op ο} {b : Binding} (h : op.Fits K w t b) (hw : Spares K w w' t) :
    op.Fits K w' t b := by
  cases op with
  | bind initialized =>
      exact ⟨hw.lock h.1, fun hi => ⟨hw.fresh h.1 (h.2 hi).1, hw.synced (h.2 hi).2⟩⟩
  | reserve | record => exact hw.binds b h

theorem Phase.Fits.spared {phase : Phase ρ} (h : phase.Fits w t) (hw : Spares K w w' t) :
    phase.Fits w' t := by
  cases phase with
  | asked => trivial
  | connected | inspected => exact Nat.lt_of_lt_of_le h hw.made
  | within i v => exact ⟨Nat.lt_of_lt_of_le h.1 hw.made, hw.view i v h.1 h.2⟩

theorem Point.Fits.spared {p : Point ρ ο} (h : p.Fits K w t) (hw : Spares K w w' t) :
    p.Fits K w' t := by
  cases p with
  | unborn | ended => trivial
  | opening b stage => exact Stage.Fits.spared h hw
  | working b op phase => exact ⟨h.1.spared hw, h.2.spared hw⟩
  | closing b => exact ⟨hw.lock h.1, hw.binds b h.2⟩
  | opened b | reserved slot b id | started slot b id => exact hw.binds b h

theorem spares_of_same (hlock : w.lock = some t → w'.lock = some t)
    (hmarker : w.marker ≠ .absent → w'.marker ≠ .absent)
    (hsynced : w.marker = .synced → w'.marker = .synced) (hmade : w.made ≤ w'.made)
    (hdisk : w'.disk = w.disk) (hcommitted : w'.committed = w.committed) : Spares K w w' t where
  lock := hlock
  marker := hmarker
  synced := hsynced
  made := hmade
  binds b h := by
    obtain ⟨i, v, hv, hb⟩ := h
    exact ⟨i, v, hcommitted.trans hv, hb⟩
  fresh _ h := hcommitted.trans h
  view i v _ h := by
    refine ⟨?_, ?_, ?_⟩
    · rw [hdisk]; exact h.writer
    · rw [hcommitted]; exact h.view
    · rw [hdisk]; exact h.content

theorem spares_move {s : Nat} {p : Point ρ ο} : Spares K w (w.move s p) t :=
  spares_of_same id id id (Nat.le_refl _) rfl rfl

theorem spares_write {i : Nat} {n : Inode ρ} {s : Nat} {p : Point ρ ο}
    (hother : (w.disk i).writer ≠ some t) : Spares K w ((w.write i n).move s p) t := by
  refine ⟨id, id, id, Nat.le_refl _, fun _ h => h, fun _ h => h, fun j v _ h => ?_⟩
  have hne : j ≠ i := by
    rintro rfl
    exact hother h.writer
  have hdisk : ((w.write i n).move s p).disk j = w.disk j := Function.update_of_ne hne _ _
  refine ⟨?_, h.view, ?_⟩
  · rw [hdisk]; exact h.writer
  · rw [hdisk]; exact h.content

theorem Views.made {i : Nat} {v : Tables ρ} {n : Inode ρ} {path : Option Nat} {entered : Bool}
    {tasks : Nat → Point ρ ο} (hi : i < w.made) (h : Views w t i v) :
    Views { w.write w.made n with
      path := path, made := w.made + 1, entered := entered, tasks := tasks } t i v := by
  have hdisk : Function.update w.disk w.made n i = w.disk i :=
    Function.update_of_ne (Nat.ne_of_lt hi) _ _
  refine ⟨?_, h.view, fun htorn => ?_⟩
  · exact (congrArg Inode.writer hdisk).trans h.writer
  · exact (congrArg Inode.content hdisk).trans
      (h.content ((congrArg Inode.torn hdisk).symm.trans htorn))

end Spared

/-! ### A commit -/

/-- A transaction that may be committed: on the committed tables, or by the one `open`
that makes them. -/
structure Commits (K : Ledger ρ ο) (w : World ρ ο) (t i : Nat) (v new : Tables ρ) : Prop where
  made : i < w.made
  view : Views w t i v
  origin : w.committed = some (i, v) ∨ (w.committed = none ∧ v = .blank ∧ w.lock = some t)
  marker : w.marker = .synced
  bound : ∃ b, K.Bound b new
  same : ∀ a, K.Bound a v → K.Bound a new

namespace Commits

variable {w : World ρ ο} {t i : Nat} {v new : Tables ρ} {content : Option (Tables ρ)}
  {p : Point ρ ο}

theorem binds (h : Commits K w t i v new) {a : Binding} (ha : w.Binds K a) :
    (w.commit t i new content p).Binds K a := by
  obtain ⟨j, u, hu, hbound⟩ := ha
  rcases h.origin with hi | ⟨hnone, -, -⟩
  · rw [hi] at hu
    cases hu
    exact ⟨i, new, rfl, h.same a hbound⟩
  · rw [hnone] at hu; cases hu

theorem files (h : Commits K w t i v new) (hw : Filed K w)
    (hlands : Lands (w.disk i) v new content) : Filed K (w.commit t i new content p) := by
  refine ⟨fun _ => h.marker, ?_, ?_, hw.path⟩
  · intro j u hu
    cases hu
    exact ⟨h.made, h.bound⟩
  · intro j u hu
    by_cases hj : j = i
    · subst hj
      have hcontent : content = some u := by
        rw [← hu]
        simp [World.commit, World.move, World.write]
      cases hlands with
      | kept hsame =>
          rcases hw.content j u hcontent with hblank | hcommitted
          · exact .inl hblank
          · rcases h.origin with hi | ⟨hnone, -, -⟩
            · rw [hi] at hcommitted
              cases hcommitted
              exact .inr (by rw [← hsame]; rfl)
            · rw [hnone] at hcommitted; cases hcommitted
      | whole hpages => cases hcontent; exact .inr rfl
      | spoiled htorn => cases hcontent
    · have hold : (w.disk j).content = some u := by
        rw [← hu]
        simp [World.commit, World.move, World.write, hj]
      rcases hw.content j u hold with hblank | hcommitted
      · exact .inl hblank
      · rcases h.origin with hi | ⟨hnone, -, -⟩
        · rw [hi] at hcommitted
          cases hcommitted
          exact absurd rfl hj
        · rw [hnone] at hcommitted; cases hcommitted

theorem spares (h : Commits K w t i v new) {s : Nat} (hs : s ≠ t) :
    Spares K w (w.commit t i new content p) s := by
  refine ⟨id, id, id, Nat.le_refl _, fun _ => h.binds, ?_, ?_⟩
  · intro hlock hnone
    rcases h.origin with hi | ⟨-, -, hmine⟩
    · rw [hnone] at hi; cases hi
    · rw [hlock] at hmine; exact absurd (Option.some.inj hmine) hs
  · intro j u hj hviews
    have hne : j ≠ i := by
      rintro rfl
      have heq := hviews.writer.symm.trans h.view.writer
      exact hs (Option.some.inj heq)
    have hdisk : (w.commit t i new content p).disk j = w.disk j := Function.update_of_ne hne _ _
    refine ⟨?_, ?_, ?_⟩
    · rw [hdisk]; exact hviews.writer
    · rcases hviews.view with hblank | hcommitted
      · exact .inl hblank
      · rcases h.origin with hi | ⟨hnone, -, -⟩
        · rw [hi] at hcommitted
          cases hcommitted
          exact absurd rfl hne
        · rw [hnone] at hcommitted; cases hcommitted
    · rw [hdisk]; exact hviews.content

end Commits

section Transactions

variable {w : World ρ ο} {t i slot : Nat} {b : Binding} {v new : Tables ρ}

theorem paid_of_committed (h : w.committed = some (i, v)) : w.paid K = K.keys v := by
  unfold World.paid
  rw [h]

theorem paid_of_none (h : w.committed = none) : w.paid K = [] := by
  unfold World.paid
  rw [h]

/-- Nothing can be reserved or recorded in an empty ledger, so a transaction that does
has begun on the committed tables. -/
theorem Guarded.committed_of_view (hw : Guarded K w) (hview : Views w t i v) (hne : v ≠ .blank) :
    w.committed = some (i, v) ∧ ∃ a, K.Bound a v := by
  have hcommitted := hview.view.resolve_left hne
  exact ⟨hcommitted, (hw.files.bound i v hcommitted).2⟩

theorem Guarded.commits_of_committed (hw : Guarded K w) (hview : Views w t i v)
    (hcommitted : w.committed = some (i, v)) {a : Binding} (ha : K.Bound a v)
    (hnew : K.Bound a new) : Commits K w t i v new where
  made := (hw.files.bound i v hcommitted).1
  view := hview
  origin := .inl hcommitted
  marker := hw.files.marker (by rw [hcommitted]; exact Option.some_ne_none _)
  bound := ⟨a, hnew⟩
  same c hc := by
    rw [hc.unique ha]
    exact hnew

/-- **The transaction of `open`** makes the ledger or leaves it as it is. -/
theorem Guarded.bind_commits (hw : Guarded K w) (hK : K.Lawful) {initialized : Bool}
    (hpoint : w.tasks t = .working b (.bind initialized) (.within i v))
    (hbind : K.bind b initialized v = .ok new) :
    Commits K w t i v new ∧ K.Bound b new ∧ K.keys new = w.paid K := by
  have hfits := hw.tasks t
  rw [hpoint] at hfits
  obtain ⟨⟨hlock, hfresh⟩, hmade, hview⟩ := hfits
  by_cases hblank : v = .blank
  · subst hblank
    obtain ⟨rfl, hbound, hrows⟩ := hK.bind_blank hbind
    obtain ⟨hnone, hsynced⟩ := hfresh rfl
    refine ⟨⟨hmade, hview, .inr ⟨hnone, rfl, hlock⟩, hsynced, ⟨b, hbound⟩, ?_⟩, hbound, ?_⟩
    · intro a ha; exact absurd rfl ha.ne_blank
    · rw [paid_of_none hnone, Ledger.keys, hrows]; rfl
  · obtain ⟨hcommitted, a, ha⟩ := hw.committed_of_view hview hblank
    obtain ⟨rfl, rfl⟩ := hK.bind_bound ha hbind
    exact ⟨hw.commits_of_committed hview hcommitted ha ha, ha, (paid_of_committed hcommitted).symm⟩

/-- **The transaction of `reserve`** enters one reservation, and there was room for it. -/
theorem Guarded.reserve_commits (hw : Guarded K w) (hK : K.Lawful) {id : String}
    {request : List UInt8}
    (hpoint : w.tasks t = .working b (.reserve slot request) (.within i v))
    (hreserve : K.reserve b id request v = .ok new) :
    Commits K w t i v new ∧ K.Bound b new ∧ K.keys new = w.paid K ++ [id] := by
  have hfits := hw.tasks t
  rw [hpoint] at hfits
  have hne : v ≠ .blank := by
    rintro rfl
    exact hK.reserve_blank hreserve
  obtain ⟨hcommitted, a, ha⟩ := hw.committed_of_view hfits.2.2 hne
  obtain ⟨rfl, hnew, hkeys⟩ := hK.reserve_bound ha hreserve
  rw [paid_of_committed hcommitted]
  exact ⟨hw.commits_of_committed hfits.2.2 hcommitted ha hnew, hnew, hkeys⟩

/-- **The update that records a result** leaves every reservation. -/
theorem Guarded.record_commits (hw : Guarded K w) (hK : K.Lawful) {id : String} {o : ο}
    {rest : List ο} (hpoint : w.tasks t = .working b (.record slot id o rest) (.within i v))
    (hrecord : K.record id o v = .ok new) :
    Commits K w t i v new ∧ K.Bound b new ∧ K.keys new = w.paid K := by
  have hfits := hw.tasks t
  rw [hpoint] at hfits
  obtain ⟨⟨j, u, hu, hb⟩, -, hview⟩ := hfits
  have hne : v ≠ .blank := by
    rintro rfl
    exact hK.record_blank hrecord
  obtain ⟨hcommitted, -⟩ := hw.committed_of_view hview hne
  rw [hcommitted] at hu
  cases hu
  obtain ⟨hnew, hkeys⟩ := hK.record_bound hb hrecord
  rw [paid_of_committed hcommitted]
  exact ⟨hw.commits_of_committed hview hcommitted hb hnew, hnew, hkeys⟩

end Transactions

/-! ### The books

A step is no entry in the books, a reservation or the use of one; the steps are told
apart once.
-/

inductive Books (K : Ledger ρ ο) (w w' : World ρ ο) : Prop where
  | none (hpaid : w'.paid K = w.paid K) (hcalls : w'.calls = w.calls)
      (hheld : ∀ s id, (w'.tasks s).holding = some id → (w.tasks s).holding = some id)
  | pay (t : Nat) (id : String) (hpaid : w'.paid K = w.paid K ++ [id]) (hcalls : w'.calls = w.calls)
      (hnew : id ∉ w.paid K) (hmine : (w'.tasks t).holding = some id)
      (hheld : ∀ s, s ≠ t → (w'.tasks s).holding = (w.tasks s).holding)
      (hroom : ∃ b, w'.Binds K b)
  | spend (t : Nat) (id : String) (hpaid : w'.paid K = w.paid K) (hcalls : w'.calls = id :: w.calls)
      (hmine : (w.tasks t).holding = some id) (hgone : (w'.tasks t).holding = Option.none)
      (hheld : ∀ s, s ≠ t → (w'.tasks s).holding = (w.tasks s).holding)

theorem Booked.step {w w' : World ρ ο} (h : Booked K w) (hbooks : Books K w w') :
    Booked K w' := by
  cases hbooks with
  | none hpaid hcalls hheld =>
      refine ⟨?_, ?_, ?_, ?_⟩
      · intro t id ht
        rw [hpaid, hcalls]
        exact h.held t id (hheld t id ht)
      · intro s t id hs ht; exact h.apart s t id (hheld s id hs) (hheld t id ht)
      · rw [hcalls]; exact h.nodup
      · rw [hpaid, hcalls]; exact h.paid
  | pay t id hpaid hcalls hnew hmine hheld hroom =>
      have hother : ∀ s, s ≠ t → (w'.tasks s).holding ≠ some id := by
        intro s hs hsome
        rw [hheld s hs] at hsome
        exact hnew (h.held s id hsome).1
      refine ⟨?_, ?_, ?_, ?_⟩
      · intro s other hs
        rw [hpaid, hcalls, List.mem_append]
        by_cases hst : s = t
        · subst hst
          rw [hmine] at hs
          cases hs
          exact ⟨.inr (List.mem_singleton.mpr rfl), fun hmem => hnew (h.paid hmem)⟩
        · rw [hheld s hst] at hs
          obtain ⟨hmem, hfresh⟩ := h.held s other hs
          exact ⟨.inl hmem, hfresh⟩
      · intro s u other hs hu
        by_cases hst : s = t
        · by_cases hut : u = t
          · rw [hst, hut]
          · subst hst
            rw [hmine] at hs
            cases hs
            exact absurd hu (hother u hut)
        · by_cases hut : u = t
          · subst hut
            rw [hmine] at hu
            cases hu
            exact absurd hs (hother s hst)
          · rw [hheld s hst] at hs
            rw [hheld u hut] at hu
            exact h.apart s u other hs hu
      · rw [hcalls]; exact h.nodup
      · rw [hpaid, hcalls]; exact fun _ hmem => List.mem_append_left _ (h.paid hmem)
  | spend t id hpaid hcalls hmine hgone hheld =>
      obtain ⟨hmem, hfresh⟩ := h.held t id hmine
      have hkept : ∀ s other, (w'.tasks s).holding = some other →
          s ≠ t ∧ (w.tasks s).holding = some other := by
        intro s other hs
        have hst : s ≠ t := by
          rintro rfl
          rw [hgone] at hs
          cases hs
        exact ⟨hst, (hheld s hst).symm.trans hs⟩
      refine ⟨?_, ?_, ?_, ?_⟩
      · intro s other hs
        obtain ⟨hst, hs⟩ := hkept s other hs
        obtain ⟨hmem', hfresh'⟩ := h.held s other hs
        rw [hpaid, hcalls, List.mem_cons, not_or]
        refine ⟨hmem', ?_, hfresh'⟩
        rintro rfl
        exact hst (h.apart s t other hs hmine)
      · intro s u other hs hu
        exact h.apart s u other (hkept s other hs).2 (hkept u other hu).2
      · rw [hcalls]; exact List.nodup_cons.mpr ⟨hfresh, h.nodup⟩
      · rw [hpaid, hcalls]; exact List.cons_subset.mpr ⟨hmem, h.paid⟩

/-- A step that changes one task only, which neither had nor has a reservation. -/
theorem books_of_move {w w' : World ρ ο} {t : Nat} {p : Point ρ ο}
    (hcommitted : w'.committed = w.committed) (hcalls : w'.calls = w.calls)
    (htasks : w'.tasks = Function.update w.tasks t p) (hp : p.holding = none) :
    Books K w w' := by
  refine .none ?_ hcalls ?_
  · unfold World.paid
    rw [hcommitted]
  · intro s id hs
    rw [htasks] at hs
    by_cases hst : s = t
    · subst hst
      rw [Function.update_self, hp] at hs
      cases hs
    · rwa [Function.update_of_ne hst] at hs

theorem recording_holding {slot : Nat} {b : Binding} {id : String} (results : List ο) :
    (Point.recording slot b id results : Point ρ ο).holding = none := by
  cases results <;> rfl

theorem recording_fits {w : World ρ ο} {t slot : Nat} {b : Binding} {id : String}
    (results : List ο) (h : w.Binds K b) : (Point.recording slot b id results).Fits K w t := by
  cases results with
  | nil => trivial
  | cons o rest => exact ⟨h, trivial⟩

theorem books_of_commit {w : World ρ ο} {t i : Nat} {new : Tables ρ}
    {content : Option (Tables ρ)} {p : Point ρ ο} (hkeys : K.keys new = w.paid K)
    (hp : p.holding = none) : Books K w (w.commit t i new content p) := by
  refine .none hkeys rfl fun s id hs => ?_
  by_cases hst : s = t
  · subst hst
    have hmine : (w.commit s i new content p).tasks s = p := Function.update_self _ _ _
    rw [hmine, hp] at hs
    cases hs
  · have hother : (w.commit t i new content p).tasks s = w.tasks s :=
      Function.update_of_ne hst _ _
    rwa [hother] at hs

/-! ### Tampering -/

section Tampering

variable {w w' : World ρ ο}

theorem Tampers.files (h : Tampers w w') (hw : Guarded K w) : Filed K w' := by
  have hf := hw.files
  cases h with
  | delete => exact ⟨hf.marker, hf.bound, hf.content, fun _ h => by cases h⟩
  | @truncate i hpath =>
      refine ⟨hf.marker, hf.bound, fun j v hv => ?_, hf.path⟩
      by_cases hj : j = i
      · subst hj
        left
        simpa [World.write] using hv.symm
      · exact hf.content j v (by simpa [World.write, hj] using hv)
  | @shorten i hpath =>
      refine ⟨hf.marker, hf.bound, fun j v hv => ?_, hf.path⟩
      by_cases hj : j = i
      · subst hj; simp [World.write] at hv
      · exact hf.content j v (by simpa [World.write, hj] using hv)
  | replace =>
      refine ⟨hf.marker, fun i v hv => ?_, fun j v hv => ?_, fun i hi => ?_⟩
      · obtain ⟨hlt, hbound⟩ := hf.bound i v hv
        exact ⟨Nat.lt_succ_of_lt hlt, hbound⟩
      · by_cases hj : j = w.made
        · subst hj
          left
          simpa [World.write, Inode.made] using hv.symm
        · exact hf.content j v (by simpa [World.write, hj] using hv)
      · cases hi; exact Nat.lt_succ_self _

theorem Views.torn {t i j : Nat} {v : Tables ρ} (h : Views w t i v) {content : Option (Tables ρ)} :
    Views (w.write j { w.disk j with content := content, torn := true }) t i v := by
  by_cases hij : i = j
  · subst hij
    refine ⟨?_, h.view, fun htorn => ?_⟩
    · simpa [World.write] using h.writer
    · simp [World.write] at htorn
  · have hdisk : (w.write j { w.disk j with content := content, torn := true }).disk i = w.disk i :=
      Function.update_of_ne hij _ _
    refine ⟨?_, h.view, ?_⟩
    · rw [hdisk]; exact h.writer
    · rw [hdisk]; exact h.content

theorem Tampers.tasks (h : Tampers w w') (hw : Guarded K w) (s : Nat) :
    (w'.tasks s).Fits K w' s := by
  cases h with
  | delete => exact (hw.tasks s).spared (spares_of_same id id id (Nat.le_refl _) rfl rfl)
  | truncate | shorten =>
      exact (hw.tasks s).spared
        ⟨id, id, id, Nat.le_refl _, fun _ h => h, fun _ h => h, fun _ _ _ h => h.torn⟩
  | replace =>
      exact (hw.tasks s).spared
        ⟨id, id, id, Nat.le_succ _, fun _ h => h, fun _ h => h, fun j v hj h => Views.made hj h⟩

theorem Tampers.books (h : Tampers w w') : Books K w w' := by
  cases h <;> exact .none rfl rfl fun _ _ h => h

end Tampering

/-! ### Steps -/

section Steps

variable {w w' : World ρ ο} {t : Nat} {p : Point ρ ο}

theorem Guarded.fits_of_step (hw : Guarded K w) (htasks : w'.tasks = Function.update w.tasks t p)
    (hspares : ∀ s, s ≠ t → Spares K w w' s) (hmine : p.Fits K w' t) (s : Nat) :
    (w'.tasks s).Fits K w' s := by
  rw [htasks]
  by_cases hst : s = t
  · subst hst
    rw [Function.update_self]
    exact hmine
  · rw [Function.update_of_ne hst]; exact (hw.tasks s).spared (hspares s hst)

theorem Guarded.point (hw : Guarded K w) (h : w.tasks t = p) : p.Fits K w t := by
  rw [← h]
  exact hw.tasks t

/-! What the marker is after `stamp` and after `settle`. -/

theorem touch_ne_absent (m : Mark) : m.touch ≠ .absent := by cases m <;> exact nofun

theorem sync_of_ne_absent {m : Mark} (h : m ≠ .absent) : m.sync = .synced := by
  revert h
  cases m <;> simp [Mark.sync]

theorem settled_of_synced {c : Prop} [Decidable c] {m : Mark} (h : m = .synced) :
    (if c then m else m.sync) = .synced := by
  subst h
  split <;> rfl

theorem settled_ne_absent {c : Prop} [Decidable c] {m : Mark} (h : m ≠ .absent) :
    (if c then m else m.sync) ≠ .absent := by
  split
  · exact h
  · rw [sync_of_ne_absent h]; exact nofun

theorem Inode.Dropped.content_eq {S : Nat → Bool} {n n' : Inode ρ} (h : n.Dropped S n')
    (htorn : n.torn = false) : n'.content = n.content := by
  rcases h.content with hsame | ⟨-, htorn', -⟩
  · exact hsame
  · rw [htorn] at htorn'; cases htorn'

/-- The tasks that end take nothing from one that goes on. -/
theorem spares_crash {S : Nat → Bool} {disk : Nat → Inode ρ}
    (hdisk : ∀ i, (w.disk i).Dropped S (disk i)) {tasks : Nat → Point ρ ο} (ht : ¬ S t = true) :
    Spares K w { w with tasks := tasks, lock := w.lock.filter fun t => !S t, disk := disk } t := by
  have hkept : (!S t) = true := by simpa using ht
  refine ⟨fun hlock => ?_, id, id, Nat.le_refl _, fun _ h => h, fun _ h => h,
    fun i v _ hviews => ⟨?_, hviews.view, fun htorn => ?_⟩⟩
  · show w.lock.filter _ = some t
    rw [hlock, Option.filter_some, if_pos hkept]
  · show (disk i).writer = some t
    rw [(hdisk i).writer, hviews.writer, Option.filter_some, if_pos hkept]
  · have htorn := (hdisk i).torn.symm.trans htorn
    exact ((hdisk i).content_eq htorn).trans (hviews.content htorn)

/-- Ending tasks leaves every file as it is or malformed, and the rest as it is. -/
theorem Filed.dropped (h : Filed K w) {S : Nat → Bool} {disk : Nat → Inode ρ}
    (hdisk : ∀ i, (w.disk i).Dropped S (disk i)) (i : Nat) (v : Tables ρ)
    (hv : (disk i).content = some v) : v = .blank ∨ w.committed = some (i, v) := by
  rcases (hdisk i).content with hsame | ⟨-, -, hnone⟩
  · rw [hsame] at hv; exact h.content i v hv
  · rw [hnone] at hv; cases hv

/-- **One step keeps the files in order.** -/
theorem Step.files (h : Step K w w') (hw : Guarded K w) (hK : K.Lawful) : Filed K w' := by
  have hf := hw.files
  cases h with
  | call | lock | look | find | connect | inspect | finish | run | start | receive | skip
  | halt => exact ⟨hf.marker, hf.bound, hf.content, hf.path⟩
  | stamp hpoint hthere =>
      refine ⟨fun hsome => ?_, hf.bound, hf.content, hf.path⟩
      show w.marker.touch = .synced
      rw [hf.marker hsome]
      rfl
  | @settle t b initialized hpoint =>
      exact ⟨fun hsome => settled_of_synced (hf.marker hsome), hf.bound, hf.content, hf.path⟩
  | make hpoint hpath =>
      refine ⟨hf.marker, fun i v hv => ?_, fun i v hv => ?_, fun i hi => ?_⟩
      · obtain ⟨hlt, hbound⟩ := hf.bound i v hv
        exact ⟨Nat.lt_succ_of_lt hlt, hbound⟩
      · by_cases hi : i = w.made
        · subst hi
          left
          simpa [World.write, World.move, Inode.made] using hv.symm
        · exact hf.content i v (by simpa [World.write, World.move, hi] using hv)
      · cases hi; exact Nat.lt_succ_self _
  | @begin t i b op v hpoint hfree hview =>
      refine ⟨hf.marker, hf.bound, fun j u hu => ?_, hf.path⟩
      refine hf.content j u ?_
      by_cases hj : j = i
      · subst hj
        simpa [World.write, World.move] using hu
      · simpa [World.write, World.move, hj] using hu
  | bind hpoint hbind hlands => exact (hw.bind_commits hK hpoint hbind).1.files hf hlands
  | reserve id hpoint hreserve hlands =>
      exact (hw.reserve_commits hK hpoint hreserve).1.files hf hlands
  | record hpoint hrecord hlands => exact (hw.record_commits hK hpoint hrecord).1.files hf hlands
  | crash S disk hdisk => exact ⟨hf.marker, hf.bound, hf.dropped hdisk, hf.path⟩
  | powerLoss disk marker path hdisk hmarker hpath =>
      refine ⟨fun hsome => ?_, hf.bound, hf.dropped hdisk, fun i hi => ?_⟩
      · rcases hmarker with rfl | ⟨hwritten, -⟩
        · exact hf.marker hsome
        · rw [hf.marker hsome] at hwritten; cases hwritten
      · rcases hpath with rfl | ⟨-, rfl⟩
        · exact hf.path i hi
        · cases hi

/-- **One step keeps every task where it may stand.** -/
theorem Step.tasks (h : Step K w w') (hw : Guarded K w) (hK : K.Lawful) :
    ∀ s, (w'.tasks s).Fits K w' s := by
  cases h with
  | call b hpoint hcap => exact hw.fits_of_step rfl (fun s _ => spares_move) trivial
  | lock hpoint hfree =>
      refine hw.fits_of_step rfl (fun s _ => ?_) rfl
      refine spares_of_same (fun hlock => ?_) id id (Nat.le_refl _) rfl rfl
      rw [hfree] at hlock
      cases hlock
  | look hpoint =>
      refine hw.fits_of_step rfl (fun s _ => spares_move) ⟨hw.point hpoint, fun habsent => ?_⟩
      by_contra hsome
      have hsynced := hw.files.marker hsome
      have hmarker := of_decide_eq_false habsent
      rw [hsynced] at hmarker
      exact hmarker (fun h => by cases h)
  | @stamp t b initialized hpoint hthere =>
      have hfits := hw.point hpoint
      refine hw.fits_of_step rfl (fun s _ => ?_)
        ⟨hfits.1, fun hi => ⟨hfits.2 hi, touch_ne_absent w.marker⟩⟩
      refine spares_of_same id (fun _ => touch_ne_absent w.marker) (fun hsynced => ?_)
        (Nat.le_refl _) rfl rfl
      show w.marker.touch = .synced
      rw [hsynced]
      rfl
  | @settle t b initialized hpoint =>
      have hfits := hw.point hpoint
      refine hw.fits_of_step rfl (fun s _ => ?_) ⟨hfits.1, fun hi => ⟨(hfits.2 hi).1, ?_⟩⟩
      · exact spares_of_same id settled_ne_absent settled_of_synced (Nat.le_refl _) rfl rfl
      · show (if initialized = true ∧ K.resyncs = false then w.marker else w.marker.sync) = .synced
        rw [if_neg (fun h => by rw [hi] at h; cases h.1)]
        exact sync_of_ne_absent (hfits.2 hi).2
  | find hpoint hpath =>
      exact hw.fits_of_step rfl (fun s _ => spares_move) ⟨hw.point hpoint, trivial⟩
  | make hpoint hpath =>
      refine hw.fits_of_step rfl (fun s _ => ?_) ⟨hw.point hpoint, trivial⟩
      exact ⟨id, id, id, Nat.le_succ _, fun _ h => h, fun _ h => h,
        fun j v hj h => Views.made hj h⟩
  | connect hpoint hpath hmarker =>
      exact hw.fits_of_step rfl (fun s _ => spares_move)
        ⟨(hw.point hpoint).1, hw.files.path _ hpath⟩
  | inspect hpoint hview hbinding =>
      exact hw.fits_of_step rfl (fun s _ => spares_move) (hw.point hpoint)
  | @begin t i b op v hpoint hfree hview =>
      have hfits := hw.point hpoint
      have hmade : i < w.made := by
        obtain ⟨-, hgate⟩ := hfits
        cases op with
        | bind | reserve | record => exact hgate
      refine hw.fits_of_step rfl (fun s _ => ?_) ⟨hfits.1, hmade, ?_⟩
      · refine spares_write ?_
        rw [hfree]
        exact fun h => by cases h
      · refine ⟨?_, hw.files.content i v hview, fun _ => ?_⟩
        · simp [World.write, World.move]
        · simpa [World.write, World.move] using hview
  | @bind t i b initialized v new content hpoint hbind hlands =>
      obtain ⟨hcommits, hbound, -⟩ := hw.bind_commits hK hpoint hbind
      exact hw.fits_of_step rfl (fun s hs => hcommits.spares hs)
        ⟨(hw.point hpoint).1.1, i, new, rfl, hbound⟩
  | @reserve t i slot b request v new content id hpoint hreserve hlands =>
      obtain ⟨hcommits, hbound, -⟩ := hw.reserve_commits hK hpoint hreserve
      exact hw.fits_of_step rfl (fun s hs => hcommits.spares hs) ⟨i, new, rfl, hbound⟩
  | @record t i slot b id o rest v new content hpoint hrecord hlands =>
      obtain ⟨hcommits, hbound, -⟩ := hw.record_commits hK hpoint hrecord
      exact hw.fits_of_step rfl (fun s hs => hcommits.spares hs)
        (recording_fits rest ⟨i, new, rfl, hbound⟩)
  | @finish t b hpoint =>
      obtain ⟨hlock, hbinds⟩ := hw.point hpoint
      refine hw.fits_of_step rfl (fun s hs => ?_) hbinds
      refine spares_of_same (fun hmine => ?_) id id (Nat.le_refl _) rfl rfl
      rw [hlock] at hmine
      exact absurd (Option.some.inj hmine).symm hs
  | run request hpoint hhandle hrunning =>
      exact hw.fits_of_step rfl (fun s _ => spares_move) ⟨hw.point hhandle, trivial⟩
  | start hpoint hrunning =>
      exact hw.fits_of_step rfl (fun s _ => spares_of_same id id id (Nat.le_refl _) rfl rfl)
        (hw.point hpoint)
  | receive results hpoint hreports | skip results hpoint hreports =>
      exact hw.fits_of_step rfl (fun s _ => spares_move)
        (recording_fits results (hw.point hpoint))
  | halt slot hhalts =>
      exact fun s => (hw.tasks s).spared (spares_of_same id id id (Nat.le_refl _) rfl rfl)
  | crash S disk hdisk =>
      intro s
      show (if S s = true then Point.ended else w.tasks s).Fits K _ s
      split
      · trivial
      · rename_i hs
        exact (hw.tasks s).spared (spares_crash hdisk hs)
  | powerLoss disk marker path hdisk hmarker hpath => exact fun _ => trivial

/-- **One step is at most one entry in the books.** -/
theorem Step.books (h : Step K w w') (hw : Guarded K w) (hK : K.Lawful) : Books K w w' := by
  cases h with
  | call | lock | look | stamp | settle | find | make | connect | inspect | begin =>
      exact books_of_move rfl rfl rfl rfl
  | bind hpoint hbind hlands =>
      exact books_of_commit (hw.bind_commits hK hpoint hbind).2.2 rfl
  | @reserve t i slot b request v new content id hpoint hreserve hlands =>
      obtain ⟨hcommits, hbound, hkeys⟩ := hw.reserve_commits hK hpoint hreserve
      have hmine : (w.commit t i new content (.reserved slot b id)).tasks t
          = .reserved slot b id := Function.update_self _ _ _
      refine .pay t id hkeys rfl ?_ (congrArg Point.holding hmine)
        (fun s hs => congrArg Point.holding (Function.update_of_ne hs _ w.tasks))
        ⟨b, i, new, rfl, hbound⟩
      have hnodup := hbound.nodup
      rw [hkeys, List.nodup_append] at hnodup
      exact fun hmem => hnodup.2.2 id hmem id (List.mem_singleton.mpr rfl) rfl
  | record hpoint hrecord hlands =>
      exact books_of_commit (hw.record_commits hK hpoint hrecord).2.2 (recording_holding _)
  | finish | run => exact books_of_move rfl rfl rfl rfl
  | @start t slot b id hpoint hrunning =>
      have hmine : (w.move t (.started slot b id)).tasks t = .started slot b id :=
        Function.update_self _ _ _
      exact .spend t id rfl rfl (congrArg Point.holding hpoint) (congrArg Point.holding hmine)
        (fun s hs => congrArg Point.holding (Function.update_of_ne hs _ w.tasks))
  | receive | skip => exact books_of_move rfl rfl rfl (recording_holding _)
  | halt slot hhalts => exact .none rfl rfl fun _ _ h => h
  | crash S disk hdisk =>
      refine .none rfl rfl fun s id hs => ?_
      change (if S s = true then Point.ended else w.tasks s).holding = some id at hs
      split at hs
      · cases hs
      · exact hs
  | powerLoss disk marker path hdisk hmarker hpath => exact .none rfl rfl fun _ _ h => by cases h

/-- **What anybody does keeps the directory guarded.** -/
theorem Moves.guarded (h : Moves K w w') (hw : Guarded K w) (hK : K.Lawful) : Guarded K w' := by
  rcases h with hstep | htampers
  · exact ⟨hstep.files hw hK, hstep.tasks hw hK, hw.books.step (hstep.books hw hK)⟩
  · exact ⟨htampers.files hw, htampers.tasks hw, hw.books.step htampers.books⟩

end Steps

end Baleyg.Allowance
