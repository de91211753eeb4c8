/-
The recovery latch.

Two atomics say whether an index can be read: the disposition, which only a
publication or the adoption of somebody else's publication brings back to ready, and
the latch itself, `recovery_required`.  Readers obey the latch, and the inventory
that decides whether a publication is needed obeys the disposition.  So a latch that
is set while the disposition is ready must have a publication to come that clears it.

No lock covers the two.  A mark raises the disposition and then sets the latch, a
publication makes the disposition ready and then clears the latch, and when the
second runs whole between the two stores of the first the latch is left set with
nothing to clear it.  `Timely` excludes exactly this order, and exactly this order
breaks the agreement of the two.

A thread is where its operation stands between two accesses to the atomics, so the
threads in flight are all there is to an interleaving.
-/
import Baleyg.Lib.Runs
import Baleyg.Store.Publication

namespace Baleyg.Process

open Store (Disposition)

/-- The `u8` of a disposition. -/
def rank : Disposition → Nat
  | .ready => 0
  | .rebuild => 1
  | .recreatePending => 2
  | .rootReplaced => 3

/-- `fetch_max` on the disposition. -/
def fetchMax (old new : Disposition) : Disposition := if rank old < rank new then new else old

inductive Thread where
  /-- `mark_recovery`, with the latch still to set. -/
  | marking
  | publishing
  /-- A publication that has made the disposition ready. -/
  | resetting
  /-- `observe_external_ready_recovery` before its exchange. -/
  | observing
  /-- An observation that has made the disposition ready. -/
  | adopting
  /-- An observation that has cleared the latch. -/
  | rechecking
  /-- An observation that found the disposition raised again. -/
  | relatching
  /-- The leader's pass before it owns the lock. -/
  | leading
  | latched
  /-- The leader's pass that found a readable head and the disposition ready. -/
  | settling
  deriving DecidableEq, Repr

namespace Thread

/-- The next store sets the latch, for a disposition that was not ready. -/
def sets : Thread → Bool
  | .marking => true
  | .relatching => true
  | _ => false

/-- The next store clears the latch, after one that made the disposition ready. -/
def clears : Thread → Bool
  | .resetting => true
  | .adopting => true
  | _ => false

/-- The permit of the publication gate is held. -/
def holds : Thread → Bool
  | .publishing => true
  | .resetting => true
  | .leading => true
  | .latched => true
  | .settling => true
  | _ => false

/-- The leader's pass has set the latch. -/
def leads : Thread → Bool
  | .latched => true
  | .settling => true
  | _ => false

end Thread

/-- The two atomics, the permit, the operations in flight, and whether a leader has
taken the lock and not published since. -/
structure Latch where
  disposition : Disposition
  required : Bool
  permit : Bool
  owed : Bool
  threads : List Thread
  deriving DecidableEq, Repr

namespace Latch

def start : Latch := ⟨.ready, false, false, false, []⟩

def ensurePublicReadReady (w : Latch) : Except String Unit :=
  if w.required = false then .ok ()
  else
    match w.disposition with
    | .ready => .error "index_not_ready: reconciliation required"
    | .rebuild =>
        .error "incompatible_index: reconciliation required after invalid current index"
    | .recreatePending => .error "recovery_required: exceptional index recovery deferred"
    | .rootReplaced => .error "recovery_required: replacement-root index recovery deferred"

/-- `selected_capture_unchanged` of a capture that is the selected head: no
publication is needed. -/
def skipsUnchanged (w : Latch) : Prop := w.disposition = .ready

instance (w : Latch) : Decidable w.skipsUnchanged := inferInstanceAs (Decidable (_ = _))

/-- The next access of an operation, and where it stands then. -/
def next (w : Latch) : Thread → Latch × Option Thread
  | .marking => ({ w with required := true }, none)
  | .publishing => ({ w with disposition := .ready }, some .resetting)
  | .resetting => ({ w with required := false, owed := false, permit := false }, none)
  | .observing =>
      if w.disposition = .recreatePending then
        ({ w with disposition := .ready }, some .adopting)
      else (w, none)
  | .adopting => ({ w with required := false }, some .rechecking)
  | .rechecking => if w.disposition = .ready then (w, none) else (w, some .relatching)
  | .relatching => ({ w with required := true }, none)
  | .leading => ({ w with required := true, owed := true }, some .latched)
  | .latched =>
      if w.disposition = .ready then (w, some .settling) else ({ w with permit := false }, none)
  | .settling => ({ w with required := false, permit := false }, none)

/-- An operation that ends between two accesses: it fails, or the leader's pass found no
head that was readable before it. -/
def ended (w : Latch) : Thread → Option Latch
  | .publishing => some { w with permit := false }
  | .observing => some w
  | .leading => some { w with permit := false }
  | .latched => some { w with permit := false }
  | _ => none

inductive Event where
  | markRecovery (d : Disposition)
  | publish
  | observe
  | lead
  | next (t : Thread)
  | leave (t : Thread)
  deriving DecidableEq, Repr

def add (w : Latch) (t : Thread) : Latch := { w with threads := t :: w.threads }

def perform (w : Latch) : Event → Latch
  | .markRecovery d => { w with disposition := fetchMax w.disposition d }.add .marking
  | .publish => if w.permit then w else { w with permit := true }.add .publishing
  | .observe =>
      if w.disposition = .recreatePending ∧ w.required = true then w.add .observing else w
  | .lead =>
      if w.permit ∨ w.disposition = .recreatePending ∨ w.disposition = .rootReplaced then w
      else { w with permit := true }.add .leading
  | .next t =>
      if t ∈ w.threads then
        { (w.next t).1 with threads := (w.next t).2.toList ++ w.threads.erase t }
      else w
  | .leave t =>
      match w.ended t with
      | some w' => if t ∈ w.threads then { w' with threads := w.threads.erase t } else w
      | none => w

/-- A mark is made for a disposition that is not ready. -/
def Possible : Event → Prop
  | .markRecovery d => d ≠ .ready
  | _ => True

/-- The latch has a reason, or somebody is about to clear it. -/
def Covered (w : Latch) : Prop :=
  w.disposition ≠ .ready ∨ w.owed = true ∨ ∃ t ∈ w.threads, t.clears = true

instance (w : Latch) : Decidable w.Covered := inferInstanceAs (Decidable (_ ∨ _ ∨ _))

/-- No latch is cleared before a store that is still to set it, unless that store has
a reason by then. -/
def Timely (w : Latch) : Event → Prop
  | .next t => t ∈ w.threads → t.clears = true →
      (∃ t' ∈ (w.perform (.next t)).threads, t'.sets = true) → (w.perform (.next t)).Covered
  | _ => True

def Step (w w' : Latch) : Prop := ∃ e, Possible e ∧ w' = w.perform e

def TimelyStep (w w' : Latch) : Prop := ∃ e, Possible e ∧ w.Timely e ∧ w' = w.perform e

/-- With no operation in flight, the latch is set only for a disposition that is not
ready or a publication that is owed. -/
def Consistent (w : Latch) : Prop :=
  w.threads = [] → w.required = true → w.disposition ≠ .ready ∨ w.owed = true

/-! ### The invariant -/

/-- **What holds between any two accesses of a timely run.** -/
structure Kept (w : Latch) : Prop where
  latched : w.required = true → w.Covered
  setting : (∃ t ∈ w.threads, t.sets = true) → w.Covered
  leads : ∀ t ∈ w.threads, t.leads = true → w.owed = true
  held : w.threads.countP Thread.holds = if w.permit = true then 1 else 0

theorem kept_start : start.Kept where
  latched := by intro h; cases h
  setting := by rintro ⟨t, ht, -⟩; cases ht
  leads := by intro t ht; cases ht
  held := rfl

variable {w w' : Latch} {t : Thread}

theorem covered_add (h : w.Covered) (t : Thread) : (w.add t).Covered := by
  rcases h with hready | howed | ⟨t', ht', hclears⟩
  · exact Or.inl hready
  · exact Or.inr (Or.inl howed)
  · exact Or.inr (Or.inr ⟨t', List.mem_cons_of_mem t ht', hclears⟩)

theorem fetchMax_ne_ready {old new : Disposition} (h : new ≠ .ready) :
    fetchMax old new ≠ .ready := by
  cases old <;> cases new <;> simp_all [fetchMax, rank]

theorem perform_next (ht : t ∈ w.threads) : w.perform (.next t)
    = { (w.next t).1 with threads := (w.next t).2.toList ++ w.threads.erase t } :=
  if_pos ht

theorem mem_next {t' : Thread} (ht : t ∈ w.threads) (ht' : t' ∈ (w.perform (.next t)).threads) :
    t' ∈ (w.next t).2 ∨ t' ∈ w.threads := by
  rw [perform_next ht] at ht'
  rcases List.mem_append.mp ht' with hnew | hold
  · exact Or.inl (Option.mem_toList.mp hnew)
  · exact Or.inr (List.mem_of_mem_erase hold)

/-- **Only a clear takes the cover away.** -/
theorem covered_next (h : w.Covered) (ht : t ∈ w.threads) (hclears : t.clears = false) :
    (w.perform (.next t)).Covered := by
  rw [perform_next ht]
  have hothers : ∀ t' ∈ w.threads, t'.clears = true →
      t' ∈ (w.next t).2.toList ++ w.threads.erase t := by
    intro t' ht' hc
    have hne : t' ≠ t := by
      rintro rfl
      rw [hclears] at hc
      cases hc
    exact List.mem_append_right _ ((List.mem_erase_of_ne hne).mpr ht')
  rcases h with hready | howed | ⟨t', ht', hc⟩
  · -- only the two stores of `ready` lower the disposition, and a clear follows each
    cases t with
    | publishing => exact Or.inr (Or.inr ⟨.resetting, by simp [next], rfl⟩)
    | observing =>
        by_cases hpending : w.disposition = .recreatePending
        · refine Or.inr (Or.inr ⟨.adopting, ?_, rfl⟩)
          simp [next, hpending]
        · left
          simpa [next, hpending] using hready
    | rechecking | latched => exact Or.inl (by simp [next, hready])
    | _ => exact Or.inl hready
  · right
    left
    cases t with
    | resetting => cases hclears
    | observing => by_cases hp : w.disposition = .recreatePending <;> simpa [next, hp] using howed
    | rechecking | latched => by_cases hp : w.disposition = .ready <;> simpa [next, hp] using howed
    | leading => rfl
    | _ => exact howed
  · exact Or.inr (Or.inr ⟨t', hothers t' ht' hc, hc⟩)

theorem countP_erase_add (ht : t ∈ w.threads) (p : Thread → Bool) :
    (w.threads.erase t).countP p + (if p t = true then 1 else 0) = w.threads.countP p := by
  rw [(List.perm_cons_erase ht).countP_eq, List.countP_cons]

theorem held_next (h : w.Kept) (ht : t ∈ w.threads) :
    (w.perform (.next t)).threads.countP Thread.holds
      = if (w.perform (.next t)).permit = true then 1 else 0 := by
  have hheld := h.held
  have hpos : t.holds = true → w.permit = true := by
    intro hholds
    by_contra hfree
    rw [if_neg hfree, List.countP_eq_zero] at hheld
    exact hheld t ht hholds
  rw [perform_next ht]
  dsimp only
  have herase := countP_erase_add ht Thread.holds
  rw [hheld] at herase
  rw [List.countP_append]
  cases t with
  | observing =>
      by_cases hpending : w.disposition = .recreatePending
      · simpa [next, Thread.holds, hpending] using herase
      · simpa [next, Thread.holds, hpending] using herase
  | rechecking =>
      by_cases hready : w.disposition = .ready
      · simpa [next, Thread.holds, hready] using herase
      · simpa [next, Thread.holds, hready] using herase
  | latched =>
      rw [hpos rfl] at herase
      by_cases hready : w.disposition = .ready
      · simpa [next, Thread.holds, hready, hpos rfl] using herase
      · simpa [next, Thread.holds, hready] using herase
  | marking | adopting | relatching => rw [Nat.add_comm] at herase; exact herase
  | publishing | leading =>
      rw [hpos rfl] at herase
      simpa [next, Thread.holds, hpos rfl] using herase
  | resetting | settling =>
      rw [hpos rfl] at herase
      simpa [next, Thread.holds] using herase

/-- While a publication is between its two stores no leader's pass has set the latch. -/
theorem Kept.exclusive (h : w.Kept) {t t' : Thread} (ht : t ∈ w.threads) (ht' : t' ∈ w.threads)
    (hholds : t.holds = true) (hholds' : t'.holds = true) : t = t' := by
  by_contra hne
  have hone : w.threads.countP Thread.holds ≤ 1 := by
    rw [h.held]
    split <;> decide
  have herase := countP_erase_add ht Thread.holds
  rw [if_pos hholds] at herase
  have hpos : 0 < (w.threads.erase t).countP Thread.holds :=
    List.countP_pos_iff.mpr ⟨t', (List.mem_erase_of_ne (Ne.symm hne)).mpr ht', hholds'⟩
  omega

theorem leads_next (h : w.Kept) (ht : t ∈ w.threads) :
    ∀ t' ∈ (w.perform (.next t)).threads, t'.leads = true →
      (w.perform (.next t)).owed = true := by
  intro t' ht' hleads
  have howed : t' ∈ w.threads.erase t → t ≠ .resetting ∧ w.owed = true := by
    intro hmem
    refine ⟨?_, h.leads t' (List.mem_of_mem_erase hmem) hleads⟩
    rintro rfl
    have hholds' : t'.holds = true := by cases t' <;> first | rfl | cases hleads
    obtain rfl := h.exclusive ht (List.mem_of_mem_erase hmem) rfl hholds'
    cases hleads
  rw [perform_next ht] at ht' ⊢
  rcases List.mem_append.mp ht' with hnew | hold
  · cases t with
    | leading => rfl
    | latched =>
        by_cases hready : w.disposition = .ready
        · simpa [next, hready] using h.leads _ ht rfl
        · simp [next, hready] at hnew
    | observing =>
        by_cases hpending : w.disposition = .recreatePending
        · simp only [next, hpending, if_true, Option.toList_some, List.mem_singleton] at hnew
          rw [hnew] at hleads
          cases hleads
        · simp [next, hpending] at hnew
    | rechecking =>
        by_cases hready : w.disposition = .ready
        · simp [next, hready] at hnew
        · simp only [next, hready, if_false, Option.toList_some, List.mem_singleton] at hnew
          rw [hnew] at hleads
          cases hleads
    | publishing | adopting => rw [List.mem_singleton.mp hnew] at hleads; cases hleads
    | _ => cases hnew
  · obtain ⟨hne, hkept⟩ := howed hold
    cases t with
    | resetting => exact absurd rfl hne
    | leading => rfl
    | observing => by_cases hp : w.disposition = .recreatePending <;> simpa [next, hp] using hkept
    | rechecking | latched => by_cases hp : w.disposition = .ready <;> simpa [next, hp] using hkept
    | _ => exact hkept

theorem latched_next (h : w.Kept) (ht : t ∈ w.threads) (hclears : t.clears = false)
    (hrequired : (w.perform (.next t)).required = true) : (w.perform (.next t)).Covered := by
  by_cases hsets : t.sets = true
  · exact covered_next (h.setting ⟨t, ht, hsets⟩) ht hclears
  by_cases hleading : t = .leading
  · subst hleading
    right
    left
    rw [perform_next ht]
    rfl
  · refine covered_next (h.latched ?_) ht hclears
    rw [perform_next ht] at hrequired
    cases t with
    | marking | relatching => exact absurd rfl hsets
    | leading => exact absurd rfl hleading
    | observing =>
        by_cases hp : w.disposition = .recreatePending <;> simpa [next, hp] using hrequired
    | rechecking | latched =>
        by_cases hp : w.disposition = .ready <;> simpa [next, hp] using hrequired
    | publishing => exact hrequired
    | _ => cases hrequired

theorem setting_next (h : w.Kept) (ht : t ∈ w.threads) (hclears : t.clears = false)
    (hsetting : ∃ t' ∈ (w.perform (.next t)).threads, t'.sets = true) :
    (w.perform (.next t)).Covered := by
  obtain ⟨t', ht', hsets⟩ := hsetting
  rcases mem_next ht ht' with hnew | hold
  · -- an observation that is to latch again has just seen a disposition that is not ready
    left
    rw [perform_next ht]
    cases t with
    | rechecking =>
        by_cases hready : w.disposition = .ready
        · simp [next, hready] at hnew
        · simp [next, hready]
    | observing =>
        by_cases hp : w.disposition = .recreatePending
        · simp only [next, hp, if_true, Option.mem_some_iff] at hnew
          rw [← hnew] at hsets
          cases hsets
        · simp [next, hp] at hnew
    | latched =>
        by_cases hp : w.disposition = .ready
        · simp only [next, hp, if_true, Option.mem_some_iff] at hnew
          rw [← hnew] at hsets
          cases hsets
        · simp [next, hp] at hnew
    | publishing | leading =>
        obtain rfl := Option.mem_some_iff.mp hnew
        cases hsets
    | adopting => cases hclears
    | _ => cases hnew
  · exact covered_next (h.setting ⟨t', hold, hsets⟩) ht hclears

theorem kept_next (h : w.Kept) (htimely : w.Timely (.next t)) (ht : t ∈ w.threads) :
    (w.perform (.next t)).Kept := by
  by_cases hclears : t.clears = true
  · refine ⟨?_, htimely ht hclears, leads_next h ht, held_next h ht⟩
    intro hrequired
    rw [perform_next ht] at hrequired
    cases t with
    | resetting | adopting => cases hrequired
    | _ => cases hclears
  · rw [Bool.not_eq_true] at hclears
    exact ⟨latched_next h ht hclears, setting_next h ht hclears, leads_next h ht, held_next h ht⟩

theorem kept_add (h : w.Kept) (hcovered : w.Covered → w'.Covered)
    (hrequired : w'.required = w.required) (howed : w'.owed = w.owed)
    (hthreads : w'.threads = w.threads) (hleads : t.leads = false)
    (hsets : t.sets = true → w'.Covered)
    (hheld : (if t.holds = true then 1 else 0) + (if w.permit = true then 1 else 0)
      = if w'.permit = true then 1 else 0) : (w'.add t).Kept where
  latched := by
    intro hlatch
    have hlatch' : w'.required = true := hlatch
    rw [hrequired] at hlatch'
    exact covered_add (hcovered (h.latched hlatch')) t
  setting := by
    rintro ⟨t', ht', hsets'⟩
    rcases List.mem_cons.mp ht' with rfl | hold
    · exact covered_add (hsets hsets') t'
    · exact covered_add (hcovered (h.setting ⟨t', hthreads ▸ hold, hsets'⟩)) t
  leads := by
    intro t' ht' hleads'
    show w'.owed = true
    rw [howed]
    rcases List.mem_cons.mp ht' with rfl | hold
    · rw [hleads] at hleads'
      cases hleads'
    · exact h.leads t' (hthreads ▸ hold) hleads'
  held := by
    show (t :: w'.threads).countP Thread.holds = if w'.permit = true then 1 else 0
    rw [List.countP_cons, hthreads, h.held, ← hheld]
    omega

theorem kept_leave (h : w.Kept) : (w.perform (.leave t)).Kept := by
  show Kept (match w.ended t with | some w' => _ | none => _)
  cases hended : w.ended t with
  | none => exact h
  | some w' =>
      dsimp only
      by_cases ht : t ∈ w.threads
      · rw [if_pos ht]
        have hkeeps : w'.disposition = w.disposition ∧ w'.required = w.required
            ∧ w'.owed = w.owed ∧ t.clears = false ∧ w'.permit = (w.permit && !t.holds) := by
          cases t <;> simp only [ended, reduceCtorEq, Option.some.injEq] at hended
          all_goals
            subst hended
            simp [Thread.clears, Thread.holds]
        obtain ⟨hdisposition, hrequired, howed, hclears, hpermit⟩ := hkeeps
        have hcovered : w.Covered → Covered { w' with threads := w.threads.erase t } := by
          rintro (hready | ho | ⟨t', ht', hc⟩)
          · exact Or.inl (hdisposition ▸ hready)
          · exact Or.inr (Or.inl (howed ▸ ho))
          · refine Or.inr (Or.inr ⟨t', (List.mem_erase_of_ne ?_).mpr ht', hc⟩)
            rintro rfl
            rw [hclears] at hc
            cases hc
        refine ⟨fun hlatch => hcovered (h.latched (hrequired ▸ hlatch)), ?_, ?_, ?_⟩
        · rintro ⟨t', ht', hsets⟩
          exact hcovered (h.setting ⟨t', List.mem_of_mem_erase ht', hsets⟩)
        · intro t' ht' hleads
          show w'.owed = true
          rw [howed]
          exact h.leads t' (List.mem_of_mem_erase ht') hleads
        · have herase := countP_erase_add ht Thread.holds
          rw [h.held] at herase
          show (w.threads.erase t).countP Thread.holds = if w'.permit = true then 1 else 0
          by_cases hholds : t.holds = true
          · rw [if_pos hholds] at herase
            rw [hpermit, hholds, if_neg (by simp)]
            split at herase <;> omega
          · rw [if_neg hholds] at herase
            rw [hpermit, Bool.eq_false_iff.mpr hholds, Bool.not_false, Bool.and_true]
            exact herase
      · rw [if_neg ht]; exact h

theorem kept_step (hstep : TimelyStep w w') (h : w.Kept) : w'.Kept := by
  obtain ⟨e, hpossible, htimely, rfl⟩ := hstep
  cases e with
  | markRecovery d =>
      have hraised := @fetchMax_ne_ready w.disposition d hpossible
      exact kept_add h (fun _ => Or.inl hraised) rfl rfl rfl rfl (fun _ => Or.inl hraised)
        (Nat.zero_add _)
  | publish =>
      show Kept (if _ then _ else _)
      by_cases hpermit : w.permit = true
      · rw [if_pos hpermit]; exact h
      · rw [if_neg hpermit]
        refine kept_add h id rfl rfl rfl rfl (by intro hs; cases hs) ?_
        rw [if_neg hpermit]
        rfl
  | observe =>
      show Kept (if _ then _ else _)
      split
      · exact kept_add h id rfl rfl rfl rfl (by intro hs; cases hs) (Nat.zero_add _)
      · exact h
  | lead =>
      show Kept (if _ then _ else _)
      by_cases hrefused : w.permit = true ∨ w.disposition = .recreatePending
          ∨ w.disposition = .rootReplaced
      · rw [if_pos hrefused]; exact h
      · rw [if_neg hrefused]
        refine kept_add h id rfl rfl rfl rfl (by intro hs; cases hs) ?_
        rw [if_neg fun hpermit => hrefused (Or.inl hpermit)]
        rfl
  | next t =>
      by_cases ht : t ∈ w.threads
      · exact kept_next h htimely ht
      · show Kept (if _ then _ else _)
        rw [if_neg ht]
        exact h
  | leave t => exact kept_leave h

/-- The states timely histories lead to. -/
def Reached : Latch → Prop := Runs.Reachable (fun w => w = start) TimelyStep

theorem Reached.kept (h : Reached w) : w.Kept := by
  have hstep : ∀ u v, TimelyStep u v → u.Kept → v.Kept := fun u v huv hu => kept_step huv hu
  refine Runs.Reachable.keeps ?_ hstep h
  rintro _ rfl
  exact kept_start

/-! ### What an untimely clear leads to -/

/-- The latch is set or about to be, for a disposition that is ready, with nothing owed
and nobody to clear it. -/
structure Stranded (w : Latch) : Prop where
  ready : w.disposition = .ready
  settled : w.owed = false
  others : ∀ t ∈ w.threads, t.clears = false ∧ t.leads = false
  latch : w.required = true ∨ ∃ t ∈ w.threads, t.sets = true

theorem Stranded.erase (h : w.Stranded) (ht : t ∈ w.threads)
    (hdisposition : w'.disposition = w.disposition) (howed : w'.owed = w.owed)
    (hthreads : w'.threads = w.threads.erase t)
    (hrequired : w'.required = true ∨ w'.required = w.required ∧ t.sets = false) :
    w'.Stranded where
  ready := hdisposition.trans h.ready
  settled := howed.trans h.settled
  others := by
    intro t' ht'
    rw [hthreads] at ht'
    exact h.others t' (List.mem_of_mem_erase ht')
  latch := by
    rcases hrequired with hset | ⟨hsame, hsets⟩
    · exact Or.inl hset
    · rcases h.latch with hlatch | ⟨t', ht', hsets'⟩
      · exact Or.inl (hsame.trans hlatch)
      · refine Or.inr ⟨t', ?_, hsets'⟩
        rw [hthreads]
        refine (List.mem_erase_of_ne ?_).mpr ht'
        rintro rfl
        rw [hsets] at hsets'
        cases hsets'

/-- **Every operation in flight can run out without clearing the latch.** -/
theorem Stranded.runs_out (h : w.Stranded) (ht : t ∈ w.threads) :
    ∃ w', Step w w' ∧ w'.Stranded ∧ w'.threads = w.threads.erase t := by
  have hnext : ∀ d, (w.next t).1 = d → (w.next t).2 = none → d.disposition = w.disposition →
      d.owed = w.owed → (d.required = true ∨ d.required = w.required ∧ t.sets = false) →
      ∃ w', Step w w' ∧ w'.Stranded ∧ w'.threads = w.threads.erase t := by
    rintro d rfl hnone hdisposition howed hrequired
    have hthreads : (w.perform (.next t)).threads = w.threads.erase t := by
      rw [perform_next ht, hnone]
      rfl
    refine ⟨_, ⟨.next t, trivial, rfl⟩, ?_, hthreads⟩
    rw [perform_next ht] at hthreads ⊢
    exact h.erase ht hdisposition howed hthreads hrequired
  have hleave : ∀ d, w.ended t = some d → d.disposition = w.disposition → d.owed = w.owed →
      d.required = w.required → t.sets = false →
      ∃ w', Step w w' ∧ w'.Stranded ∧ w'.threads = w.threads.erase t := by
    intro d hended hdisposition howed hrequired hsets
    have hperform : w.perform (.leave t) = { d with threads := w.threads.erase t } := by
      show (match w.ended t with | some w' => _ | none => _) = _
      rw [hended]
      exact if_pos ht
    refine ⟨_, ⟨.leave t, trivial, rfl⟩, ?_, by rw [hperform]⟩
    rw [hperform]
    exact h.erase ht hdisposition howed rfl (Or.inr ⟨hrequired, hsets⟩)
  obtain ⟨hclears, hleads⟩ := h.others t ht
  cases t with
  | marking | relatching => exact hnext _ rfl rfl rfl rfl (Or.inl rfl)
  | rechecking =>
      have hsame : w.next .rechecking = (w, none) := if_pos h.ready
      exact hnext w (by rw [hsame]) (by rw [hsame]) rfl rfl (Or.inr ⟨rfl, rfl⟩)
  | publishing | observing | leading => exact hleave _ rfl rfl rfl rfl rfl
  | resetting | adopting => cases hclears
  | latched | settling => cases hleads

/-- **A stranded state comes to rest with the latch set for nothing.** -/
theorem Stranded.rests (n : Nat) :
    ∀ {w : Latch}, w.Stranded → w.threads.length = n →
      ∃ w', Relation.ReflTransGen Step w w' ∧ ¬ w'.Consistent := by
  induction n with
  | zero =>
      intro w h hlength
      have hnone := List.length_eq_zero_iff.mp hlength
      refine ⟨w, .refl, fun hconsistent => ?_⟩
      have hlatch : w.required = true := by
        rcases h.latch with hlatch | ⟨t, ht, -⟩
        · exact hlatch
        · rw [hnone] at ht; cases ht
      rcases hconsistent hnone hlatch with hready | howed
      · exact hready h.ready
      · rw [h.settled] at howed; cases howed
  | succ n ih =>
      intro w h hlength
      obtain ⟨t, ht⟩ := List.exists_mem_of_length_pos (by omega : 0 < w.threads.length)
      obtain ⟨w', hstep, h', hthreads⟩ := h.runs_out ht
      obtain ⟨w'', hrun, hbad⟩ := ih h' (by rw [hthreads, List.length_erase_of_mem ht]; omega)
      exact ⟨w'', .head hstep hrun, hbad⟩

theorem stranded_of_untimely (h : w.Kept) {e : Event} (huntimely : ¬ w.Timely e) :
    (w.perform e).Stranded := by
  cases e with
  | next t =>
      unfold Timely at huntimely
      push Not at huntimely
      obtain ⟨ht, -, hsets, huncovered⟩ := huntimely
      unfold Covered at huncovered
      push Not at huncovered
      obtain ⟨hready, howed, hclears⟩ := huncovered
      refine ⟨hready, Bool.eq_false_iff.mpr howed, fun t' ht' => ⟨?_, ?_⟩, Or.inr hsets⟩
      · exact Bool.eq_false_iff.mpr (hclears t' ht')
      · exact Bool.eq_false_iff.mpr fun hleads => howed (leads_next h ht t' ht' hleads)
  | markRecovery | publish | observe | lead | leave => exact absurd trivial huntimely

theorem Consistent.readable (h : w.Consistent) (hrest : w.threads = [])
    (hskips : w.skipsUnchanged) (howed : w.owed = false) :
    w.ensurePublicReadReady = .ok () := by
  refine if_pos (Bool.eq_false_iff.mpr fun hlatch => ?_)
  rcases h hrest hlatch with hready | ho
  · exact hready hskips
  · rw [howed] at ho; cases ho

end Latch

/-- **The recovery latch is consistent in every timely interleaving**: with no operation
in flight it is set only for a disposition that is not ready or a publication that is
owed, so reads are not refused while a capture that is the head is skipped.  And an
untimely clear is never harmless: from it the operations in flight can run out with the
latch set for nothing. -/
theorem recovery_latch {w : Latch} (h : w.Reached) :
    w.Consistent
      ∧ (w.threads = [] → w.skipsUnchanged → w.owed = false → w.ensurePublicReadReady = .ok ())
      ∧ ∀ w', Latch.Step w w' → ¬ Latch.TimelyStep w w' →
        ∃ w'', Relation.ReflTransGen Latch.Step w' w'' ∧ ¬ w''.Consistent := by
  have hkept := h.kept
  have hconsistent : w.Consistent := by
    intro hrest hlatch
    rcases hkept.latched hlatch with hready | howed | ⟨t, ht, -⟩
    · exact Or.inl hready
    · exact Or.inr howed
    · rw [hrest] at ht; cases ht
  refine ⟨hconsistent, hconsistent.readable, ?_⟩
  rintro w' ⟨e, hpossible, rfl⟩ hnot
  have huntimely : ¬ w.Timely e := fun htimely => hnot ⟨e, hpossible, htimely, rfl⟩
  exact (Latch.stranded_of_untimely hkept huntimely).rests _ rfl

/-- A mark that is over before a publication resets the two. -/
def Latch.sample : Latch :=
  ((((Latch.start.perform (.markRecovery .rebuild)).perform (.next .marking)).perform
    .publish).perform (.next .publishing)).perform (.next .resetting)

theorem recovery_latch_sample :
    Latch.sample.threads = [] ∧ Latch.sample.disposition = .ready
      ∧ Latch.sample.ensurePublicReadReady = .ok () := by
  have hreached : Latch.sample.Reached := by
    refine ⟨_, rfl, ?_⟩
    refine .head ⟨.markRecovery .rebuild, Disposition.noConfusion, trivial, rfl⟩ (.head
      ⟨.next .marking, trivial, ?_, rfl⟩ (.head ⟨.publish, trivial, trivial, rfl⟩ (.head
      ⟨.next .publishing, trivial, ?_, rfl⟩ (.single ⟨.next .resetting, trivial, ?_, rfl⟩))))
    all_goals
      unfold Latch.Timely
      decide
  exact ⟨by decide, by decide, (recovery_latch hreached).2.1 (by decide) (by decide) (by decide)⟩

/-- **A publication that resets the two between the stores of a mark** leaves reads
refused with the disposition ready and nothing owed. -/
theorem recovery_latch_stranded :
    ¬ ∀ w, Runs.Reachable (fun w => w = Latch.start) Latch.Step w → w.Consistent := by
  intro hall
  have hbad := hall (((((Latch.start.perform (.markRecovery .rebuild)).perform .publish).perform
    (.next .publishing)).perform (.next .resetting)).perform (.next .marking)) ⟨_, rfl,
      .head ⟨.markRecovery .rebuild, Disposition.noConfusion, rfl⟩ (.head ⟨.publish, trivial, rfl⟩ (.head
        ⟨.next .publishing, trivial, rfl⟩ (.head ⟨.next .resetting, trivial, rfl⟩
          (.single ⟨.next .marking, trivial, rfl⟩))))⟩
  have hlatched := hbad (by decide) (by decide)
  revert hlatched
  decide

end Baleyg.Process
