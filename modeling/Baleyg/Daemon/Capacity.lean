/-
How many checkouts are active.

An attachment is refused when it would make one active checkout too many, but other
operations change what counts as active without asking.  None of the moves raises the
count, because a runtime is only ever kept for a checkout that is not released, and work
marked from outside is pending work: a checkout that is found busy was counted already.
What can raise it is only the marking of a released checkout as busy.  So the bound holds
of the checkouts that are not released in every run, and of all active ones in every run
that marks none but those.
-/
import Baleyg.Daemon.Operations

namespace Baleyg.Daemon

open Fallible (Yields final yields_bind yields_get yields_ensure)
open Relation (ReflTransGen)
open Table (Keyed)

/-! ### What makes a checkout busy -/

/-- **A busy checkout is counted.** -/
structure Wired (r : Registry) : Prop where
  keyed : Keyed Entry.key r.entries
  runtimes : ∀ k ∈ r.runtimes, ∃ e ∈ r.entries, e.key = k ∧ e.released = false
  external : ∀ e ∈ r.entries, e.externalWork = true → e.pendingWork = true

def Registry.unreleased (r : Registry) : Nat := r.entries.countP fun e => !e.released

theorem unreleased_le_activeCount (r : Registry) : r.unreleased ≤ r.activeCount := by
  refine List.countP_mono_left fun e _ he => ?_
  unfold Entry.counted
  rw [he, Bool.true_or]

section Wired

variable {r r' : Registry} {k : String}

theorem Wired.alter {f : Entry → Entry} {runtimes : Finset String} (h : Wired r)
    (hentries : r'.entries = Register.alter Entry.key k f r.entries)
    (hruntimes : r'.runtimes = runtimes) (hsub : runtimes ⊆ r.runtimes)
    (hkey : ∀ e, (f e).key = e.key)
    (hkeeps : ∀ e ∈ r.entries, e.key = k → e.released = false → k ∈ runtimes →
      (f e).released = false)
    (hexternal : ∀ e ∈ r.entries, e.key = k → (f e).externalWork = true →
      (f e).pendingWork = true) : Wired r' := by
  refine ⟨?_, fun k' hk' => ?_, fun e' he' => ?_⟩
  · rw [hentries]; exact Register.keyed_alter h.keyed hkey
  · rw [hruntimes] at hk'
    obtain ⟨e, he, hek, hreleased⟩ := h.runtimes k' (hsub hk')
    rw [hentries]
    by_cases hk : e.key = k
    · have hin : k ∈ runtimes := by rwa [← hk, hek]
      exact ⟨f e, Register.mem_alter.mpr (.inr ⟨e, he, hk, rfl⟩), (hkey e).trans hek,
        hkeeps e he hk hreleased hin⟩
    · exact ⟨e, Register.mem_alter.mpr (.inl ⟨he, hk⟩), hek, hreleased⟩
  · rw [hentries] at he'
    rcases Register.mem_alter.mp he' with ⟨he, -⟩ | ⟨e, he, hk, rfl⟩
    · exact h.external e' he
    · exact hexternal e he hk

theorem Wired.insert (h : Wired r) {e : Entry} (hnew : r.entry e.key = none)
    (hentries : r'.entries = (r.insert e).entries) (hruntimes : r'.runtimes = r.runtimes)
    (he : e.externalWork = false) : Wired r' := by
  refine ⟨?_, fun k hk => ?_, fun e' he' hwork => ?_⟩
  · rw [hentries]; exact Register.keyed_put h.keyed
  · rw [hruntimes] at hk
    obtain ⟨a, ha, hak, hreleased⟩ := h.runtimes k hk
    rw [hentries]
    exact ⟨a, Register.mem_put.mpr (.inl ⟨ha, Register.get_eq_none.mp hnew a ha⟩), hak, hreleased⟩
  · rw [hentries] at he'
    rcases Register.mem_put.mp he' with ⟨hold, -⟩ | rfl
    · exact h.external e' hold hwork
    · rw [he] at hwork; cases hwork

theorem wired_of_move (hmove : Move r r') (h : Wired r) : Wired r' := by
  cases hmove with
  | marked found =>
      refine h.alter rfl rfl (Finset.Subset.refl _) (fun _ => rfl) (fun _ _ _ hr _ => hr) ?_
      intro a ha hk hwork
      obtain rfl := eq_of_entry h.keyed found.entry ha hk
      exact found.external hwork
  | freed he hidle hfree =>
      refine h.alter rfl rfl (Finset.erase_subset _ _) (fun _ => rfl) ?_ ?_
      · intro _ _ _ _ hin; exact absurd rfl (Finset.mem_erase.mp hin).1
      · intro a ha hk hwork
        obtain rfl := eq_of_entry h.keyed he ha hk
        rw [show _ = false from hfree] at hwork
        cases hwork
  | settled | registered =>
      exact h.alter rfl rfl (Finset.Subset.refl _) (fun _ => rfl) (fun _ _ _ hr _ => hr)
        fun e he _ => h.external e he
  | without he hidle =>
      refine ⟨Register.keyed_remove h.keyed, fun k' hk' => ?_, fun e' he' => ?_⟩
      · obtain ⟨hne, hk'⟩ := Finset.mem_erase.mp hk'
        obtain ⟨a, ha, hak, hreleased⟩ := h.runtimes k' hk'
        exact ⟨a, Register.mem_remove.mpr ⟨ha, by rwa [hak]⟩, hak, hreleased⟩
      · exact h.external e' (Register.mem_remove.mp he').1
  | @added identity registration hnew =>
      exact h.insert (e := .inert identity registration) hnew rfl rfl rfl
  | @opened k e he hreleased =>
      refine ⟨h.keyed, fun k' hk' => ?_, h.external⟩
      rcases Finset.mem_insert.mp hk' with rfl | hk'
      · obtain ⟨hmem, hkey⟩ := Register.mem_of_get he
        exact ⟨e, hmem, hkey, hreleased⟩
      · exact h.runtimes k' hk'
  | scanned => exact ⟨h.keyed, h.runtimes, h.external⟩
  | reordered perm =>
      refine ⟨(perm.map Entry.key).nodup_iff.mpr h.keyed, fun k' hk' => ?_, fun e he => ?_⟩
      · obtain ⟨a, ha, hak, hreleased⟩ := h.runtimes k' hk'
        exact ⟨a, perm.mem_iff.mpr ha, hak, hreleased⟩
      · exact h.external e (perm.mem_iff.mp he)

theorem countP_insert_inert {p : Entry → Bool} {identity : Identity}
    {registration : Option CheckoutOptions} (hp : p (.inert identity registration) = false) :
    (r.insert (.inert identity registration)).entries.countP p ≤ r.entries.countP p := by
  have hput : (Register.put Entry.key (.inert identity registration) r.entries).countP p
      ≤ r.entries.countP p + [Entry.inert identity registration].countP p :=
    Register.countP_put_le
  have hsingle : [Entry.inert identity registration].countP p = 0 := by
    rw [List.countP_cons_of_neg, List.countP_nil]
    rw [hp]
    exact Bool.false_ne_true
  show (Register.put Entry.key (.inert identity registration) r.entries).countP p ≤ _
  omega

theorem unreleased_le_of_move (hmove : Move r r') : r'.unreleased ≤ r.unreleased := by
  cases hmove with
  | marked | settled | registered => exact Register.countP_alter_le fun _ _ _ h => h
  | freed => exact Register.countP_alter_le fun _ _ _ h => (Bool.false_ne_true h).elim
  | without => exact List.filter_sublist.countP_le
  | added => exact countP_insert_inert rfl
  | opened | scanned => exact Nat.le_refl _
  | reordered perm => exact (perm.countP_eq _).le

/-- **No move raises the count.** -/
theorem activeCount_le_of_move (hmove : Move r r') (h : Wired r) :
    r'.activeCount ≤ r.activeCount := by
  cases hmove with
  | @marked k e pending found =>
      refine Register.countP_alter_le fun a ha hk hcounted => ?_
      obtain rfl := eq_of_entry h.keyed found.entry ha hk
      rcases found.cause with hsame | ⟨hexternal, -⟩ | hruntime
      · rw [hsame] at hcounted; exact hcounted
      · unfold Entry.counted
        rw [h.external e ha hexternal, Bool.or_true]
      · obtain ⟨a, ha', hak, hreleased⟩ := h.runtimes k hruntime
        obtain rfl := eq_of_entry h.keyed found.entry ha' hak
        unfold Entry.counted
        rw [hreleased]
        rfl
  | freed => exact Register.countP_alter_le fun _ _ _ h => (Bool.false_ne_true h).elim
  | settled | registered => exact Register.countP_alter_le fun _ _ _ h => h
  | without => exact List.filter_sublist.countP_le
  | added => exact countP_insert_inert rfl
  | opened | scanned => exact Nat.le_refl _
  | reordered perm => exact (perm.countP_eq _).le

/-- Neither the release nor the work of any checkout is changed. -/
structure Unmarked (r r' : Registry) : Prop where
  runtimes : r'.runtimes = r.runtimes
  entries : ∃ f : Entry → Entry, r'.entries = r.entries.map f ∧ ∀ e,
    (f e).key = e.key ∧ (f e).released = e.released ∧ (f e).pendingWork = e.pendingWork ∧
      (f e).externalWork = e.externalWork

theorem Unmarked.wired (hsame : Unmarked r r') (h : Wired r) : Wired r' := by
  obtain ⟨hruntimes, f, hentries, hf⟩ := hsame
  have hkeys : r'.entries.map Entry.key = r.entries.map Entry.key := by
    rw [hentries, List.map_map]
    exact List.map_congr_left fun e _ => (hf e).1
  refine ⟨?_, fun k hk => ?_, fun e' he' hwork => ?_⟩
  · unfold Keyed
    rw [hkeys]
    exact h.keyed
  · rw [hruntimes] at hk
    obtain ⟨e, he, hek, hreleased⟩ := h.runtimes k hk
    rw [hentries]
    exact ⟨f e, List.mem_map_of_mem he, (hf e).1.trans hek, (hf e).2.1.trans hreleased⟩
  · rw [hentries] at he'
    obtain ⟨e, he, rfl⟩ := List.mem_map.mp he'
    rw [(hf e).2.2.2] at hwork
    rw [(hf e).2.2.1]
    exact h.external e he hwork

theorem Unmarked.counts (hsame : Unmarked r r') :
    r'.activeCount = r.activeCount ∧ r'.unreleased = r.unreleased := by
  obtain ⟨-, f, hentries, hf⟩ := hsame
  unfold Registry.activeCount Registry.unreleased
  rw [hentries, List.countP_map, List.countP_map]
  constructor
  · refine List.countP_congr fun e _ => ?_
    simp only [Function.comp_apply, Entry.counted, (hf e).2.1, (hf e).2.2.1]
  · refine List.countP_congr fun e _ => ?_
    simp only [Function.comp_apply, (hf e).2.1]

end Wired

/-! ### Clients -/

section Clients

variable {r r' : Registry} {session : Option Nat} {identity : Identity}

theorem Admitted.wired (hadmitted : Admitted session identity r r') (h : Wired r) : Wired r' := by
  cases hadmitted with
  | again =>
      exact h.alter rfl rfl (Finset.Subset.refl _) (fun _ => rfl) (fun _ _ _ _ _ => rfl)
        fun e he _ => h.external e he
  | first hnew => exact h.insert (e := .first session identity) hnew rfl rfl rfl

/-- **An attachment keeps within the capacity.** -/
theorem Admitted.activeCount_le (hadmitted : Admitted session identity r r')
    (hkeyed : Keyed Entry.key r.entries) (h : r.activeCount ≤ maxActiveCheckouts) :
    r'.activeCount ≤ maxActiveCheckouts := by
  cases hadmitted with
  | @again e he hroom =>
      by_cases hreleased : e.released = true
      · exact (Register.countP_alter_le_succ hkeyed).trans (hroom hreleased)
      · refine (Register.countP_alter_le fun a ha hk _ => ?_).trans h
        obtain rfl := eq_of_entry hkeyed he ha hk
        unfold Entry.counted
        rw [Bool.eq_false_iff.mpr hreleased]
        rfl
  | first hnew hroom =>
      have hput : (r.insert (.first session identity)).activeCount ≤ r.activeCount + 1 :=
        Register.countP_put_le.trans (Nat.add_le_add_left List.countP_le_length _)
      exact hput.trans hroom

theorem Admitted.unreleased_le (hadmitted : Admitted session identity r r')
    (hkeyed : Keyed Entry.key r.entries) (h : r.unreleased ≤ maxActiveCheckouts) :
    r'.unreleased ≤ maxActiveCheckouts := by
  have hle := unreleased_le_activeCount r
  cases hadmitted with
  | @again e he hroom =>
      by_cases hreleased : e.released = true
      · refine (Register.countP_alter_le_succ hkeyed).trans (Nat.le_trans ?_ (hroom hreleased))
        exact Nat.succ_le_succ hle
      · refine (Register.countP_alter_le fun a ha hk _ => ?_).trans h
        obtain rfl := eq_of_entry hkeyed he ha hk
        rw [Bool.eq_false_iff.mpr hreleased]
        rfl
  | first hnew hroom =>
      have hput : (r.insert (.first session identity)).unreleased ≤ r.unreleased + 1 :=
        Register.countP_put_le.trans (Nat.add_le_add_left List.countP_le_length _)
      exact (hput.trans (Nat.succ_le_succ hle)).trans hroom

end Clients

/-! ### Clocks -/

section Clocks

variable {r r' r'' : Registry}

theorem Unmarked.trans (h : Unmarked r r') (h' : Unmarked r' r'') : Unmarked r r'' := by
  obtain ⟨hruntimes, f, hentries, hf⟩ := h
  obtain ⟨hruntimes', g, hentries', hg⟩ := h'
  refine ⟨hruntimes'.trans hruntimes, g ∘ f, ?_, fun e => ?_⟩
  · rw [hentries', hentries, List.map_map]
  · obtain ⟨hkey, hreleased, hpending, hexternal⟩ := hf e
    obtain ⟨hkey', hreleased', hpending', hexternal'⟩ := hg (f e)
    exact ⟨hkey'.trans hkey, hreleased'.trans hreleased, hpending'.trans hpending,
      hexternal'.trans hexternal⟩

theorem Unmarked.of_entries (hentries : r'.entries = r.entries) (hruntimes : r'.runtimes = r.runtimes) :
    Unmarked r r' :=
  ⟨hruntimes, id, by rw [hentries, List.map_id], fun _ => ⟨rfl, rfl, rfl, rfl⟩⟩

theorem unmarked_browsed (k : String) (now : Nat) : Unmarked r (r.browsed k now) := by
  refine ⟨rfl, _, rfl, fun e => ?_⟩
  split
  · exact ⟨rfl, rfl, rfl, rfl⟩
  · exact ⟨rfl, rfl, rfl, rfl⟩

theorem unmarked_updateExitDeadline (now : Nat) : Unmarked r (r.updateExitDeadline now) := by
  unfold Registry.updateExitDeadline
  split
  · exact .of_entries rfl rfl
  · split
    · exact .of_entries rfl rfl
    · exact .of_entries rfl rfl

theorem unmarked_expireBrowsers (now : Nat) : Unmarked r (r.expireBrowsers now) := by
  refine ⟨rfl, Entry.expire now, rfl, fun e => ?_⟩
  unfold Entry.expire
  split
  · exact ⟨rfl, rfl, rfl, rfl⟩
  · exact ⟨rfl, rfl, rfl, rfl⟩

theorem unmarked_ticked (now : Nat) : Unmarked r (r.ticked now) :=
  (unmarked_expireBrowsers now).trans (unmarked_updateExitDeadline _)

theorem unmarked_disconnectAt (session now : Nat) : Unmarked r (r.disconnectAt session now) := by
  have hleave : ∀ r : Registry,
      Unmarked r { r with entries := r.entries.map (Entry.leave session now) } := by
    intro r
    refine ⟨rfl, Entry.leave session now, rfl, fun e => ?_⟩
    unfold Entry.leave
    split
    · exact ⟨rfl, rfl, rfl, rfl⟩
    · exact ⟨rfl, rfl, rfl, rfl⟩
  have hgone : ∀ r : Registry, Unmarked r
      (if r.entries.any (fun e => session ∈ e.sessions) then
        let r := { r with entries := r.entries.map (Entry.leave session now) }
        if r.Attended then r.updateExitDeadline now
        else { r with idleExitAt := some (now + daemonIdleDelay) }
      else r) := by
    intro r
    split
    · refine (hleave r).trans ?_
      show Unmarked _ (if _ then _ else _)
      split
      · exact unmarked_updateExitDeadline now
      · exact .of_entries rfl rfl
    · exact .of_entries rfl rfl
  refine Unmarked.trans ?_ (hgone _)
  cases lastExpired now r.entries with
  | none => exact unmarked_expireBrowsers now
  | some last => exact (unmarked_expireBrowsers now).trans (unmarked_updateExitDeadline last)

end Clocks

/-! ### One step -/

/-- What a step does to the two counts. -/
structure Fits (r r' : Registry) : Prop where
  wired : Wired r'
  unreleased : r.unreleased ≤ maxActiveCheckouts → r'.unreleased ≤ maxActiveCheckouts
  active : r.activeCount ≤ maxActiveCheckouts → r'.activeCount ≤ maxActiveCheckouts

section Fits

variable {r r' r'' : Registry} {k : String} {session : Option Nat} {identity : Identity}

theorem Fits.trans (h : Fits r r') (h' : Fits r' r'') : Fits r r'' :=
  ⟨h'.wired, fun hle => h'.unreleased (h.unreleased hle), fun hle => h'.active (h.active hle)⟩

theorem Fits.of_move (hwired : Wired r) (hmove : Move r r') : Fits r r' :=
  ⟨wired_of_move hmove hwired, (unreleased_le_of_move hmove).trans,
    (activeCount_le_of_move hmove hwired).trans⟩

theorem Fits.refl (hwired : Wired r) : Fits r r := ⟨hwired, id, id⟩

theorem Fits.of_moves (hwired : Wired r) (h : ReflTransGen Move r r') : Fits r r' := by
  induction h with
  | refl => exact .refl hwired
  | tail _ hlast ih => exact ih.trans (.of_move ih.wired hlast)

theorem Moves.fits {ε α : Type} {x : EStateM ε Registry α} (h : Moves x) (hwired : Wired r) :
    Fits r (final x r) :=
  .of_moves hwired (h r hwired.keyed).final

theorem Unmarked.fits (h : Unmarked r r') (hwired : Wired r) : Fits r r' := by
  obtain ⟨hactive, hunreleased⟩ := h.counts
  exact ⟨h.wired hwired, hunreleased.le.trans, hactive.le.trans⟩

theorem Admitted.fits (h : Admitted session identity r r') (hwired : Wired r) : Fits r r' :=
  ⟨h.wired hwired, h.unreleased_le hwired.keyed, h.activeCount_le hwired.keyed⟩

theorem Replaced.fits (h : Replaced identity r r') (hwired : Wired r) : Fits r r' :=
  .of_moves hwired h.spared.moves

/-- Of the operations, only a mark on a released checkout lets the count grow. -/
def Operation.Careful (r : Registry) : Operation → Prop
  | setPendingWork k true => ∀ e ∈ r.entries, e.key = k → e.released = false
  | _ => True

theorem wired_assigned (hwired : Wired r) (pending : Bool) : Wired (r.assigned k pending) :=
  hwired.alter rfl rfl (Finset.Subset.refl _) (fun _ => rfl) (fun _ _ _ hr _ => hr)
    fun _ _ _ hwork => hwork

theorem unreleased_assigned (pending : Bool) : (r.assigned k pending).unreleased ≤ r.unreleased :=
  Register.countP_alter_le fun _ _ _ h => h

theorem activeCount_assigned {pending : Bool}
    (hcareful : (Operation.setPendingWork k pending).Careful r) :
    (r.assigned k pending).activeCount ≤ r.activeCount := by
  refine Register.countP_alter_le fun e he hk hcounted => ?_
  unfold Entry.counted
  cases pending with
  | false =>
      rw [Entry.counted, Bool.or_false] at hcounted
      rw [hcounted, Bool.true_or]
  | true => rw [hcareful e he hk]; rfl

/-- **What an operation does to the two counts.** -/
theorem Operation.fits (hwired : Wired r) (now : Nat) (op : Operation) :
    Wired (op.perform now r) ∧
      (r.unreleased ≤ maxActiveCheckouts →
        (op.perform now r).unreleased ≤ maxActiveCheckouts) ∧
      (op.Careful r → r.activeCount ≤ maxActiveCheckouts →
        (op.perform now r).activeCount ≤ maxActiveCheckouts) := by
  have hfits : ∀ {r' : Registry}, Fits r r' → Wired r' ∧
      (r.unreleased ≤ maxActiveCheckouts → r'.unreleased ≤ maxActiveCheckouts) ∧
      (op.Careful r → r.activeCount ≤ maxActiveCheckouts → r'.activeCount ≤ maxActiveCheckouts) :=
    fun h => ⟨h.wired, h.unreleased, fun _ => h.active⟩
  cases op with
  | attachLaunch o session launch =>
      refine hfits ((yields_attachLaunch hwired.keyed).mono ?_ ?_).final
      · rintro _ r' ⟨r₁, hreplaced, hadmitted⟩
        have hfirst := hreplaced.fits hwired
        exact hfirst.trans (hadmitted.fits hfirst.wired)
      · intro _ r' hspared; exact .of_moves hwired hspared.moves
  | select o m session =>
      refine hfits ((yields_select hwired.keyed).mono ?_ ?_).final
      · rintro _ r' ⟨identity, r₁, -, hreplaced, hadmitted⟩
        have hfirst := hreplaced.fits hwired
        exact hfirst.trans (hadmitted.fits hfirst.wired)
      · rintro _ r' (rfl | ⟨identity, -, hspared⟩)
        · exact .refl hwired
        · exact .of_moves hwired hspared.moves
  | browserRequest o identity =>
      refine hfits ((yields_browserRequestAt hwired.keyed).mono ?_ ?_).final
      · rintro _ r' ⟨r₁, r₂, hreplaced, hadmitted, rfl⟩
        have hfirst := hreplaced.fits hwired
        have hsecond := hfirst.trans (hadmitted.fits hfirst.wired)
        exact hsecond.trans ((unmarked_browsed identity.rootKey now).fits hsecond.wired)
      · intro _ r' hspared; exact .of_moves hwired hspared.moves
  | disconnect session => exact hfits ((unmarked_disconnectAt session now).fits hwired)
  | setPendingWork k pending =>
      rcases final_setPendingWork r k pending with hassigned | hsame
      · rw [show perform now r (.setPendingWork k pending) = _ from hassigned]
        exact ⟨wired_assigned hwired pending, (unreleased_assigned pending).trans,
          fun hcareful => (activeCount_assigned hcareful).trans⟩
      · rw [show perform now r (.setPendingWork k pending) = _ from hsame]
        exact hfits (.refl hwired)
  | refreshPendingWork probe k => exact hfits ((moves_refreshPendingWork probe).fits hwired)
  | release o k => exact hfits (moves_release.fits hwired)
  | retireReplaced o identity => exact hfits (moves_retireReplaced.fits hwired)
  | canRegister o valid identity options =>
      exact hfits ((moves_canRegister valid options).fits hwired)
  | register o identity options => exact hfits ((moves_register options).fits hwired)
  | browserIdentity o l k => exact hfits ((moves_browserIdentity l).fits hwired)
  | activate opens k => exact hfits ((moves_activate opens).fits hwired)
  | advance o =>
      have hticked := (unmarked_ticked now).fits hwired
      have hsweep := (moves_sweep o now).fits hticked.wired
      exact hfits (hticked.trans hsweep)

end Fits

/-! ### Runs -/

/-- A step that marks no released checkout as busy. -/
inductive CarefulStep (r : Registry) : Registry → Prop
  | perform (now : Nat) (op : Operation) (careful : op.Careful r) : CarefulStep r (op.perform now r)
  | reorder {entries : List Entry} (perm : entries.Perm r.entries) :
      CarefulStep r { r with entries := entries }

theorem wired_startingAt (t : Nat) : Wired (.startingAt t) :=
  ⟨Table.keyed_nil _, fun _ hk => absurd hk (Finset.notMem_empty _),
    fun _ he => absurd he List.not_mem_nil⟩

variable {r : Registry} {n : Nat}

theorem unreleased_of_run {t : Nat} (hrun : ReflTransGen Step (.startingAt t) r) :
    Wired r ∧ r.unreleased ≤ maxActiveCheckouts := by
  refine Runs.keeps_run (I := fun r => Wired r ∧ r.unreleased ≤ maxActiveCheckouts) ?_ hrun
    ⟨wired_startingAt t, Nat.zero_le _⟩
  rintro r _ (⟨now, op⟩ | ⟨perm⟩) ⟨hwired, hle⟩
  · obtain ⟨hwired', hunreleased, -⟩ := op.fits hwired now
    exact ⟨hwired', hunreleased hle⟩
  · have hfits := Fits.of_move hwired (.reordered perm)
    exact ⟨hfits.wired, hfits.unreleased hle⟩

theorem activeCount_of_run {t : Nat} (hrun : ReflTransGen CarefulStep (.startingAt t) r) :
    r.activeCount ≤ maxActiveCheckouts := by
  refine (Runs.keeps_run (I := fun r => Wired r ∧ r.activeCount ≤ maxActiveCheckouts) ?_ hrun
    ⟨wired_startingAt t, Nat.zero_le _⟩).2
  rintro r _ (⟨now, op, hcareful⟩ | ⟨perm⟩) ⟨hwired, hle⟩
  · obtain ⟨hwired', -, hactive⟩ := op.fits hwired now
    exact ⟨hwired', hactive hcareful hle⟩
  · have hfits := Fits.of_move hwired (.reordered perm)
    exact ⟨hfits.wired, hfits.active hle⟩

/-- **Capacity.**  A run that marks no released checkout as busy never has more active
checkouts than it may; no run has more that are not released; and an attachment or a
selection that raises has changed nothing, but that an entry of another identity at the
same root may be out of the way or have its pending work recorded. -/
theorem capacity_of_run {t : Nat} {r : Registry} :
    (ReflTransGen CarefulStep (.startingAt t) r → r.activeCount ≤ maxActiveCheckouts) ∧
      (ReflTransGen Step (.startingAt t) r →
        r.unreleased ≤ maxActiveCheckouts ∧
        (∀ o session identity error r', attach o session identity r = .error error r' →
          Spared identity r r' ∧ r'.activeCount ≤ r.activeCount) ∧
        (∀ o session identity error r', attachLaunch o session identity r = .error error r' →
          Spared identity r r' ∧ r'.activeCount ≤ r.activeCount) ∧
        ∀ o m session error r', select o m session r = .error error r' →
          (r' = r ∨ ∃ identity, m.check = .ok identity ∧ Spared identity r r') ∧
            r'.activeCount ≤ r.activeCount) := by
  refine ⟨activeCount_of_run, fun hrun => ?_⟩
  obtain ⟨hwired, hle⟩ := unreleased_of_run hrun
  have hcount : ∀ {identity r'}, Spared identity r r' → r'.activeCount ≤ r.activeCount := by
    intro identity r' hspared
    rcases hspared with rfl | ⟨e, he, -, ⟨hidle, rfl⟩ | ⟨pending, hfound, rfl⟩⟩
    · exact Nat.le_refl _
    · exact activeCount_le_of_move (.without he hidle) hwired
    · exact activeCount_le_of_move (.marked hfound) hwired
  refine ⟨hle, fun o session identity error r' h => ?_, fun o session identity error r' h => ?_,
    fun o m session error r' h => ?_⟩
  · have hspared := (yields_attach hwired.keyed).of_error h
    exact ⟨hspared, hcount hspared⟩
  · have hspared := (yields_attachLaunch hwired.keyed).of_error h
    exact ⟨hspared, hcount hspared⟩
  · have hselect := (yields_select hwired.keyed).of_error h
    refine ⟨hselect, ?_⟩
    rcases hselect with rfl | ⟨identity, -, hspared⟩
    · exact Nat.le_refl _
    · exact hcount hspared

/-! ### A full registry -/

/-- A checkout that was registered, and the one found at its root since. -/
def stale : Identity := ⟨"/work", "k", "before", 1, 10⟩
def fresh : Identity := ⟨"/work", "k", "after", 1, 11⟩

def guest (n : Nat) : Identity := ⟨"/guest", String.ofList (List.replicate (n + 2) 'k'), "guest", 1, n⟩

def quiet : Outside where
  verified := true
  cloned := true
  found := some fresh
  probe := fun _ => .reads false
  drain := fun _ => .drained
  again := fun _ => .reads false
  orphans := false

/-- A checkout is registered, and then others are attached to. -/
def crowd : Nat → Registry
  | 0 => (Registry.startingAt 0).insert (.inert stale (some ⟨"{}"⟩))
  | n + 1 => { (crowd n).insert (.first (some n) (guest n)) with idleExitAt := none }

theorem guest_fresh (n : Nat) : ∀ e ∈ (crowd n).entries, e.key.length < n + 2 := by
  induction n with
  | zero =>
      intro e he
      rw [List.mem_singleton.mp he]
      decide
  | succ n ih =>
      intro e he
      rcases Register.mem_put.mp he with ⟨hold, -⟩ | rfl
      · exact Nat.lt_succ_of_lt (ih e hold)
      · show (String.ofList (List.replicate (n + 2) 'k')).length < n + 1 + 2
        rw [String.length_ofList, List.length_replicate]
        omega

theorem entry_guest (n : Nat) : (crowd n).entry (guest n).rootKey = none := by
  refine Register.get_eq_none.mpr fun e he hkey => ?_
  have hlength := guest_fresh n e he
  rw [hkey, show (guest n).rootKey = String.ofList (List.replicate (n + 2) 'k') from rfl,
    String.length_ofList, List.length_replicate] at hlength
  omega

theorem activeCount_crowd (n : Nat) : (crowd n).activeCount = n := by
  induction n with
  | zero => rfl
  | succ n ih =>
      have hold : Register.remove Entry.key (guest n).rootKey (crowd n).entries = (crowd n).entries :=
        Register.remove_eq_self (Register.get_eq_none.mp (entry_guest n))
      show (Register.remove Entry.key (guest n).rootKey (crowd n).entries ++
        [Entry.first (some n) (guest n)]).countP Entry.counted = n + 1
      rw [hold, List.countP_append]
      show (crowd n).activeCount + 1 = n + 1
      rw [ih]

theorem attachLaunch_guest (h : n < maxActiveCheckouts) :
    final (attachLaunch quiet n (guest n)) (crowd n) = crowd (n + 1) := by
  have hroom : (crowd n).activeCount < maxActiveCheckouts := by rwa [activeCount_crowd]
  have hnew := entry_guest n
  obtain ⟨a, hattach⟩ : ∃ a, attach quiet (some n) (guest n) (crowd n) = .ok a (crowd (n + 1)) :=
    attach_of_room (retireReplaced_of_none hnew) hnew hroom rfl
  have hyields : Yields (attachLaunch quiet n (guest n)) (crowd n)
      (fun _ r' => r' = crowd (n + 1)) fun _ r' => r' = crowd (n + 1) := by
    unfold attachLaunch
    rw [yields_bind, yields_ensure]
    exact ⟨fun _ => .of_eq_ok hattach rfl, fun hfalse => absurd rfl hfalse⟩
  exact hyields.final

theorem careful_crowd (h : n ≤ maxActiveCheckouts) :
    ReflTransGen CarefulStep (.startingAt 0) (crowd n) := by
  induction n with
  | zero => exact .single (.perform 0 (.register quiet stale ⟨"{}"⟩) trivial)
  | succ n ih =>
      refine (ih (Nat.le_of_succ_le h)).tail ?_
      rw [← attachLaunch_guest h]
      exact .perform 0 (.attachLaunch quiet n (guest n)) trivial

theorem run_of_careful {r' : Registry} (h : ReflTransGen CarefulStep r r') :
    ReflTransGen Step r r' := by
  refine h.lift id fun r _ hstep => ?_
  cases hstep with
  | perform now op => exact .perform now op
  | reorder perm => exact .reorder perm

theorem capacity_of_run_crowd : (crowd maxActiveCheckouts).activeCount ≤ maxActiveCheckouts ∧
    (crowd maxActiveCheckouts).unreleased ≤ maxActiveCheckouts := by
  have hcareful := careful_crowd (Nat.le_refl _)
  exact ⟨capacity_of_run.1 hcareful, (capacity_of_run.2 (run_of_careful hcareful)).1⟩

theorem stale_mem (n : Nat) : Entry.inert stale (some ⟨"{}"⟩) ∈ (crowd n).entries := by
  induction n with
  | zero => exact List.mem_singleton_self _
  | succ n ih =>
      refine Register.mem_put.mpr (.inl ⟨ih, ?_⟩)
      exact Register.get_eq_none.mp (entry_guest n) _ ih

theorem runtimes_crowd (n : Nat) : (crowd n).runtimes = ∅ := by
  induction n with
  | zero => rfl
  | succ n ih => exact ih

theorem entry_stale (hkeyed : Keyed Entry.key (crowd n).entries) :
    (crowd n).entry "k" = some (.inert stale (some ⟨"{}"⟩)) :=
  (Register.get_eq_some hkeyed).mpr ⟨stale_mem n, rfl⟩

theorem activeCount_marked (hkeyed : Keyed Entry.key (crowd n).entries) :
    (Operation.perform 0 (crowd n) (.setPendingWork "k" true)).activeCount = n + 1 := by
  have hmarked : Operation.perform 0 (crowd n) (.setPendingWork "k" true)
      = (crowd n).assigned "k" true := by
    have hyields : Yields (setPendingWork "k" true) (crowd n)
        (fun _ r' => r' = (crowd n).assigned "k" true)
        fun _ r' => r' = (crowd n).assigned "k" true := by
      unfold setPendingWork theEntry
      rw [yields_bind, yields_bind, yields_get, entry_stale hkeyed]
      exact rfl
    exact hyields.final
  have hone := Register.countP_alter (p := Entry.counted)
    (f := fun e : Entry => { e with externalWork := true, pendingWork := true }) hkeyed
    (stale_mem n)
  have hcount := activeCount_crowd n
  rw [hmarked]
  have hcounted : ((crowd n).assigned "k" true).activeCount + 0 = (crowd n).activeCount + 1 := hone
  omega

theorem attachLaunch_fresh (hkeyed : Keyed Entry.key (crowd n).entries)
    (hfull : maxActiveCheckouts ≤ n) : attachLaunch quiet n fresh (crowd n)
      = .error .checkoutCapacity ((crowd n).without "k") := by
  have hentry := entry_stale hkeyed
  have hruntime : fresh.rootKey ∉ (crowd n).runtimes := by
    rw [runtimes_crowd]
    exact Finset.notMem_empty _
  have hretire : canRetireReplaced quiet fresh (crowd n) = true := by
    unfold canRetireReplaced
    rw [show (crowd n).entry fresh.rootKey = _ from hentry]
    decide
  have hretired : retireReplaced quiet fresh (crowd n) = _ :=
    retireReplaced_eq hkeyed hentry (by decide) hretire (by decide) rfl rfl hruntime
  have hgone : ((crowd n).without fresh.rootKey).entry fresh.rootKey = none :=
    Register.get_eq_none.mpr fun a ha => (Register.mem_remove.mp ha).2
  have hroom : maxActiveCheckouts ≤ ((crowd n).without fresh.rootKey).activeCount := by
    refine (hfull.trans (activeCount_crowd n).ge).trans (Register.countP_remove fun a ha hk => ?_).ge
    rw [← eq_of_entry hkeyed hentry ha hk]
    rfl
  have hattach : attach quiet (some n) fresh (crowd n) = _ := attach_of_full hretired hgone hroom
  refine Yields.raises ?_
  unfold attachLaunch
  rw [yields_bind, yields_ensure]
  refine ⟨fun _ => ?_, fun h => absurd rfl h⟩
  unfold Yields
  rw [hattach]
  exact ⟨rfl, rfl⟩

/-- A full registry has one active checkout too many once the released one is marked as
busy, and an attachment to what is now at its root raises and leaves it without the entry
it had. -/
theorem crowd_exceeds :
    (∃ r, ReflTransGen Step (.startingAt 0) r ∧ maxActiveCheckouts < r.activeCount) ∧
      ∃ o session identity r r', ReflTransGen Step (.startingAt 0) r ∧
        attachLaunch o session identity r = .error .checkoutCapacity r' ∧
        r'.entries.length < r.entries.length := by
  have hfull : ∀ n, n ≤ maxActiveCheckouts → ReflTransGen Step (.startingAt 0) (crowd n) :=
    fun n h => run_of_careful (careful_crowd h)
  have hkeyed : ∀ n, n ≤ maxActiveCheckouts → Keyed Entry.key (crowd n).entries :=
    fun n h => (unreleased_of_run (hfull n h)).1.keyed
  obtain ⟨n, hn⟩ : ∃ n, n = maxActiveCheckouts := ⟨_, rfl⟩
  constructor
  · refine ⟨_, (hfull n hn.le).tail (.perform 0 (.setPendingWork "k" true)), ?_⟩
    rw [activeCount_marked (hkeyed n hn.le)]
    omega
  · exact ⟨quiet, n, fresh, crowd n, _, hfull n hn.le, attachLaunch_fresh (hkeyed n hn.le) hn.ge,
      Register.length_remove_lt (stale_mem n)⟩

end Baleyg.Daemon
