/-
A ledger somebody has tampered with.

Taking the ledger away gains nothing.  `Doomed` follows an `open` that took the lock
when the marker was there and the ledger was not, or was empty or malformed: only an
`open` that found no marker makes a ledger, it would have to hold the same lock, and a
transaction that had begun on the ledger before it was cut off can only leave a file
that is no ledger.  So as long as this `open` has the lock there is nothing for it to
find, and all that is left to it is to end.
-/
import Baleyg.Allowance.Account

namespace Baleyg.Allowance

open Relation

variable {ρ ο : Type} {K : Ledger ρ ο}

/-- There is no ledger in the file, and no transaction that could leave one. -/
structure World.Lost (w : World ρ ο) (i : Nat) : Prop where
  made : i < w.made
  content : (w.disk i).content = some .blank ∨ (w.disk i).content = none
  torn : ∀ t v, (w.tasks t).view = some (i, v) → v = .blank ∨ (w.disk i).torn = true

/-- Where an `open` may stand that took the lock too late. -/
def Point.Hopeless (w : World ρ ο) : Point ρ ο → Prop
  | .opening _ .locked => True
  | .opening _ (.looked initialized) => initialized = true
  | .opening _ (.stamped initialized) => initialized = true
  | .opening _ (.settled initialized) => initialized = true
  | .working _ (.bind initialized) phase =>
      initialized = true ∧
        match phase with
        | .asked => True
        | .connected i => w.Lost i
        | .inspected _ => False
        | .within _ v => v = .blank
  | _ => False

/-- **An `open` that cannot succeed any more.** -/
structure Doomed (w : World ρ ο) (t : Nat) : Prop where
  lock : w.lock = some t
  marker : w.marker ≠ .absent
  path : ∀ i, w.path = some i → w.Lost i
  point : (w.tasks t).Hopeless w

section Lost

variable {w w' : World ρ ο} {t i : Nat} {p : Point ρ ο}

/-- A task in a transaction sees what `Views` says. -/
theorem Guarded.views_of_view (hw : Guarded K w) {v : Tables ρ}
    (h : (w.tasks t).view = some (i, v)) : i < w.made ∧ Views w t i v := by
  have hfits := hw.tasks t
  cases hp : w.tasks t with
  | working b op phase =>
      cases phase with
      | within j u =>
          rw [hp] at h hfits
          cases h
          exact hfits.2
      | _ => rw [hp] at h; cases h
  | _ => rw [hp] at h; cases h

/-- An empty or malformed file is lost: a transaction that saw more began before the
file was cut off. -/
theorem Guarded.lost (hw : Guarded K w) (hmade : i < w.made)
    (hcontent : (w.disk i).content = some .blank ∨ (w.disk i).content = none) : w.Lost i := by
  refine ⟨hmade, hcontent, fun t v hv => ?_⟩
  obtain ⟨-, hviews⟩ := hw.views_of_view hv
  cases htorn : (w.disk i).torn with
  | true => exact .inr rfl
  | false =>
      have hsome := hviews.content htorn
      rcases hcontent with hblank | hnone
      · rw [hblank] at hsome; exact .inl (Option.some.inj hsome).symm
      · rw [hnone] at hsome; cases hsome

theorem World.Lost.same (h : w.Lost i) (hdisk : w'.disk i = w.disk i) (hmade : w.made ≤ w'.made)
    (hview : ∀ s v, (w'.tasks s).view = some (i, v) → (w.tasks s).view = some (i, v)) :
    w'.Lost i := by
  refine ⟨Nat.lt_of_lt_of_le h.made hmade, ?_, fun s v hv => ?_⟩
  · rw [hdisk]; exact h.content
  · rw [hdisk]; exact h.torn s v (hview s v hv)

theorem view_of_update (htasks : w'.tasks = Function.update w.tasks t p) (hp : p.view = none)
    (s : Nat) (v : Tables ρ) (hv : (w'.tasks s).view = some (i, v)) :
    (w.tasks s).view = some (i, v) := by
  rw [htasks] at hv
  by_cases hst : s = t
  · subst hst
    rw [Function.update_self, hp] at hv
    cases hv
  · rwa [Function.update_of_ne hst] at hv

theorem World.Lost.commit (h : w.Lost i) {j : Nat} {v new : Tables ρ}
    {content : Option (Tables ρ)} (hlands : Lands (w.disk j) v new content)
    (hview : (w.tasks t).view = some (j, v)) (hblank : v ≠ .blank) (hp : p.view = none) :
    (w.commit t j new content p).Lost i := by
  have htorn : ∀ s u, ((w.commit t j new content p).tasks s).view = some (i, u) →
      u = .blank ∨ (w.disk i).torn = true :=
    fun s u hu => h.torn s u (view_of_update rfl hp s u hu)
  by_cases hij : i = j
  · subst hij
    have hdisk : (w.commit t i new content p).disk i
        = { w.disk i with writer := none, content := content } := Function.update_self _ _ _
    refine ⟨h.made, ?_, ?_⟩
    · rw [hdisk]
      cases hlands with
      | kept hsame => exact h.content
      | whole hpages =>
          have htorn' := (h.torn t v hview).resolve_left hblank
          rcases hpages with hfalse | hempty
          · rw [htorn'] at hfalse; cases hfalse
          · exact absurd hempty hblank
      | spoiled htorn' => exact .inr rfl
    · rw [hdisk]; exact htorn
  · have hdisk : (w.commit t j new content p).disk i = w.disk i := Function.update_of_ne hij _ _
    refine ⟨h.made, ?_, ?_⟩
    · rw [hdisk]; exact h.content
    · rw [hdisk]; exact htorn

theorem World.Lost.begin (h : w.Lost i) {j : Nat} {b : Binding} {op : Op ο} {v : Tables ρ}
    (hw : Guarded K w) (hfree : (w.disk j).writer = none) (hview : (w.disk j).content = some v) :
    ((w.write j { w.disk j with writer := some t, torn := false }).move t
      (.working b op (.within j v))).Lost i := by
  by_cases hij : i = j
  · subst hij
    refine ⟨h.made, ?_, fun s u hu => ?_⟩
    · simpa [World.write, World.move] using h.content
    · left
      by_cases hst : s = t
      · subst hst
        have hv : v = u := by simpa [World.write, World.move, Point.view] using hu
        rw [← hv]
        rcases h.content with hblank | hnone
        · rw [hblank] at hview; exact (Option.some.inj hview).symm
        · rw [hnone] at hview; cases hview
      · have hold : (w.tasks s).view = some (i, u) := by
          simpa [World.write, World.move, hst] using hu
        have hwriter := (hw.views_of_view hold).2.writer
        rw [hfree] at hwriter
        cases hwriter
  · refine ⟨h.made, ?_, fun s u hu => ?_⟩
    · simpa [World.write, World.move, hij] using h.content
    · by_cases hst : s = t
      · subst hst
        have heq : j = i ∧ v = u := by simpa [World.write, World.move, Point.view] using hu
        exact absurd heq.1.symm hij
      · have hold : (w.tasks s).view = some (i, u) := by
          simpa [World.write, World.move, hst] using hu
        simpa [World.write, World.move, hij] using h.torn s u hold

theorem Tampers.lost (h : Tampers w w') (hi : w.Lost i) : w'.Lost i := by
  cases h with
  | delete => exact ⟨hi.made, hi.content, hi.torn⟩
  | @truncate j hpath =>
      by_cases hij : i = j
      · subst hij
        refine ⟨hi.made, .inl ?_, fun _ _ _ => .inr ?_⟩ <;> simp [World.write]
      · refine ⟨hi.made, ?_, fun s v hv => ?_⟩
        · simpa [World.write, hij] using hi.content
        · simpa [World.write, hij] using hi.torn s v hv
  | @shorten j hpath =>
      by_cases hij : i = j
      · subst hij
        refine ⟨hi.made, .inr ?_, fun _ _ _ => .inr ?_⟩ <;> simp [World.write]
      · refine ⟨hi.made, ?_, fun s v hv => ?_⟩
        · simpa [World.write, hij] using hi.content
        · simpa [World.write, hij] using hi.torn s v hv
  | replace =>
      exact hi.same (Function.update_of_ne (Nat.ne_of_lt hi.made) _ _) (Nat.le_succ _)
        fun _ _ h => h

theorem Tampers.path_lost (h : Tampers w w') (hw : Guarded K w)
    (hpath : ∀ j, w.path = some j → w.Lost j) (j : Nat) (hj : w'.path = some j) : w'.Lost j := by
  cases h with
  | delete => cases hj
  | truncate hsome => exact (Tampers.truncate hsome).lost (hpath j hj)
  | shorten hsome => exact (Tampers.shorten hsome).lost (hpath j hj)
  | replace =>
      cases hj
      refine ⟨Nat.lt_succ_self _, .inl ?_, fun s v hv => ?_⟩
      · simp [World.write, Inode.made]
      · exact absurd (hw.views_of_view hv).1 (Nat.lt_irrefl _)

end Lost

/-! ### The `open` that came too late -/

section Doomed

variable {w w' : World ρ ο} {s t i : Nat} {p : Point ρ ο}

theorem Doomed.hopeless (hd : Doomed w t) (h : w.tasks t = p) : p.Hopeless w := by
  rw [← h]
  exact hd.point

theorem Point.Hopeless.mono (h : p.Hopeless w) (hlost : ∀ i, w.Lost i → w'.Lost i) :
    p.Hopeless w' := by
  cases p with
  | working b op phase =>
      cases op with
      | bind initialized =>
          cases phase with
          | connected i => exact ⟨h.1, hlost i h.2⟩
          | asked | inspected | within => exact h
      | reserve | record => exact h
  | opening b stage => cases stage <;> exact h
  | _ => exact h

/-- The transaction that could make a ledger is that of whoever has the lock. -/
theorem Doomed.ne_blank (hd : Doomed w t) (hw : Guarded K w) (hK : K.Lawful) {b : Binding}
    {initialized : Bool} {v new : Tables ρ}
    (hpoint : w.tasks s = .working b (.bind initialized) (.within i v))
    (hbind : K.bind b initialized v = .ok new) : v ≠ .blank := by
  rintro rfl
  obtain ⟨rfl, -, -⟩ := hK.bind_blank hbind
  have hlock := (hw.point hpoint).1.1
  rw [hd.lock] at hlock
  cases hlock
  exact absurd (hd.hopeless hpoint).1 Bool.false_ne_true

theorem recording_view {slot : Nat} {b : Binding} {id : String} (results : List ο) :
    (Point.recording slot b id results : Point ρ ο).view = none := by
  cases results <;> rfl

/-- **No step makes anything of a lost file** while the lock is held in vain. -/
theorem Step.lost (h : Step K w w') (hw : Guarded K w) (hK : K.Lawful) (hd : Doomed w t)
    (hi : w.Lost i) : w'.Lost i := by
  have hsame : ∀ {r : Nat} {q : Point ρ ο} {u : World ρ ο}, u.disk = w.disk → u.made = w.made →
      u.tasks = Function.update w.tasks r q → q.view = none → u.Lost i := by
    intro r q u hdisk hmade htasks hq
    exact hi.same (congrFun hdisk i) (Nat.le_of_eq hmade.symm) (view_of_update htasks hq)
  cases h with
  | make hpoint hpath =>
      exact hi.same (Function.update_of_ne (Nat.ne_of_lt hi.made) _ _) (Nat.le_succ _)
        (view_of_update rfl rfl)
  | begin hpoint hfree hview => exact hi.begin hw hfree hview
  | bind hpoint hbind hlands =>
      exact hi.commit hlands (congrArg Point.view hpoint) (hd.ne_blank hw hK hpoint hbind) rfl
  | reserve id hpoint hreserve hlands =>
      refine hi.commit hlands (congrArg Point.view hpoint) ?_ rfl
      rintro rfl
      exact hK.reserve_blank hreserve
  | record hpoint hrecord hlands =>
      refine hi.commit hlands (congrArg Point.view hpoint) ?_ (recording_view _)
      rintro rfl
      exact hK.record_blank hrecord
  | receive | skip => exact hsame rfl rfl rfl (recording_view _)
  | halt slot hhalts => exact hi.same rfl (Nat.le_refl _) fun _ _ h => h
  | crash S disk hdisk =>
      have hd := hdisk i
      refine ⟨hi.made, ?_, fun s v hv => ?_⟩
      · rcases hd.content with hsame | ⟨-, -, hnone⟩
        · exact hsame ▸ hi.content
        · exact .inr hnone
      · show v = .blank ∨ (disk i).torn = true
        rw [hd.torn]
        change (if S s = true then Point.ended else w.tasks s).view = some (i, v) at hv
        split at hv
        · cases hv
        · exact hi.torn s v hv
  | powerLoss disk marker path hdisk hmarker hpath =>
      refine ⟨hi.made, ?_, fun _ _ h => by cases h⟩
      rcases (hdisk i).content with hsame | ⟨-, -, hnone⟩
      · exact hsame ▸ hi.content
      · exact .inr hnone
  | _ => exact hsame rfl rfl rfl rfl

theorem Doomed.move (hd : Doomed w t) (htasks : w'.tasks = Function.update w.tasks s p)
    (hlock : w'.lock = w.lock) (hmarker : w'.marker ≠ .absent) (hpath : w'.path = w.path)
    (hlost : ∀ i, w.Lost i → w'.Lost i) (hmine : s = t → p.Hopeless w') : Doomed w' t := by
  refine ⟨hlock.trans hd.lock, hmarker, fun i hi => hlost i (hd.path i (hpath.symm.trans hi)), ?_⟩
  rw [htasks]
  by_cases hst : t = s
  · subst hst
    rw [Function.update_self]
    exact hmine rfl
  · rw [Function.update_of_ne hst]; exact hd.point.mono hlost

/-- **The only way out of a doomed `open` is its end.** -/
theorem Step.doomed (h : Step K w w') (hw : Guarded K w) (hK : K.Lawful) (hd : Doomed w t) :
    Doomed w' t ∨ w'.tasks t = .ended := by
  have hlost : ∀ i, w.Lost i → w'.Lost i := fun i hi => h.lost hw hK hd hi
  -- a step from where no doomed `open` stands is a step of another task
  have hother : ∀ {r : Nat} {q : Point ρ ο}, w.tasks r = q → ¬ q.Hopeless w → r ≠ t := by
    rintro r q hpoint hnot rfl
    exact hnot (hd.hopeless hpoint)
  cases h with
  | call b hpoint hcap | inspect hpoint hview hbinding | reserve id hpoint hreserve hlands
  | record hpoint hrecord hlands | run request hpoint hhandle hrunning | start hpoint hrunning
  | receive results hpoint hreports | skip results hpoint hreports =>
      exact .inl (hd.move rfl rfl hd.marker rfl hlost fun h => absurd h (hother hpoint nofun))
  | lock hpoint hfree => rw [hd.lock] at hfree; cases hfree
  | look hpoint =>
      exact .inl (hd.move rfl rfl hd.marker rfl hlost fun _ => decide_eq_true hd.marker)
  | stamp hpoint hthere =>
      refine .inl (hd.move rfl rfl (touch_ne_absent _) rfl hlost ?_)
      rintro rfl
      exact hd.hopeless hpoint
  | settle hpoint =>
      refine .inl (hd.move rfl rfl (settled_ne_absent hd.marker) rfl hlost ?_)
      rintro rfl
      exact hd.hopeless hpoint
  | find hpoint hpath =>
      refine .inl (hd.move rfl rfl hd.marker rfl hlost ?_)
      rintro rfl
      exact ⟨hd.hopeless hpoint, trivial⟩
  | @make s b hpoint hpath =>
      -- it has the lock, so it would be this one, and this one found the marker
      have hlock := (hw.point hpoint).1
      rw [hd.lock] at hlock
      cases hlock
      exact absurd (hd.hopeless hpoint) Bool.false_ne_true
  | @connect s i b op hpoint hpath hmarker =>
      refine .inl (hd.move rfl rfl hd.marker rfl hlost ?_)
      rintro rfl
      have hopeless := hd.hopeless hpoint
      cases op with
      | bind initialized => exact ⟨hopeless.1, hlost i (hd.path i hpath)⟩
      | reserve | record => exact hopeless
  | @begin s i b op v hpoint hfree hview =>
      refine .inl (hd.move rfl rfl hd.marker rfl hlost ?_)
      rintro rfl
      have hopeless := hd.hopeless hpoint
      cases op with
      | bind initialized =>
          refine ⟨hopeless.1, ?_⟩
          rcases hopeless.2.content with hblank | hnone
          · rw [hblank] at hview; exact (Option.some.inj hview).symm
          · rw [hnone] at hview; cases hview
      | reserve | record => exact hopeless
  | bind hpoint hbind hlands =>
      refine .inl (hd.move rfl rfl hd.marker rfl hlost ?_)
      rintro rfl
      exact absurd (hd.hopeless hpoint).2 (hd.ne_blank hw hK hpoint hbind)
  | finish hpoint =>
      have hlock := (hw.point hpoint).1
      rw [hd.lock] at hlock
      cases hlock
      exact absurd (hd.hopeless hpoint) id
  | halt slot hhalts =>
      exact .inl ⟨hd.lock, hd.marker, fun i hi => hlost i (hd.path i hi), hd.point.mono hlost⟩
  | crash S disk hdisk =>
      by_cases ht : S t = true
      · exact .inr (if_pos ht)
      · refine .inl ⟨?_, hd.marker, fun i hi => hlost i (hd.path i hi), ?_⟩
        · show w.lock.filter _ = some t
          rw [hd.lock, Option.filter_some, if_pos]
          simpa using ht
        · show (if S t = true then Point.ended else w.tasks t).Hopeless _
          rw [if_neg ht]
          exact hd.point.mono hlost
  | powerLoss disk marker path hdisk hmarker hpath => exact .inr rfl

theorem Tampers.doomed (h : Tampers w w') (hw : Guarded K w) (hd : Doomed w t) : Doomed w' t := by
  have hlost : ∀ i, w.Lost i → w'.Lost i := fun i hi => h.lost hi
  have hpath := h.path_lost hw hd.path
  cases h with
  | delete | truncate | shorten | replace => exact ⟨hd.lock, hd.marker, hpath, hd.point.mono hlost⟩

theorem Moves.ended (h : Moves K w w') (ht : w.tasks t = .ended) : w'.tasks t = .ended := by
  have hother : ∀ {r : Nat} {q q' : Point ρ ο}, w.tasks r = q → q ≠ .ended →
      Function.update w.tasks r q' t = .ended := by
    intro r q q' hpoint hne
    have htr : t ≠ r := by
      rintro rfl
      exact hne (hpoint.symm.trans ht)
    rw [Function.update_of_ne htr]
    exact ht
  rcases h with hstep | htampers
  · cases hstep with
    | begin hpoint hfree hview | call b hpoint | lock hpoint | look hpoint | stamp hpoint
    | settle hpoint | find hpoint | make hpoint | connect hpoint | inspect hpoint | bind hpoint
    | reserve id hpoint | record hpoint | finish hpoint | run request hpoint | start hpoint
    | receive results hpoint | skip results hpoint => exact hother hpoint fun h => by cases h
    | halt slot hhalts => exact ht
    | crash S disk hdisk =>
        show (if S t = true then Point.ended else w.tasks t) = .ended
        rw [ht, ite_self]
    | powerLoss disk marker path hdisk hmarker hpath => rfl
  · cases htampers <;> exact ht

/-- An `open` that has just taken the lock, with the marker there and no ledger. -/
theorem Guarded.doomed (hw : Guarded K w) {b : Binding} (hpoint : w.tasks t = .opening b .locked)
    (hmarker : w.marker ≠ .absent) (hledger : w.ledger = none ∨ w.ledger = some .blank) :
    Doomed w t := by
  refine ⟨hw.point hpoint, hmarker, fun i hi => hw.lost (hw.files.path i hi) ?_, ?_⟩
  · rw [World.ledger, hi, Option.bind_some] at hledger; exact hledger.symm
  · rw [hpoint]; trivial

/-- **A missing or reset ledger is refused**: in no run does that `open` return a handle. -/
theorem Guarded.refused (hw : Guarded K w) (hK : K.Lawful) {b : Binding}
    (hpoint : w.tasks t = .opening b .locked) (hmarker : w.marker ≠ .absent)
    (hledger : w.ledger = none ∨ w.ledger = some .blank)
    (hrun : ReflTransGen (Moves K) w w') : w'.tasks t ≠ .opened b := by
  have hend : Guarded K w' ∧ (Doomed w' t ∨ w'.tasks t = .ended) := by
    refine Runs.keeps_run (I := fun u => Guarded K u ∧ (Doomed u t ∨ u.tasks t = .ended)) ?_ hrun
      ⟨hw, .inl (hw.doomed hpoint hmarker hledger)⟩
    rintro u v hmove ⟨hu, hd | hended⟩
    · refine ⟨hmove.guarded hu hK, ?_⟩
      rcases hmove with hstep | htampers
      · exact hstep.doomed hu hK hd
      · exact .inl (htampers.doomed hu hd)
    · exact ⟨hmove.guarded hu hK, .inr (hmove.ended hended)⟩
  intro hopened
  rcases hend.2 with hd | hended
  · exact hd.hopeless hopened
  · rw [hopened] at hended; cases hended

end Doomed

end Baleyg.Allowance
