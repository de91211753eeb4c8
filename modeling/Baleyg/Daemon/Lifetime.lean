/-
When a checkout is released and when the daemon may exit.

What the deadlines promise is about the past: nobody was a client of this checkout, or of
any, for so long.  So a history is kept beside the registry, of the sessions that were
attached over each span of time and of the browser requests, and the invariant `Kept`
says what every deadline knows of it.  A moment at which somebody was a client lies
before a `Bound` of the history, and a release time or an exit deadline lies a whole
period behind every bound.

Time passing, calm changes, attachments, browser requests, disconnections and the expiry
of browsers each keep the invariant; every operation is made of these.
-/
import Baleyg.Daemon.Operations

namespace Baleyg.Daemon

open Fallible (Yields final yields_bind yields_get yields_pure yields_modify)
open Relation (ReflTransGen)
open Table (Keyed)

/-! ### The invariant -/

/-- What the release times know of the past, of which `bound` is all that counts: nobody
was a client later than a bound of theirs. -/
structure Waiting (start now : Nat) (bound : String → Nat → Prop) (r : Registry) : Prop where
  keyed : Keyed Entry.key r.entries
  started : start ≤ now
  waits : ∀ e ∈ r.entries, e.released = false → e.Idle → e.releaseAt ≠ none
  due : ∀ e ∈ r.entries, ∀ a, e.releaseAt = some a →
    e.Idle ∧ ∀ m, bound e.key m → m + checkoutReleaseDelay ≤ a
  live : ∀ e ∈ r.entries, ∀ till, e.browserUntil = some till →
    start ≤ till ∧ till ≤ now + browserIdleDelay ∧
      (e.sessions = ∅ → ∀ m, bound e.key m → m ≤ till)
  past : ∀ k m, bound k m → m ≤ now ∨
    ∃ e ∈ r.entries, e.key = k ∧ ∃ till, e.browserUntil = some till ∧ m ≤ till

structure Exiting (start : Nat) (bound : String → Nat → Prop) (r : Registry) : Prop where
  exits : ∀ d, r.idleExitAt = some d → ¬ r.Attended ∧ start + daemonIdleDelay ≤ d ∧
    ∀ k m, bound k m → m + daemonIdleDelay ≤ d
  stays : r.idleExitAt = none → r.Attended
  /-- When only browsers are left, the last of them outlives every other client. -/
  lasts : r.idleExitAt = none → (∀ e ∈ r.entries, e.sessions = ∅) → ∀ k m, bound k m →
    ∃ e ∈ r.entries, ∃ till, e.browserUntil = some till ∧ m ≤ till

/-- **The invariant of the deadlines.** -/
structure Kept (start now : Nat) (bound : String → Nat → Prop) (r : Registry) : Prop
  extends Waiting start now bound r, Exiting start bound r

namespace Kept

variable {start now now' : Nat} {bound bound' : String → Nat → Prop} {r r' : Registry}

theorem past_of (h : Kept start now bound r) {e : Entry} (he : e ∈ r.entries) {m : Nat}
    (hm : bound e.key m) : m ≤ now ∨ ∃ till, e.browserUntil = some till ∧ m ≤ till := by
  rcases h.past e.key m hm with hle | ⟨e', he', hkey, htill⟩
  · exact .inl hle
  · obtain rfl := h.keyed.eq_of_key he' he hkey
    exact .inr htill

/-- **Time passes**, and who is attached has been so until now. -/
theorem pass (h : Kept start now bound r) (hnow : now ≤ now')
    (hbound : ∀ k m, bound' k m → bound k m ∨
      (m = now' ∧ ∃ e ∈ r.entries, e.key = k ∧ e.sessions ≠ ∅)) :
    Kept start now' bound' r := by
  have hidle : ∀ e ∈ r.entries, e.sessions = ∅ → ∀ m, bound' e.key m → bound e.key m := by
    intro e he hempty m hm
    rcases hbound _ _ hm with hold | ⟨-, e', he', hkey, hsessions⟩
    · exact hold
    · obtain rfl := h.keyed.eq_of_key he' he hkey
      exact absurd hempty hsessions
  refine ⟨⟨h.keyed, h.started.trans hnow, h.waits, fun e he a ha => ?_, fun e he till htill => ?_,
    fun k m hm => ?_⟩, fun d hd => ?_, h.stays, fun hnone hsessions k m hm => ?_⟩
  · obtain ⟨hfree, hdue⟩ := h.due e he a ha
    exact ⟨hfree, fun m hm => hdue m (hidle e he hfree.1 m hm)⟩
  · obtain ⟨hstart, hle, hlive⟩ := h.live e he till htill
    refine ⟨hstart, hle.trans (Nat.add_le_add_right hnow _), fun hempty m hm => ?_⟩
    exact hlive hempty m (hidle e he hempty m hm)
  · rcases hbound k m hm with hold | ⟨rfl, -⟩
    · rcases h.past k m hold with hle | hheld
      · exact .inl (hle.trans hnow)
      · exact .inr hheld
    · exact .inl (Nat.le_refl _)
  · obtain ⟨hfree, hstart, hexit⟩ := h.exits d hd
    refine ⟨hfree, hstart, fun k m hm => ?_⟩
    rcases hbound k m hm with hold | ⟨-, e, he, -, hsessions⟩
    · exact hexit k m hold
    · exact absurd ⟨e, he, fun hidle => hsessions hidle.1⟩ hfree
  · rcases hbound k m hm with hold | ⟨-, e, he, -, hne⟩
    · exact h.lasts hnone hsessions k m hold
    · exact absurd (hsessions e he) hne

/-- **Calm changes.** -/
theorem calm (h : Kept start now bound r) (hcalm : Calm r r') : Kept start now bound r' := by
  have hheld : ∀ {e till}, e ∈ r.entries → e.browserUntil = some till →
      ∃ e' ∈ r'.entries, e'.key = e.key ∧ e'.browserUntil = some till := by
    intro e till he htill
    obtain ⟨e', he', hfollows⟩ := hcalm.clients e he fun hidle => by
      rw [hidle.2] at htill
      cases htill
    exact ⟨e', he', hfollows.key, hfollows.browser.trans htill⟩
  have hattended : r'.Attended ↔ r.Attended := by
    constructor
    · rintro ⟨e', he', hclient⟩
      rcases hcalm.origin e' he' with ⟨e, he, hfollows⟩ | hinert
      · exact ⟨e, he, fun hidle => hclient (hfollows.idle_iff.mpr hidle)⟩
      · exact absurd hinert.idle hclient
    · rintro ⟨e, he, hclient⟩
      obtain ⟨e', he', hfollows⟩ := hcalm.clients e he hclient
      exact ⟨e', he', fun hidle => hclient (hfollows.idle_iff.mp hidle)⟩
  refine ⟨⟨hcalm.keyed, h.started, fun e' he' hreleased hidle => ?_, fun e' he' a ha => ?_,
    fun e' he' till htill => ?_, fun k m hm => ?_⟩, fun d hd => ?_, fun hnone => ?_,
    fun hnone hsessions k m hm => ?_⟩
  · rcases hcalm.origin e' he' with ⟨e, he, hfollows⟩ | hinert
    · rcases hfollows.rest with ⟨hsame, hat⟩ | ⟨-, hfreed, -⟩
      · rw [hat]
        exact h.waits e he (hsame.symm.trans hreleased) (hfollows.idle_iff.mp hidle)
      · rw [hfreed] at hreleased; cases hreleased
    · rw [hinert.released] at hreleased; cases hreleased
  · rcases hcalm.origin e' he' with ⟨e, he, hfollows⟩ | hinert
    · have hat : e.releaseAt = some a := by
        rcases hfollows.rest with ⟨-, hsame⟩ | ⟨-, -, hsame | hnone⟩
        · rwa [hsame] at ha
        · rwa [hsame] at ha
        · rw [hnone] at ha; cases ha
      obtain ⟨hidle, hdue⟩ := h.due e he a hat
      rw [hfollows.key]
      exact ⟨hfollows.idle_iff.mpr hidle, hdue⟩
    · rw [hinert.releaseAt] at ha; cases ha
  · rcases hcalm.origin e' he' with ⟨e, he, hfollows⟩ | hinert
    · rw [hfollows.browser] at htill
      rw [hfollows.sessions, hfollows.key]
      exact h.live e he till htill
    · rw [hinert.idle.2] at htill; cases htill
  · rcases h.past k m hm with hle | ⟨e, he, hkey, till, htill, hle⟩
    · exact .inl hle
    · obtain ⟨e', he', hkey', htill'⟩ := hheld he htill
      exact .inr ⟨e', he', hkey'.trans hkey, till, htill', hle⟩
  · rw [hcalm.exit] at hd
    rw [hattended]
    exact h.exits d hd
  · rw [hcalm.exit] at hnone; exact hattended.mpr (h.stays hnone)
  · rw [hcalm.exit] at hnone
    have hempty : ∀ e ∈ r.entries, e.sessions = ∅ := by
      intro e he
      by_contra hne
      obtain ⟨e', he', hfollows⟩ := hcalm.clients e he fun hidle => hne hidle.1
      exact hne (hfollows.sessions.symm.trans (hsessions e' he'))
    obtain ⟨e, he, till, htill, hle⟩ := h.lasts hnone hempty k m hm
    obtain ⟨e', he', -, htill'⟩ := hheld he htill
    exact ⟨e', he', till, htill', hle⟩

/-- **A client comes**: an entry takes the place of the one with its key, and has either a
session or a browser that was seen just now. -/
theorem enter (h : Kept start now bound r) {e' : Entry} (hkeyed : Keyed Entry.key r'.entries)
    (hmem : ∀ a, a ∈ r'.entries ↔ (a ∈ r.entries ∧ a.key ≠ e'.key) ∨ a = e')
    (hexit : r'.idleExitAt = none) (hat : e'.releaseAt = none)
    (hclient : (e'.sessions ≠ ∅ ∧ (∀ a ∈ r.entries, a.key = e'.key → e'.browserUntil = a.browserUntil) ∧
        ∀ till, e'.browserUntil = some till → start ≤ till ∧ till ≤ now + browserIdleDelay) ∨
      e'.browserUntil = some (now + browserIdleDelay))
    (hbound : ∀ k m, bound' k m → bound k m ∨
      (k = e'.key ∧ m = now + browserIdleDelay ∧ e'.browserUntil = some (now + browserIdleDelay))) :
    Kept start now bound' r' := by
  have hin : e' ∈ r'.entries := (hmem e').mpr (.inr rfl)
  have hbusy : ¬ e'.Idle := by
    rintro ⟨hsessions, hbrowser⟩
    rcases hclient with ⟨hne, -⟩ | htill
    · exact hne hsessions
    · rw [hbrowser] at htill; cases htill
  have hother : ∀ {a : Entry}, a.key ≠ e'.key → ∀ m, bound' a.key m → bound a.key m := by
    intro a hne m hm
    rcases hbound _ _ hm with hold | ⟨hkey, -⟩
    · exact hold
    · exact absurd hkey hne
  -- a browser that held a bound still does, if need be through the new entry
  have hheld : ∀ {a till m}, a ∈ r.entries → a.browserUntil = some till → m ≤ till →
      ∃ e ∈ r'.entries, e.key = a.key ∧ ∃ till, e.browserUntil = some till ∧ m ≤ till := by
    intro a till m ha htill hle
    by_cases hkey : a.key = e'.key
    · rcases hclient with ⟨-, hsame, -⟩ | hnew
      · exact ⟨e', hin, hkey.symm, till, (hsame a ha hkey).trans htill, hle⟩
      · exact ⟨e', hin, hkey.symm, _, hnew, hle.trans (h.live a ha till htill).2.1⟩
    · exact ⟨a, (hmem a).mpr (.inl ⟨ha, hkey⟩), rfl, till, htill, hle⟩
  refine ⟨⟨hkeyed, h.started, fun a ha => ?_, fun a ha => ?_, fun a ha => ?_, fun k m hm => ?_⟩,
    fun d hd => ?_, fun _ => ⟨e', hin, hbusy⟩, fun _ hsessions k m hm => ?_⟩
  · rcases (hmem a).mp ha with ⟨hold, -⟩ | rfl
    · exact h.waits a hold
    · exact fun _ hidle => absurd hidle hbusy
  · rcases (hmem a).mp ha with ⟨hold, hne⟩ | rfl
    · intro at' hat'
      obtain ⟨hidle, hdue⟩ := h.due a hold at' hat'
      exact ⟨hidle, fun m hm => hdue m (hother hne m hm)⟩
    · intro at' hat'
      rw [hat] at hat'
      cases hat'
  · intro till htill
    rcases (hmem a).mp ha with ⟨hold, hne⟩ | rfl
    · obtain ⟨hstart, hle, hlive⟩ := h.live a hold till htill
      exact ⟨hstart, hle, fun hempty m hm => hlive hempty m (hother hne m hm)⟩
    · rcases hclient with ⟨hne, -, hlive⟩ | hnew
      · obtain ⟨hstart, hle⟩ := hlive till htill
        exact ⟨hstart, hle, fun hempty => absurd hempty hne⟩
      · rw [hnew] at htill
        cases htill
        refine ⟨h.started.trans (Nat.le_add_right _ _), Nat.le_refl _, fun _ m hm => ?_⟩
        rcases hbound _ _ hm with hold | ⟨-, rfl, -⟩
        · rcases h.past _ m hold with hle | ⟨e, he, -, till, htill, hle⟩
          · exact hle.trans (Nat.le_add_right _ _)
          · exact hle.trans (h.live e he till htill).2.1
        · exact Nat.le_refl _
  · rcases hbound k m hm with hold | ⟨rfl, rfl, hnew⟩
    · rcases h.past k m hold with hle | ⟨e, he, rfl, till, htill, hle⟩
      · exact .inl hle
      · exact .inr (hheld he htill hle)
    · exact .inr ⟨e', hin, rfl, _, hnew, Nat.le_refl _⟩
  · rw [hexit] at hd; cases hd
  · rcases hclient with ⟨hne, -⟩ | hnew
    · exact absurd (hsessions e' hin) hne
    · rcases hbound k m hm with hold | ⟨-, rfl, -⟩
      · rcases h.past k m hold with hle | ⟨e, he, -, till, htill, hle⟩
        · exact ⟨e', hin, _, hnew, hle.trans (Nat.le_add_right _ _)⟩
        · obtain ⟨a, ha, -, htill⟩ := hheld he htill hle
          exact ⟨a, ha, htill⟩
      · exact ⟨e', hin, _, hnew, Nat.le_refl _⟩

end Kept

/-! ### Clients -/

section Clients

variable {start now : Nat} {bound bound' : String → Nat → Prop} {r r' : Registry}
  {session : Option Nat} {identity : Identity}

theorem Admitted.entries (h : Admitted session identity r r') (hkeyed : Keyed Entry.key r.entries) :
    Keyed Entry.key r'.entries ∧ r'.idleExitAt = none ∧ ∃ e' : Entry,
      e'.key = identity.rootKey ∧ e'.releaseAt = none ∧
      (∀ a, a ∈ r'.entries ↔ (a ∈ r.entries ∧ a.key ≠ e'.key) ∨ a = e') ∧
      (session ≠ none → e'.sessions ≠ ∅) ∧
      (∀ a ∈ r.entries, a.key = e'.key → e'.browserUntil = a.browserUntil) ∧
      (e'.browserUntil = none ∨ ∃ a ∈ r.entries, e'.browserUntil = a.browserUntil) := by
  cases h with
  | @again e he hroom =>
      obtain ⟨hmem, hkey⟩ := Register.mem_of_get he
      refine ⟨Register.keyed_alter hkeyed fun _ => rfl, rfl, e.attached session, hkey, rfl,
        fun a => ?_, fun hsome => ?_, fun a ha hk => ?_, .inr ⟨e, hmem, rfl⟩⟩
      · rw [show (e.attached session).key = identity.rootKey from hkey]
        constructor
        · intro ha
          rcases Register.mem_alter.mp ha with hold | ⟨b, hb, hk, rfl⟩
          · exact .inl hold
          · obtain rfl := eq_of_entry hkeyed he hb hk
            exact .inr rfl
        · rintro (hold | rfl)
          · exact Register.mem_alter.mpr (.inl hold)
          · exact Register.mem_alter.mpr (.inr ⟨e, hmem, hkey, rfl⟩)
      · cases session with
        | none => exact absurd rfl hsome
        | some s => exact Finset.ne_empty_of_mem (Finset.mem_insert_self s e.sessions)
      · obtain rfl := eq_of_entry hkeyed he ha (hk.trans hkey)
        rfl
  | first hnew =>
      refine ⟨Register.keyed_put hkeyed, rfl, .first session identity, rfl, rfl,
        fun a => Register.mem_put, fun hsome => ?_, fun a ha hk => ?_, .inl rfl⟩
      · cases session with
        | none => exact absurd rfl hsome
        | some s => exact Finset.singleton_ne_empty s
      · exact absurd hk (Register.get_eq_none.mp hnew a ha)

theorem Kept.admitted {s : Nat} (h : Kept start now bound r)
    (hadmitted : Admitted (some s) identity r r') : Kept start now bound r' := by
  obtain ⟨hkeyed, hexit, e', hkey, hat, hmem, hsessions, hsame, hbrowser⟩ :=
    hadmitted.entries h.keyed
  have hne := hsessions (Option.some_ne_none s)
  refine h.enter hkeyed hmem hexit hat (.inl ⟨hne, hsame, fun till htill => ?_⟩)
    fun k m hm => .inl hm
  rcases hbrowser with hnone | ⟨a, ha, heq⟩
  · rw [hnone] at htill; cases htill
  · rw [heq] at htill
    obtain ⟨hstart, hle, -⟩ := h.live a ha till htill
    exact ⟨hstart, hle⟩

theorem Kept.browsed (h : Kept start now bound r) (hadmitted : Admitted none identity r r')
    (hbound : ∀ k m, bound' k m → bound k m ∨ (k = identity.rootKey ∧ m = now + browserIdleDelay)) :
    Kept start now bound' (r'.browsed identity.rootKey now) := by
  obtain ⟨hkeyed, hexit, e', hkey, hat, hmem, -, hsame, -⟩ := hadmitted.entries h.keyed
  have hin : e' ∈ r'.entries := (hmem e').mpr (.inr rfl)
  refine @Kept.enter _ _ _ _ _ _ h
    { e' with browserUntil := some (now + browserIdleDelay), releaseAt := none }
    (Register.keyed_alter hkeyed fun _ => rfl) (fun a => ?_) rfl rfl (.inr rfl) fun k m hm => ?_
  · constructor
    · intro ha
      rcases Register.mem_alter.mp ha with ⟨ha, hne⟩ | ⟨b, hb, hk, rfl⟩
      · rcases (hmem a).mp ha with hold | rfl
        · exact .inl hold
        · exact absurd hkey hne
      · obtain rfl := hkeyed.eq_of_key hb hin (hk.trans hkey.symm)
        exact .inr rfl
    · rintro (⟨hold, hne⟩ | rfl)
      · exact Register.mem_alter.mpr (.inl ⟨(hmem a).mpr (.inl ⟨hold, hne⟩), by rwa [← hkey]⟩)
      · exact Register.mem_alter.mpr (.inr ⟨e', hin, hkey, rfl⟩)
  · rcases hbound k m hm with hold | ⟨hk, hm⟩
    · exact .inl hold
    · exact .inr ⟨hk.trans hkey.symm, hm, rfl⟩

end Clients

/-! ### Clocks -/

section Clocks

variable {start now : Nat} {bound : String → Nat → Prop} {r r' : Registry}

theorem expire_cases (now : Nat) (e : Entry) :
    (e.expire now = e ∧ ∀ till, e.browserUntil = some till → now < till) ∨
      ∃ till, e.browserUntil = some till ∧ till ≤ now ∧ e.expired now = some till ∧
        e.expire now = { e with
          browserUntil := none
          releaseAt := if e.sessions = ∅ then some (till + checkoutReleaseDelay) else e.releaseAt } := by
  unfold Entry.expire Entry.expired
  cases hbrowser : e.browserUntil with
  | none =>
      refine .inl ⟨rfl, fun till htill => ?_⟩
      cases htill
  | some till =>
      by_cases hle : till ≤ now
      · refine .inr ⟨till, rfl, hle, ?_, ?_⟩
        · simp only [if_pos hle]
        · simp only [if_pos hle]
      · refine .inl ⟨?_, fun till' htill => ?_⟩
        · simp only [if_neg hle]
        · cases htill; exact Nat.lt_of_not_le hle

@[simp] theorem expire_key (now : Nat) (e : Entry) : (e.expire now).key = e.key := by
  rcases expire_cases now e with ⟨hsame, -⟩ | ⟨till, -, -, -, heq⟩
  · rw [hsame]
  · rw [heq]; rfl

@[simp] theorem expire_sessions (now : Nat) (e : Entry) : (e.expire now).sessions = e.sessions := by
  rcases expire_cases now e with ⟨hsame, -⟩ | ⟨till, -, -, -, heq⟩
  · rw [hsame]
  · rw [heq]

theorem laterExpired_spec (now : Nat) (last : Option Nat) (e : Entry) :
    (∀ l, last = some l → ∃ l', laterExpired now last e = some l' ∧ l ≤ l') ∧
    (e.sessions = ∅ → ∀ till, e.expired now = some till →
      ∃ l', laterExpired now last e = some l' ∧ till ≤ l') ∧
    ∀ l', laterExpired now last e = some l' →
      last = some l' ∨ (e.sessions = ∅ ∧ e.expired now = some l') := by
  unfold laterExpired
  cases e.expired now with
  | none =>
      refine ⟨fun l hl => ⟨l, hl, Nat.le_refl _⟩, fun _ till htill => ?_, fun l' hl' => .inl hl'⟩
      cases htill
  | some till =>
      by_cases hempty : e.sessions = ∅
      · simp only [if_pos hempty]
        cases last with
        | none =>
            refine ⟨fun l hl => ?_, fun _ till' htill => ?_, fun l' hl' => .inr ⟨hempty, hl'⟩⟩
            · cases hl
            · exact ⟨till', htill, Nat.le_refl _⟩
        | some previous =>
            refine ⟨fun l hl => ?_, fun _ till' htill => ?_, fun l' hl' => ?_⟩
            · cases hl; exact ⟨_, rfl, Nat.le_max_left _ _⟩
            · cases htill; exact ⟨_, rfl, Nat.le_max_right _ _⟩
            · cases hl'
              rcases Nat.le_total previous till with hle | hle
              · exact .inr ⟨hempty, by rw [Option.elim_some, Nat.max_eq_right hle]⟩
              · exact .inl (by rw [Option.elim_some, Nat.max_eq_left hle])
      · simp only [if_neg hempty]
        exact ⟨fun l hl => ⟨l, hl, Nat.le_refl _⟩, fun h => absurd h hempty, fun l' hl' => .inl hl'⟩

/-- **The last expiry** that left a checkout without a client is one of them, and none is
later. -/
theorem lastExpired_spec (now : Nat) (entries : List Entry) :
    (∀ e ∈ entries, e.sessions = ∅ → ∀ till, e.expired now = some till →
      ∃ last, lastExpired now entries = some last ∧ till ≤ last) ∧
    ∀ last, lastExpired now entries = some last →
      ∃ e ∈ entries, e.sessions = ∅ ∧ e.expired now = some last := by
  suffices hsuff : ∀ entries : List Entry, ∀ last : Option Nat,
      (∀ l, last = some l → ∃ l', entries.foldl (laterExpired now) last = some l' ∧ l ≤ l') ∧
      (∀ e ∈ entries, e.sessions = ∅ → ∀ till, e.expired now = some till →
        ∃ l', entries.foldl (laterExpired now) last = some l' ∧ till ≤ l') ∧
      ∀ l', entries.foldl (laterExpired now) last = some l' →
        last = some l' ∨ ∃ e ∈ entries, e.sessions = ∅ ∧ e.expired now = some l' by
    obtain ⟨-, hlater, hone⟩ := hsuff entries none
    refine ⟨hlater, fun last hlast => ?_⟩
    rcases hone last hlast with hnone | hexpired
    · cases hnone
    · exact hexpired
  intro entries
  induction entries with
  | nil =>
      intro last
      refine ⟨fun l hl => ⟨l, hl, Nat.le_refl _⟩, fun e he => absurd he List.not_mem_nil, ?_⟩
      exact fun l' hl' => .inl hl'
  | cons e entries ih =>
      intro last
      rw [List.foldl_cons]
      obtain ⟨hgrows, hlater, hone⟩ := ih (laterExpired now last e)
      obtain ⟨hgrows', hlater', hone'⟩ := laterExpired_spec now last e
      refine ⟨fun l hl => ?_, fun a ha hempty till htill => ?_, fun l' hl' => ?_⟩
      · obtain ⟨l', hl', hle⟩ := hgrows' l hl
        obtain ⟨l'', hl'', hle'⟩ := hgrows l' hl'
        exact ⟨l'', hl'', hle.trans hle'⟩
      · rcases List.mem_cons.mp ha with rfl | ha
        · obtain ⟨l', hl', hle⟩ := hlater' hempty till htill
          obtain ⟨l'', hl'', hle'⟩ := hgrows l' hl'
          exact ⟨l'', hl'', hle.trans hle'⟩
        · exact hlater a ha hempty till htill
      · rcases hone l' hl' with hacc | ⟨a, ha, hexpired⟩
        · rcases hone' l' hacc with hold | hexpired
          · exact .inl hold
          · exact .inr ⟨e, List.mem_cons_self, hexpired⟩
        · exact .inr ⟨a, List.mem_cons_of_mem e ha, hexpired⟩

/-- Every browser that still counts was seen recently enough. -/
def Fresh (now : Nat) (r : Registry) : Prop :=
  ∀ e ∈ r.entries, ∀ till, e.browserUntil = some till → now < till

theorem expire_browser {e : Entry} {till : Nat} (h : (e.expire now).browserUntil = some till) :
    e.expire now = e ∧ now < till := by
  rcases expire_cases now e with ⟨hsame, hlive⟩ | ⟨_, -, -, -, heq⟩
  · rw [hsame] at h; exact ⟨hsame, hlive till h⟩
  · rw [heq] at h; cases h

theorem updateExitDeadline_cases (last : Nat) (r : Registry) :
    (r.updateExitDeadline last).entries = r.entries ∧
      ((r.Attended ∧ (r.updateExitDeadline last).idleExitAt = none) ∨
        (¬ r.Attended ∧ r.idleExitAt = none ∧
          (r.updateExitDeadline last).idleExitAt = some (last + daemonIdleDelay)) ∨
        (¬ r.Attended ∧ r.idleExitAt ≠ none ∧
          (r.updateExitDeadline last).idleExitAt = r.idleExitAt)) := by
  unfold Registry.updateExitDeadline
  by_cases hattended : r.Attended
  · rw [if_pos hattended]; exact ⟨rfl, .inl ⟨hattended, rfl⟩⟩
  · rw [if_neg hattended]
    by_cases hnone : r.idleExitAt = none
    · rw [if_pos hnone]; exact ⟨rfl, .inr (.inl ⟨hattended, hnone, rfl⟩)⟩
    · rw [if_neg hnone]; exact ⟨rfl, .inr (.inr ⟨hattended, hnone, rfl⟩)⟩

theorem Waiting.expire (h : Waiting start now bound r)
    (hentries : r'.entries = r.entries.map (Entry.expire now)) : Waiting start now bound r' := by
  have hmem : ∀ {e'}, e' ∈ r'.entries → ∃ e ∈ r.entries, e.expire now = e' := by
    intro e' he'
    rw [hentries] at he'
    exact List.mem_map.mp he'
  refine ⟨?_, h.started, fun e' he' hreleased hidle => ?_, fun e' he' a ha => ?_,
    fun e' he' till htill => ?_, fun k m hm => ?_⟩
  · unfold Keyed
    rw [hentries, List.map_map]
    rw [show (Entry.key ∘ Entry.expire now) = Entry.key from funext (expire_key now)]
    exact h.keyed
  · obtain ⟨e, he, rfl⟩ := hmem he'
    rcases expire_cases now e with ⟨heq, -⟩ | ⟨till, -, -, -, heq⟩
    · rw [heq] at hreleased hidle ⊢
      exact h.waits e he hreleased hidle
    · have hempty : e.sessions = ∅ := (expire_sessions now e).symm.trans hidle.1
      rw [heq]
      simp only [if_pos hempty]
      exact Option.some_ne_none _
  · obtain ⟨e, he, rfl⟩ := hmem he'
    rw [expire_key]
    rcases expire_cases now e with ⟨heq, -⟩ | ⟨till, htill, -, -, heq⟩
    · rw [heq] at ha ⊢
      exact h.due e he a ha
    · by_cases hempty : e.sessions = ∅
      · rw [heq] at ha ⊢
        simp only [if_pos hempty] at ha
        cases ha
        refine ⟨⟨hempty, rfl⟩, fun m hm => Nat.add_le_add_right ?_ _⟩
        exact (h.live e he till htill).2.2 hempty m hm
      · rw [heq] at ha
        simp only [if_neg hempty] at ha
        exact absurd (h.due e he a ha).1.1 hempty
  · obtain ⟨e, he, rfl⟩ := hmem he'
    obtain ⟨heq, -⟩ := expire_browser htill
    rw [heq] at htill ⊢
    exact h.live e he till htill
  · rcases h.past k m hm with hle | ⟨e, he, hkey, till, htill, hle⟩
    · exact .inl hle
    · rcases expire_cases now e with ⟨heq, -⟩ | ⟨till', htill', hover, -, -⟩
      · refine .inr ⟨e.expire now, ?_, by rwa [expire_key], till, by rwa [heq], hle⟩
        rw [hentries]
        exact List.mem_map_of_mem he
      · rw [htill] at htill'
        cases htill'
        exact .inl (hle.trans hover)

theorem fresh_expire (hentries : r'.entries = r.entries.map (Entry.expire now)) : Fresh now r' := by
  intro e' he' till htill
  rw [hentries] at he'
  obtain ⟨e, -, rfl⟩ := List.mem_map.mp he'
  exact (expire_browser htill).2

theorem attended_of_expire (h : (r.expireBrowsers now).Attended) : r.Attended := by
  obtain ⟨_, he', hbusy⟩ := h
  obtain ⟨e, he, rfl⟩ := List.mem_map.mp he'
  refine ⟨e, he, fun hidle => hbusy ⟨(expire_sessions now e).trans hidle.1, ?_⟩⟩
  rcases expire_cases now e with ⟨heq, -⟩ | ⟨_, -, -, -, heq⟩
  · rw [heq]; exact hidle.2
  · rw [heq]

theorem sessions_of_unattended (h : ¬ (r.expireBrowsers now).Attended) :
    ∀ e ∈ r.entries, e.sessions = ∅ := by
  intro e he
  by_contra hne
  refine h ⟨e.expire now, List.mem_map_of_mem he, fun hidle => hne ?_⟩
  exact (expire_sessions now e).symm.trans hidle.1

/-- Browsers expire, and the exit deadline counts from the last expiry if it counts from
any. -/
theorem Exiting.expire (h : Exiting start bound r)
    (hstart : ∀ e ∈ r.entries, ∀ till, e.browserUntil = some till → start ≤ till) {last : Nat}
    (hlast : ¬ (r.expireBrowsers now).Attended →
      ∀ e ∈ r.entries, ∀ till, e.browserUntil = some till → till ≤ last) :
    Exiting start bound ((r.expireBrowsers now).updateExitDeadline last) := by
  obtain ⟨hentries, hexit⟩ := updateExitDeadline_cases last (r.expireBrowsers now)
  generalize (r.expireBrowsers now).updateExitDeadline last = r' at hentries hexit
  have hattended : r'.Attended ↔ (r.expireBrowsers now).Attended := by
    unfold Registry.Attended
    rw [hentries]
  have hfresh : Fresh now r' := fresh_expire hentries
  refine ⟨fun d hd => ?_, fun hnone => ?_, fun hnone hsessions k m hm => ?_⟩
  · rcases hexit with ⟨-, hnone⟩ | ⟨hgone, hnone, hsome⟩ | ⟨hgone, -, hkept⟩
    · rw [hnone] at hd; cases hd
    · rw [hsome] at hd
      cases hd
      have hempty := sessions_of_unattended hgone
      refine ⟨fun hstays => hgone (hattended.mp hstays), ?_, fun k m hm => ?_⟩
      · obtain ⟨e, he, hbusy⟩ := h.stays hnone
        cases htill : e.browserUntil with
        | none => exact absurd ⟨hempty e he, htill⟩ hbusy
        | some till =>
            exact Nat.add_le_add_right ((hstart e he till htill).trans (hlast hgone e he till htill)) _
      · obtain ⟨e, he, till, htill, hle⟩ := h.lasts hnone hempty k m hm
        exact Nat.add_le_add_right (hle.trans (hlast hgone e he till htill)) _
    · rw [hkept] at hd
      obtain ⟨-, hdue⟩ := h.exits d hd
      exact ⟨fun hstays => hgone (hattended.mp hstays), hdue⟩
  · rcases hexit with ⟨hstays, -⟩ | ⟨-, -, hsome⟩ | ⟨-, hset, hkept⟩
    · exact hattended.mpr hstays
    · rw [hsome] at hnone; cases hnone
    · rw [hkept] at hnone; exact absurd hnone hset
  · have hstays : (r.expireBrowsers now).Attended := by
      rcases hexit with ⟨hstays, -⟩ | ⟨-, -, hsome⟩ | ⟨-, hset, hkept⟩
      · exact hstays
      · rw [hsome] at hnone; cases hnone
      · rw [hkept] at hnone; exact absurd hnone hset
    have hbefore : r.idleExitAt = none := by
      cases hd : r.idleExitAt with
      | none => rfl
      | some d => exact absurd (attended_of_expire hstays) (h.exits d hd).1
    have hin : ∀ {e}, e ∈ r.entries → e.expire now ∈ r'.entries := by
      intro e he
      rw [hentries]
      exact List.mem_map_of_mem he
    obtain ⟨a', ha', hbusy⟩ := hattended.mpr hstays
    obtain ⟨e, he, till, htill, hle⟩ := h.lasts hbefore
      (fun e he => (expire_sessions now e).symm.trans (hsessions _ (hin he))) k m hm
    rcases expire_cases now e with ⟨heq, -⟩ | ⟨till', htill', hover, -, -⟩
    · exact ⟨e.expire now, hin he, till, by rwa [heq], hle⟩
    · -- this browser is gone, but one that is still live outlives it
      rw [htill] at htill'
      cases htill'
      cases hlive : a'.browserUntil with
      | none => exact absurd ⟨hsessions a' ha', hlive⟩ hbusy
      | some live =>
          exact ⟨a', ha', live, hlive, (hle.trans hover).trans (hfresh a' ha' live hlive).le⟩

/-- **Browsers expire.** -/
theorem Kept.ticked (h : Kept start now bound r) :
    Kept start now bound (r.ticked now) ∧ Fresh now (r.ticked now) := by
  obtain ⟨hlater, -⟩ := lastExpired_spec now r.entries
  have hentries : (r.ticked now).entries = r.entries.map (Entry.expire now) :=
    (updateExitDeadline_cases _ (r.expireBrowsers now)).1
  refine ⟨⟨h.toWaiting.expire hentries, h.toExiting.expire (fun e he till htill => ?_)
    fun hgone e he till htill => ?_⟩, fresh_expire hentries⟩
  · exact (h.live e he till htill).1
  · rcases expire_cases now e with ⟨heq, -⟩ | ⟨till', htill', hover, hexpired, -⟩
    · refine absurd ⟨e.expire now, List.mem_map_of_mem he, fun hidle => ?_⟩ hgone
      have hbrowser := hidle.2
      rw [heq, htill] at hbrowser
      cases hbrowser
    · rw [htill] at htill'
      cases htill'
      obtain ⟨last, hlast, hle⟩ := hlater e he (sessions_of_unattended hgone e he) till hexpired
      rw [hlast]
      exact hle

theorem expireBrowsers_eq_ticked (h : Exiting start bound r) (hnone : lastExpired now r.entries = none) :
    r.expireBrowsers now = r.ticked now := by
  obtain ⟨hlater, -⟩ := lastExpired_spec now r.entries
  unfold Registry.ticked Registry.updateExitDeadline
  split
  · rename_i hattended
    have hexit : r.idleExitAt = none := by
      cases hd : r.idleExitAt with
      | none => rfl
      | some d => exact absurd (attended_of_expire hattended) (h.exits d hd).1
    show (⟨_, _, r.idleExitAt, _, _⟩ : Registry) = ⟨_, _, none, _, _⟩
    rw [hexit]
    rfl
  · rename_i hgone
    split
    · rename_i hexit
      obtain ⟨e, he, hbusy⟩ := h.stays hexit
      have hempty := sessions_of_unattended hgone e he
      rcases expire_cases now e with ⟨heq, -⟩ | ⟨till, htill, -, hexpired, -⟩
      · refine absurd ⟨e.expire now, List.mem_map_of_mem he, ?_⟩ hgone
        rwa [heq]
      · obtain ⟨last, hlast, -⟩ := hlater e he hempty till hexpired
        rw [hnone] at hlast
        cases hlast
    · rfl

theorem leave_cases (session now : Nat) (e : Entry) :
    (session ∉ e.sessions ∧ e.leave session now = e) ∨
      (session ∈ e.sessions ∧ e.leave session now = { e with
        sessions := e.sessions.erase session
        releaseAt := if e.sessions.erase session = ∅ ∧ e.browserUntil = none then
            some (now + checkoutReleaseDelay)
          else e.releaseAt }) := by
  unfold Entry.leave
  by_cases hin : session ∈ e.sessions
  · exact .inr ⟨hin, if_pos hin⟩
  · exact .inl ⟨hin, if_neg hin⟩

theorem leave_same (session now : Nat) (e : Entry) :
    (e.leave session now).key = e.key ∧ (e.leave session now).browserUntil = e.browserUntil ∧
      (e.leave session now).released = e.released := by
  rcases leave_cases session now e with ⟨-, heq⟩ | ⟨-, heq⟩
  · rw [heq]; exact ⟨rfl, rfl, rfl⟩
  · rw [heq]; exact ⟨rfl, rfl, rfl⟩

/-- **A session leaves** when the browsers that were no longer live have expired. -/
theorem Kept.leave (h : Kept start now bound r) (hfresh : Fresh now r) {session : Nat}
    (hentries : r'.entries = r.entries.map (Entry.leave session now))
    (hexit : (r'.Attended ∧ r'.idleExitAt = none) ∨
      (¬ r'.Attended ∧ r'.idleExitAt = some (now + daemonIdleDelay))) :
    Kept start now bound r' := by
  have hmem : ∀ {e'}, e' ∈ r'.entries → ∃ e ∈ r.entries, e.leave session now = e' := by
    intro e' he'
    rw [hentries] at he'
    exact List.mem_map.mp he'
  have hin : ∀ {e}, e ∈ r.entries → e.leave session now ∈ r'.entries := by
    intro e he
    rw [hentries]
    exact List.mem_map_of_mem he
  -- with every browser fresh, a bound is over unless a browser holds it
  have hover : ∀ {k m}, bound k m → m ≤ now ∨
      ∃ e' ∈ r'.entries, e'.key = k ∧ ∃ till, e'.browserUntil = some till ∧ m ≤ till := by
    intro k m hm
    rcases h.past k m hm with hle | ⟨e, he, hkey, till, htill, hle⟩
    · exact .inl hle
    · obtain ⟨hkey', hbrowser, -⟩ := leave_same session now e
      exact .inr ⟨_, hin he, hkey'.trans hkey, till, hbrowser.trans htill, hle⟩
  refine ⟨⟨?_, h.started, fun e' he' hreleased hidle => ?_, fun e' he' a ha => ?_,
    fun e' he' till htill => ?_, fun k m hm => hover hm⟩, fun d hd => ?_, fun hnone => ?_,
    fun hnone hsessions k m hm => ?_⟩
  · unfold Keyed
    rw [hentries, List.map_map]
    rw [show (Entry.key ∘ Entry.leave session now) = Entry.key from
      funext fun e => (leave_same session now e).1]
    exact h.keyed
  · obtain ⟨e, he, rfl⟩ := hmem he'
    rcases leave_cases session now e with ⟨-, heq⟩ | ⟨-, heq⟩
    · rw [heq] at hreleased hidle ⊢
      exact h.waits e he hreleased hidle
    · rw [heq] at hidle ⊢
      simp only [if_pos (show e.sessions.erase session = ∅ ∧ e.browserUntil = none from hidle)]
      exact Option.some_ne_none _
  · obtain ⟨e, he, rfl⟩ := hmem he'
    rw [(leave_same session now e).1]
    rcases leave_cases session now e with ⟨-, heq⟩ | ⟨hsession, heq⟩
    · rw [heq] at ha ⊢
      exact h.due e he a ha
    · rw [heq] at ha ⊢
      by_cases hlast : e.sessions.erase session = ∅ ∧ e.browserUntil = none
      · simp only [if_pos hlast] at ha
        cases ha
        refine ⟨hlast, fun m hm => Nat.add_le_add_right ?_ _⟩
        rcases h.past_of he hm with hle | ⟨till, htill, -⟩
        · exact hle
        · rw [hlast.2] at htill; cases htill
      · simp only [if_neg hlast] at ha
        have hempty := (h.due e he a ha).1.1
        rw [hempty] at hsession
        exact absurd hsession (Finset.notMem_empty _)
  · obtain ⟨e, he, rfl⟩ := hmem he'
    obtain ⟨hkey, hbrowser, -⟩ := leave_same session now e
    rw [hbrowser] at htill
    rw [hkey]
    obtain ⟨hstart, hle, -⟩ := h.live e he till htill
    refine ⟨hstart, hle, fun _ m hm => ?_⟩
    rcases h.past_of he hm with hover | ⟨till', htill', hheld⟩
    · exact hover.trans (hfresh e he till htill).le
    · rw [htill] at htill'
      cases htill'
      exact hheld
  · rcases hexit with ⟨-, hnone⟩ | ⟨hgone, hsome⟩
    · rw [hnone] at hd; cases hd
    · rw [hsome] at hd
      cases hd
      refine ⟨hgone, Nat.add_le_add_right h.started _, fun k m hm => Nat.add_le_add_right ?_ _⟩
      rcases hover hm with hle | ⟨e', he', -, till, htill, -⟩
      · exact hle
      · refine absurd ⟨e', he', fun hidle => ?_⟩ hgone
        rw [hidle.2] at htill
        cases htill
  · rcases hexit with ⟨hstays, -⟩ | ⟨-, hsome⟩
    · exact hstays
    · rw [hsome] at hnone; cases hnone
  · rcases hover hm with hle | ⟨e', he', -, till, htill, hheld⟩
    · rcases hexit with ⟨⟨e', he', hbusy⟩, -⟩ | ⟨-, hsome⟩
      · cases htill : e'.browserUntil with
        | none => exact absurd ⟨hsessions e' he', htill⟩ hbusy
        | some till =>
            obtain ⟨e, he, rfl⟩ := hmem he'
            have hlive := hfresh e he till ((leave_same session now e).2.1.symm.trans htill)
            exact ⟨_, he', till, htill, hle.trans hlive.le⟩
      · rw [hsome] at hnone; cases hnone
    · exact ⟨e', he', till, htill, hheld⟩

theorem Kept.disconnect (h : Kept start now bound r) (session : Nat) :
    Kept start now bound (r.disconnectAt session now) := by
  obtain ⟨hticked, hfresh⟩ := h.ticked
  have hgone : ∀ r₁ : Registry, r₁ = r.ticked now → Kept start now bound
      (if r₁.entries.any (fun e => session ∈ e.sessions) then
        let r := { r₁ with entries := r₁.entries.map (Entry.leave session now) }
        if r.Attended then r.updateExitDeadline now
        else { r with idleExitAt := some (now + daemonIdleDelay) }
      else r₁) := by
    rintro r₁ rfl
    split
    · obtain ⟨hsame, hexit⟩ := updateExitDeadline_cases now
        { r.ticked now with entries := (r.ticked now).entries.map (Entry.leave session now) }
      show Kept start now bound (if _ then _ else _)
      split
      · rename_i hattended
        refine hticked.leave hfresh hsame (.inl ⟨?_, ?_⟩)
        · unfold Registry.Attended
          rw [hsame]
          exact hattended
        · rcases hexit with ⟨-, hnone⟩ | ⟨hfalse, -⟩ | ⟨hfalse, -⟩
          · exact hnone
          · exact absurd hattended hfalse
          · exact absurd hattended hfalse
      · rename_i hfree
        exact hticked.leave hfresh rfl (.inr ⟨hfree, rfl⟩)
    · exact hticked
  refine hgone _ ?_
  cases hlast : lastExpired now r.entries with
  | none => exact expireBrowsers_eq_ticked h.toExiting hlast
  | some last =>
      unfold Registry.ticked
      rw [hlast]
      rfl

end Clocks

/-! ### Releases -/

structure Gone (k : String) (r : Registry) : Prop where
  runtime : k ∉ r.runtimes
  entries : ∀ e ∈ r.entries, e.key = k →
    e.released = true ∧ e.pendingWork = false ∧ e.externalWork = false

section Releases

variable {r r' r'' : Registry} {k : String} {o : Outside}

theorem Gone.alter {k' : String} {f : Entry → Entry} (h : Gone k r)
    (hentries : r'.entries = Register.alter Entry.key k' f r.entries)
    (hsub : r'.runtimes ⊆ r.runtimes) (hkey : ∀ e, (f e).key = e.key)
    (hf : ∀ e ∈ r.entries, e.key = k → k = k' →
      (f e).released = true ∧ (f e).pendingWork = false ∧ (f e).externalWork = false) :
    Gone k r' := by
  refine ⟨fun hin => h.runtime (hsub hin), fun e' he' hk => ?_⟩
  rw [hentries] at he'
  rcases Register.mem_alter.mp he' with ⟨he, -⟩ | ⟨e, he, hk', rfl⟩
  · exact h.entries e' he hk
  · have hek : e.key = k := (hkey e).symm.trans hk
    exact hf e he hek (hek.symm.trans hk')

/-- **Who is gone stays gone** until somebody attaches. -/
theorem Gone.of_move (hkeyed : Keyed Entry.key r.entries) (h : Gone k r) (hmove : Move r r') :
    Gone k r' := by
  cases hmove with
  | @marked k' e pending found =>
      refine h.alter rfl (Finset.Subset.refl _) (fun _ => rfl) ?_
      rintro a ha hk rfl
      obtain ⟨hreleased, hwork, hexternal⟩ := h.entries a ha hk
      refine ⟨hreleased, ?_, hexternal⟩
      obtain rfl := eq_of_entry hkeyed found.entry ha hk
      rcases found.cause with hsame | ⟨hbusy, -⟩ | hruntime
      · exact hsame.trans hwork
      · rw [hexternal] at hbusy; cases hbusy
      · exact absurd hruntime h.runtime
  | freed =>
      refine h.alter rfl (Finset.erase_subset _ _) (fun _ => rfl) fun a ha hk _ => ?_
      exact ⟨rfl, rfl, (h.entries a ha hk).2.2⟩
  | settled | registered =>
      exact h.alter rfl (Finset.Subset.refl _) (fun _ => rfl) fun a ha hk _ => h.entries a ha hk
  | without =>
      refine ⟨fun hin => h.runtime (Finset.mem_of_mem_erase hin), fun e he => ?_⟩
      exact h.entries e (Register.mem_remove.mp he).1
  | added =>
      refine ⟨h.runtime, fun e he hk => ?_⟩
      rcases Register.mem_put.mp he with ⟨hold, -⟩ | rfl
      · exact h.entries e hold hk
      · exact ⟨rfl, rfl, rfl⟩
  | @opened k' e he hreleased =>
      refine ⟨fun hin => ?_, h.entries⟩
      rcases Finset.mem_insert.mp hin with rfl | hin
      · obtain ⟨hmem, hkey⟩ := Register.mem_of_get he
        rw [(h.entries e hmem hkey).1] at hreleased
        cases hreleased
      · exact h.runtime hin
  | scanned => exact ⟨h.runtime, h.entries⟩
  | reordered perm => exact ⟨h.runtime, fun e he => h.entries e (perm.mem_iff.mp he)⟩

theorem Gone.of_moves (hkeyed : Keyed Entry.key r.entries) (h : Gone k r)
    (hmoves : ReflTransGen Move r r') : Gone k r' := by
  induction hmoves with
  | refl => exact h
  | tail hfirst hlast ih => exact ih.of_move (keyed_of_moves hfirst hkeyed) hlast

/-- Who is released now was released before, or was due and is gone. -/
def Flips (due : List String) (r r' : Registry) : Prop :=
  ∀ e' ∈ r'.entries, (∃ e ∈ r.entries, e.key = e'.key ∧ e'.released = e.released) ∨
    (e'.key ∈ due ∧ Gone e'.key r')

theorem Flips.of_alter {k' : String} {f : Entry → Entry} {due : List String}
    (hentries : r'.entries = Register.alter Entry.key k' f r.entries)
    (hkey : ∀ e, (f e).key = e.key) (hf : ∀ e, (f e).released = e.released) : Flips due r r' := by
  intro e' he'
  rw [hentries] at he'
  rcases Register.mem_alter.mp he' with ⟨he, -⟩ | ⟨e, he, -, rfl⟩
  · exact .inl ⟨e', he, rfl, rfl⟩
  · exact .inl ⟨e, he, (hkey e).symm, hf e⟩

theorem Flips.refl (due : List String) (r : Registry) : Flips due r r := fun e he =>
  .inl ⟨e, he, rfl, rfl⟩

theorem Flips.trans {due : List String} (hkeyed : Keyed Entry.key r'.entries)
    (h : Flips due r r') (h' : Flips due r' r'') (hmoves : ReflTransGen Move r' r'') :
    Flips due r r'' := by
  intro e'' he''
  rcases h' e'' he'' with ⟨e', he', hkey', hreleased'⟩ | hgone
  · rcases h e' he' with ⟨e, he, hkey, hreleased⟩ | ⟨hdue, hgone⟩
    · exact .inl ⟨e, he, hkey.trans hkey', hreleased'.trans hreleased⟩
    · rw [hkey'] at hdue hgone; exact .inr ⟨hdue, hgone.of_moves hkeyed hmoves⟩
  · exact .inr hgone

theorem Flips.mono {due due' : List String} (h : Flips due r r') (hsub : ∀ k ∈ due, k ∈ due') :
    Flips due' r r' := fun e' he' =>
  (h e' he').imp id fun ⟨hdue, hgone⟩ => ⟨hsub _ hdue, hgone⟩

theorem gone_freed (hkeyed : Keyed Entry.key r.entries) {e : Entry} (he : r.entry k = some e)
    (hfree : e.externalWork = false) : Gone k (r.freed k) := by
  refine ⟨fun hin => (Finset.mem_erase.mp hin).1 rfl, fun a' ha' hk => ?_⟩
  rcases Register.mem_alter.mp ha' with ⟨-, hne⟩ | ⟨a, ha, hak, rfl⟩
  · exact absurd hk hne
  · obtain rfl := eq_of_entry hkeyed he ha hak
    exact ⟨rfl, rfl, hfree⟩

/-- **What the releases of a tick do.** -/
theorem yields_releaseDue (due : List String) : ∀ r, Keyed Entry.key r.entries →
    Yields (releaseDue o due) r
      (fun released r' => Flips due r r' ∧ ∀ k ∈ released, k ∈ due ∧ Gone k r')
      fun _ r' => Flips due r r' := by
  induction due with
  | nil => exact fun r _ => ⟨.refl [] r, fun k hk => absurd hk List.not_mem_nil⟩
  | cons k rest ih =>
      intro r hkeyed
      have hrest : ∀ k' ∈ rest, k' ∈ k :: rest := fun _ => List.mem_cons_of_mem k
      unfold releaseDue
      rw [yields_bind]
      refine (yields_release hkeyed).mono ?_ ?_
      · intro released r₁ h
        by_cases hreleased : released = true
        · rw [if_pos hreleased] at h ⊢
          obtain ⟨rfl, e, he, hidle, hfree⟩ := h
          rw [yields_bind, yields_modify]
          have hfreed : (r.freed k).entry k
              = some { e with pendingWork := false, released := true } :=
            Register.get_alter
              (f := fun e : Entry => { e with pendingWork := false, released := true })
              (fun _ => rfl) he
          have hmove := Move.settled hfreed hidle rfl
          have hkeyed₁ := (Move.freed he hidle hfree).keyed hkeyed
          have hkeyed₂ := hmove.keyed hkeyed₁
          have hgone := (gone_freed hkeyed he hfree).of_move hkeyed₁ hmove
          have hflips : Flips (k :: rest) r
              ((r.freed k).alter k fun e => { e with releaseAt := none }) := by
            intro e' he'
            by_cases hk : e'.key = k
            · rw [hk]; exact .inr ⟨List.mem_cons_self, hgone⟩
            · rcases Register.mem_alter.mp he' with ⟨he', -⟩ | ⟨a, -, hak, rfl⟩
              · rcases Register.mem_alter.mp he' with ⟨hold, -⟩ | ⟨a, -, hak, rfl⟩
                · exact .inl ⟨e', hold, rfl, rfl⟩
                · exact absurd hak hk
              · exact absurd hak hk
          rw [yields_bind]
          refine ((ih _ hkeyed₂).and (moves_releaseDue rest _ hkeyed₂)).mono ?_ ?_
          · rintro more r₃ ⟨⟨hflips', hmore⟩, hmoves⟩
            refine ⟨hflips.trans hkeyed₂ (hflips'.mono hrest) hmoves, fun k' hk' => ?_⟩
            rcases List.mem_cons.mp hk' with rfl | hk'
            · exact ⟨List.mem_cons_self, hgone.of_moves hkeyed₂ hmoves⟩
            · obtain ⟨hin, hgone'⟩ := hmore k' hk'
              exact ⟨List.mem_cons_of_mem k hin, hgone'⟩
          · rintro _ r₃ ⟨hflips', hmoves⟩
            exact hflips.trans hkeyed₂ (hflips'.mono hrest) hmoves
        · rw [if_neg hreleased] at h ⊢
          obtain ⟨pending, rfl, e, hfound⟩ := h
          have hkeyed₁ := (Move.marked hfound).keyed hkeyed
          have hflips : Flips (k :: rest) r (r.marked k pending) :=
            .of_alter rfl (fun _ => rfl) fun _ => rfl
          refine ((ih _ hkeyed₁).and (moves_releaseDue rest _ hkeyed₁)).mono ?_ ?_
          · rintro more r₃ ⟨⟨hflips', hmore⟩, hmoves⟩
            refine ⟨hflips.trans hkeyed₁ (hflips'.mono hrest) hmoves, fun k' hk' => ?_⟩
            obtain ⟨hin, hgone⟩ := hmore k' hk'
            exact ⟨List.mem_cons_of_mem k hin, hgone⟩
          · rintro _ r₃ ⟨hflips', hmoves⟩
            exact hflips.trans hkeyed₁ (hflips'.mono hrest) hmoves
      · rintro _ r₁ (rfl | ⟨pending, rfl, -⟩)
        · exact .refl _ _
        · exact .of_alter rfl (fun _ => rfl) fun _ => rfl

theorem yields_anyBusy (probe : String → Probe) (due : List String) : ∀ (keys : List String) (r : Registry),
    Keyed Entry.key r.entries →
    Yields (anyBusy probe keys) r (fun _ r' => Flips due r r') fun _ r' => Flips due r r' := by
  intro keys
  induction keys with
  | nil => exact fun r _ => .refl due r
  | cons k rest ih =>
      intro r hkeyed
      unfold anyBusy
      rw [yields_bind]
      refine (yields_refreshPendingWork hkeyed).mono ?_ ?_
      · rintro pending r₁ ⟨rfl, e, hfound⟩
        have hkeyed₁ := (Move.marked hfound).keyed hkeyed
        have hflips : Flips due r (r.marked k pending) := .of_alter rfl (fun _ => rfl) fun _ => rfl
        rw [yields_bind]
        refine ((ih _ hkeyed₁).and (moves_anyBusy probe rest _ hkeyed₁)).mono ?_ ?_
        · rintro more r₂ ⟨hflips', hmoves⟩
          exact hflips.trans hkeyed₁ hflips' hmoves
        · rintro _ r₂ ⟨hflips', hmoves⟩
          exact hflips.trans hkeyed₁ hflips' hmoves
      · rintro _ r₁ rfl
        exact .refl due _

theorem yields_orphanPending (now : Nat) (due : List String) :
    Yields (orphanPending o now) r (fun _ r' => Flips due r r') fun _ r' => Flips due r r' := by
  have hscan : ∀ cache count, Flips due r
      { r with orphanScanCache := cache, orphanScanCount := count } :=
    fun _ _ e he => .inl ⟨e, he, rfl, rfl⟩
  unfold orphanPending
  rw [yields_bind, yields_get]
  cases r.orphanScanCache with
  | none => exact hscan _ _
  | some cache =>
      obtain ⟨till, pending⟩ := cache
      show Yields (if now < till then pure pending else _) r _ _
      split
      · exact .refl due r
      · exact hscan _ _

/-- **What a tick does once the browsers have expired.** -/
theorem yields_sweep (now : Nat) (hkeyed : Keyed Entry.key r.entries) :
    Yields (sweep o now) r
      (fun tick r' => Flips (r.due now) r r' ∧ (∀ k ∈ tick.released, k ∈ r.due now ∧ Gone k r') ∧
        (tick.exit = true → ∃ d, r.idleExitAt = some d ∧ d ≤ now))
      fun _ r' => Flips (r.due now) r r' := by
  unfold sweep
  rw [yields_bind, yields_get, yields_bind]
  refine ((yields_releaseDue _ r hkeyed).and (moves_releaseDue _ r hkeyed)).mono ?_
    fun _ _ h => h.1
  rintro released r₁ ⟨⟨hflips₁, hreleased⟩, hmoves₁⟩
  have hkeyed₁ := keyed_of_moves hmoves₁ hkeyed
  have hexit₁ := (Calm.of_moves hkeyed hmoves₁).exit
  rw [yields_bind, yields_get, yields_bind]
  refine ((yields_anyBusy o.again (r.due now) _ r₁ hkeyed₁).and
    (moves_anyBusy o.again _ r₁ hkeyed₁)).mono ?_ fun _ _ h => hflips₁.trans hkeyed₁ h.1 h.2
  rintro busy r₂ ⟨hflips₂, hmoves₂⟩
  have hkeyed₂ := keyed_of_moves hmoves₂ hkeyed₁
  have hexit₂ := (Calm.of_moves hkeyed₁ hmoves₂).exit
  have hflips := hflips₁.trans hkeyed₁ hflips₂ hmoves₂
  have hgone : ∀ k ∈ released, k ∈ r.due now ∧ Gone k r₂ := fun k hk =>
    ⟨(hreleased k hk).1, (hreleased k hk).2.of_moves hkeyed₁ hmoves₂⟩
  rw [yields_bind, yields_get]
  split
  · rename_i hcandidate
    have hdeadline : ∃ d, r.idleExitAt = some d ∧ d ≤ now := by
      rw [← hexit₁, ← hexit₂]
      obtain ⟨d, hd, hle⟩ := (Option.any_eq_true _ _).mp hcandidate.1
      exact ⟨d, hd, of_decide_eq_true hle⟩
    rw [yields_bind]
    refine ((yields_orphanPending now (r.due now)).and (moves_orphanPending now r₂ hkeyed₂)).mono ?_ ?_
    · rintro pending r₃ ⟨hflips₃, hmoves₃⟩
      rw [yields_pure]
      exact ⟨hflips.trans hkeyed₂ hflips₃ hmoves₃,
        fun k hk => ⟨(hgone k hk).1, (hgone k hk).2.of_moves hkeyed₂ hmoves₃⟩, fun _ => hdeadline⟩
    · rintro _ r₃ ⟨hflips₃, hmoves₃⟩
      exact hflips.trans hkeyed₂ hflips₃ hmoves₃
  · rw [yields_pure]
    exact ⟨hflips, hgone, fun hfalse => absurd hfalse Bool.false_ne_true⟩

end Releases

/-! ### Histories -/

structure Span where
  since : Nat
  till : Nat
  entries : List Entry

structure World where
  registry : Registry
  start : Nat
  clock : Nat
  spans : List Span
  requests : List (String × Nat)

def Operation.served (now : Nat) (r : Registry) : Operation → Option String
  | browserRequest o identity =>
      match browserRequestAt o identity now r with
      | .ok _ _ => some identity.rootKey
      | .error _ _ => none
  | _ => none

namespace World

def startingAt (t : Nat) : World := ⟨.startingAt t, t, t, [], []⟩

def pass (now : Nat) (w : World) : World :=
  { w with clock := now, spans := ⟨w.clock, now, w.registry.entries⟩ :: w.spans }

def perform (now : Nat) (op : Operation) (w : World) : World :=
  { w.pass now with
    registry := op.perform now w.registry
    requests := ((op.served now w.registry).map fun k => (k, now)).toList ++ w.requests }

inductive Step (w : World) : World → Prop
  | perform (now : Nat) (op : Operation) (later : w.clock ≤ now) : Step w (w.perform now op)
  | reorder {entries : List Entry} (perm : entries.Perm w.registry.entries) :
      Step w { w with registry := { w.registry with entries := entries } }

/-- **Somebody was a client of the checkout then**: a session was attached, or a browser had
asked for it within its delay. -/
def ClientAt (w : World) (k : String) (τ : Nat) : Prop :=
  (∃ span ∈ w.spans, span.since ≤ τ ∧ τ ≤ span.till ∧
    ∃ e ∈ span.entries, e.key = k ∧ e.sessions ≠ ∅) ∨
  ∃ asked, (k, asked) ∈ w.requests ∧ asked ≤ τ ∧ τ < asked + browserIdleDelay

def Bound (w : World) (k : String) (m : Nat) : Prop :=
  (∃ span ∈ w.spans, span.till = m ∧ ∃ e ∈ span.entries, e.key = k ∧ e.sessions ≠ ∅) ∨
  ∃ asked, (k, asked) ∈ w.requests ∧ m = asked + browserIdleDelay

variable {w : World} {k : String} {τ now : Nat}

theorem ClientAt.bound (h : w.ClientAt k τ) : ∃ m, w.Bound k m ∧ τ ≤ m := by
  rcases h with ⟨span, hspan, -, hle, hclient⟩ | ⟨asked, hasked, -, hlt⟩
  · exact ⟨span.till, .inl ⟨span, hspan, rfl, hclient⟩, hle⟩
  · exact ⟨asked + browserIdleDelay, .inr ⟨asked, hasked, rfl⟩, hlt.le⟩

theorem kept_pass (h : Kept w.start w.clock w.Bound w.registry) (hnow : w.clock ≤ now) :
    Kept w.start now (w.pass now).Bound w.registry := by
  refine h.pass hnow fun k m hm => ?_
  rcases hm with ⟨span, hspan, htill, hclient⟩ | hasked
  · rcases List.mem_cons.mp hspan with rfl | hspan
    · obtain ⟨e, he, hkey, hsessions⟩ := hclient
      exact .inr ⟨htill.symm, e, he, hkey, hsessions⟩
    · exact .inl (.inl ⟨span, hspan, htill, hclient⟩)
  · exact .inl (.inr hasked)

theorem bound_perform {op : Operation} {m : Nat} (h : (w.perform now op).Bound k m) :
    (w.pass now).Bound k m ∨
      (op.served now w.registry = some k ∧ m = now + browserIdleDelay) := by
  rcases h with hspan | ⟨asked, hasked, rfl⟩
  · exact .inl (.inl hspan)
  · rcases List.mem_append.mp hasked with hserved | hold
    · rw [Option.mem_toList, Option.map_eq_some_iff] at hserved
      obtain ⟨k', hserved, heq⟩ := hserved
      cases heq
      exact .inr ⟨hserved, rfl⟩
    · exact .inl (.inr ⟨asked, hold, rfl⟩)

/-- **Every operation keeps the deadlines.** -/
theorem kept_perform (h : Kept w.start w.clock w.Bound w.registry) (hnow : w.clock ≤ now)
    (op : Operation) :
    Kept (w.perform now op).start (w.perform now op).clock (w.perform now op).Bound
      (w.perform now op).registry := by
  have hpass := kept_pass h hnow
  have hkeyed := h.keyed
  -- who serves no browser adds no bound
  have hunserved : op.served now w.registry = none →
      Kept w.start now (w.pass now).Bound (op.perform now w.registry) →
      Kept w.start now (w.perform now op).Bound (op.perform now w.registry) := by
    intro hnone hkept
    refine hkept.pass (Nat.le_refl _) fun k m hm => .inl ?_
    rcases bound_perform hm with hold | ⟨hserved, -⟩
    · exact hold
    · rw [hnone] at hserved; cases hserved
  have hmoves : ∀ {r'}, ReflTransGen Move w.registry r' →
      Kept w.start now (w.pass now).Bound r' := fun h => hpass.calm (.of_moves hkeyed h)
  have hfinal : ∀ {ε α : Type} {x : EStateM ε Registry α}, Moves x →
      Kept w.start now (w.pass now).Bound (final x w.registry) :=
    fun h => hmoves (h w.registry hkeyed).final
  cases op with
  | attachLaunch o session launch =>
      refine hunserved rfl ((yields_attachLaunch hkeyed).mono ?_ ?_).final
      · rintro _ r' ⟨r₁, hreplaced, hadmitted⟩
        exact (hmoves hreplaced.spared.moves).admitted hadmitted
      · exact fun _ r' hspared => hmoves hspared.moves
  | select o m session =>
      refine hunserved rfl ((yields_select hkeyed).mono ?_ ?_).final
      · rintro _ r' ⟨identity, r₁, -, hreplaced, hadmitted⟩
        exact (hmoves hreplaced.spared.moves).admitted hadmitted
      · rintro _ r' (rfl | ⟨identity, -, hspared⟩)
        · exact hpass
        · exact hmoves hspared.moves
  | browserRequest o identity =>
      have hyields : Yields (browserRequestAt o identity now) w.registry _ _ :=
        yields_browserRequestAt hkeyed
      cases hresult : browserRequestAt o identity now w.registry with
      | ok a r' =>
          obtain ⟨r₁, r₂, hreplaced, hadmitted, rfl⟩ := hyields.of_ok hresult
          have hserved : (Operation.browserRequest o identity).served now w.registry
              = some identity.rootKey := by
            simp only [Operation.served, hresult]
          have hperform : (Operation.browserRequest o identity).perform now w.registry
              = r₂.browsed identity.rootKey now := by
            simp only [Operation.perform, final, hresult]
          show Kept w.start now _ ((Operation.browserRequest o identity).perform now w.registry)
          rw [hperform]
          refine (hmoves hreplaced.spared.moves).browsed hadmitted fun k m hm => ?_
          rcases bound_perform hm with hold | ⟨hk, hlast⟩
          · exact .inl hold
          · rw [hserved] at hk
            cases hk
            exact .inr ⟨rfl, hlast⟩
      | error e r' =>
          have hspared := hyields.of_error hresult
          have hserved : (Operation.browserRequest o identity).served now w.registry = none := by
            simp only [Operation.served, hresult]
          have hperform : (Operation.browserRequest o identity).perform now w.registry = r' := by
            simp only [Operation.perform, final, hresult]
          refine hunserved hserved ?_
          rw [hperform]
          exact hmoves hspared.moves
  | disconnect session => exact hunserved rfl (hpass.disconnect session)
  | setPendingWork k pending =>
      refine hunserved rfl ?_
      rcases final_setPendingWork w.registry k pending with hassigned | hsame
      · rw [show Operation.perform now w.registry (.setPendingWork k pending) = _ from hassigned]
        exact hpass.calm (.alter hkeyed rfl rfl (fun _ => rfl)
          fun _ _ _ => ⟨rfl, rfl, rfl, .inl ⟨rfl, rfl⟩⟩)
      · rw [show Operation.perform now w.registry (.setPendingWork k pending) = _ from hsame]
        exact hpass
  | refreshPendingWork probe k => exact hunserved rfl (hfinal (moves_refreshPendingWork probe))
  | release o k => exact hunserved rfl (hfinal moves_release)
  | retireReplaced o identity => exact hunserved rfl (hfinal moves_retireReplaced)
  | canRegister o valid identity options =>
      exact hunserved rfl (hfinal (moves_canRegister valid options))
  | register o identity options => exact hunserved rfl (hfinal (moves_register options))
  | browserIdentity o l k => exact hunserved rfl (hfinal (moves_browserIdentity l))
  | activate opens k => exact hunserved rfl (hfinal (moves_activate opens))
  | advance o =>
      obtain ⟨hticked, -⟩ := hpass.ticked
      have hsweep := ((moves_sweep o now) _ hticked.keyed).final
      exact hunserved rfl (hticked.calm (.of_moves hticked.keyed hsweep))

theorem kept_startingAt (t : Nat) : Kept t t (startingAt t).Bound (.startingAt t) := by
  have hnone : ∀ k m, ¬ (startingAt t).Bound k m := by
    rintro k m (⟨span, hspan, -⟩ | ⟨asked, hasked, -⟩)
    · exact List.not_mem_nil hspan
    · exact List.not_mem_nil hasked
  refine ⟨⟨Table.keyed_nil _, Nat.le_refl t, fun _ he => absurd he List.not_mem_nil,
    fun _ he => absurd he List.not_mem_nil, fun _ he => absurd he List.not_mem_nil,
    fun k m hm => absurd hm (hnone k m)⟩, fun d hd => ?_, fun hfalse => ?_,
    fun _ _ k m hm => absurd hm (hnone k m)⟩
  · cases hd
    refine ⟨?_, Nat.le_refl _, fun k m hm => absurd hm (hnone k m)⟩
    rintro ⟨e, he, -⟩
    exact List.not_mem_nil he
  · cases hfalse

theorem kept_of_run {t : Nat} {w : World} (hrun : ReflTransGen Step (startingAt t) w) :
    w.start = t ∧ Kept w.start w.clock w.Bound w.registry := by
  refine Runs.keeps_run (I := fun w => w.start = t ∧ Kept w.start w.clock w.Bound w.registry) ?_
    hrun ⟨rfl, kept_startingAt t⟩
  rintro w _ (⟨now, op, hnow⟩ | ⟨perm⟩) ⟨hstart, hkept⟩
  · exact ⟨hstart, kept_perform hkept hnow op⟩
  · exact ⟨hstart, hkept.calm (.of_move hkept.keyed (.reordered perm))⟩

section Advance

variable {o : Outside} (hkept : Kept w.start w.clock w.Bound w.registry) (hnow : w.clock ≤ now)

include hkept hnow

theorem over_of_due (hdue : k ∈ (w.registry.ticked now).due now)
    (hclient : (w.perform now (.advance o)).ClientAt k τ) : τ + checkoutReleaseDelay ≤ now := by
  obtain ⟨hticked, -⟩ := (kept_pass hkept hnow).ticked
  obtain ⟨e, he, rfl⟩ := List.mem_map.mp hdue
  obtain ⟨hmem, hat⟩ := List.mem_filter.mp he
  obtain ⟨a, ha, hle⟩ := (Option.any_eq_true _ _).mp hat
  obtain ⟨m, hm, hτ⟩ := hclient.bound
  have hbound : (w.pass now).Bound e.key m := by
    rcases bound_perform hm with hold | ⟨hserved, -⟩
    · exact hold
    · cases hserved
  have hperiod := (hticked.due e hmem a ha).2 m hbound
  exact ((Nat.add_le_add_right hτ _).trans hperiod).trans (of_decide_eq_true hle)

/-- Once the exit deadline is over, nobody has been a client for the whole exit period. -/
theorem over_of_exit {d : Nat} (hd : (w.registry.ticked now).idleExitAt = some d) (hle : d ≤ now) :
    w.start + daemonIdleDelay ≤ now ∧
      ∀ k τ, (w.perform now (.advance o)).ClientAt k τ → τ + daemonIdleDelay ≤ now := by
  obtain ⟨hticked, -⟩ := (kept_pass hkept hnow).ticked
  obtain ⟨-, hstart, hexit⟩ := hticked.exits d hd
  refine ⟨hstart.trans hle, fun k τ hclient => ?_⟩
  obtain ⟨m, hm, hτ⟩ := hclient.bound
  rcases bound_perform hm with hold | ⟨hserved, -⟩
  · exact ((Nat.add_le_add_right hτ _).trans (hexit k m hold)).trans hle
  · cases hserved

theorem flips_advance : Flips ((w.registry.ticked now).due now) w.registry
    (w.perform now (.advance o)).registry := by
  obtain ⟨hticked, -⟩ := (kept_pass hkept hnow).ticked
  have hflips : Flips ((w.registry.ticked now).due now) (w.registry.ticked now)
      (w.perform now (.advance o)).registry :=
    ((yields_sweep now hticked.keyed).mono (fun _ _ h => h.1) fun _ _ h => h).final
  intro e' he'
  rcases hflips e' he' with ⟨e, he, hkey, hreleased⟩ | hgone
  · have hentries : (w.registry.ticked now).entries = w.registry.entries.map (Entry.expire now) :=
      (updateExitDeadline_cases _ (w.registry.expireBrowsers now)).1
    rw [hentries] at he
    obtain ⟨a, ha, rfl⟩ := List.mem_map.mp he
    refine .inl ⟨a, ha, (expire_key now a).symm.trans hkey, hreleased.trans ?_⟩
    rcases expire_cases now a with ⟨heq, -⟩ | ⟨till, -, -, -, heq⟩
    · rw [heq]
    · rw [heq]
  · exact .inr hgone

theorem fresh_advance : Fresh now (w.perform now (.advance o)).registry := by
  obtain ⟨hticked, hfresh⟩ := (kept_pass hkept hnow).ticked
  have hcalm : Calm (w.registry.ticked now) (w.perform now (.advance o)).registry :=
    .of_moves hticked.keyed ((moves_sweep o now) _ hticked.keyed).final
  intro e' he' till htill
  rcases hcalm.origin e' he' with ⟨e, he, hfollows⟩ | hinert
  · exact hfresh e he till (hfollows.browser.symm.trans htill)
  · rw [hinert.idle.2] at htill; cases htill

end Advance

/-- **Lifetime.**  In every run a checkout that is not released and has no client waits for
its release; whoever a tick releases has had no client for the whole retention period and
has no pending work; and a tick lets the daemon exit only when there has been no client of
any checkout for the whole exit period. -/
theorem lifetime_of_run {t : Nat} {w : World} (hrun : ReflTransGen Step (startingAt t) w) :
    (∀ e ∈ w.registry.entries, e.released = false → e.sessions = ∅ → e.browserUntil = none →
      ∃ a, e.releaseAt = some a) ∧
    ∀ o now, w.clock ≤ now →
      (∀ e ∈ (w.perform now (.advance o)).registry.entries, ∀ till, e.browserUntil = some till →
        now < till) ∧
      (∀ e' ∈ (w.perform now (.advance o)).registry.entries, e'.released = true →
        (∀ e ∈ w.registry.entries, e.key = e'.key → e.released = false) →
        e'.pendingWork = false ∧
          ∀ τ, (w.perform now (.advance o)).ClientAt e'.key τ → τ + checkoutReleaseDelay ≤ now) ∧
      ∀ tick r', advance o now w.registry = .ok tick r' →
        (∀ k ∈ tick.released,
          (∀ e' ∈ r'.entries, e'.key = k → e'.released = true ∧ e'.pendingWork = false) ∧
            ∀ τ, (w.perform now (.advance o)).ClientAt k τ → τ + checkoutReleaseDelay ≤ now) ∧
        (tick.exit = true → t + daemonIdleDelay ≤ now ∧
          ∀ k τ, (w.perform now (.advance o)).ClientAt k τ → τ + daemonIdleDelay ≤ now) := by
  obtain ⟨rfl, hkept⟩ := kept_of_run hrun
  refine ⟨fun e he hreleased hsessions hbrowser => ?_, fun o now hnow => ⟨?_, ?_, ?_⟩⟩
  · exact Option.ne_none_iff_exists'.mp (hkept.waits e he hreleased ⟨hsessions, hbrowser⟩)
  · exact fresh_advance hkept hnow
  · intro e' he' hreleased hbefore
    rcases flips_advance hkept hnow e' he' with ⟨e, he, hkey, hsame⟩ | ⟨hdue, hgone⟩
    · rw [hsame, hbefore e he hkey] at hreleased; cases hreleased
    · exact ⟨(hgone.entries e' he' rfl).2.1, fun τ => over_of_due hkept hnow hdue⟩
  · intro tick r' hok
    obtain ⟨hticked, -⟩ := (kept_pass hkept hnow).ticked
    rw [advance_eq] at hok
    obtain ⟨-, hreleased, hexit⟩ := (yields_sweep now hticked.keyed).of_ok hok
    refine ⟨fun k hk => ?_, fun hexits => ?_⟩
    · obtain ⟨hdue, hgone⟩ := hreleased k hk
      refine ⟨fun e' he' hkey => ?_, fun τ => over_of_due hkept hnow hdue⟩
      obtain ⟨hfreed, hwork, -⟩ := hgone.entries e' he' hkey
      exact ⟨hfreed, hwork⟩
    · obtain ⟨d, hd, hle⟩ := hexit hexits
      exact over_of_exit hkept hnow hd hle

def visited : World :=
  let o : Outside := ⟨true, true, none, fun _ => .reads false, fun _ => .drained,
    fun _ => .reads false, false⟩
  ((startingAt 0).perform 0 (.attachLaunch o 1 ⟨"/work", "k", "id", 1, 10⟩)).perform 0 (.disconnect 1)

theorem lifetime_of_run_visited : ∃ e ∈ visited.registry.entries,
    e.released = false ∧ ∃ a, e.releaseAt = some a := by
  have hrun : ReflTransGen Step (startingAt 0) visited :=
    .tail (.single (.perform 0 _ (Nat.le_refl 0))) (.perform 0 (.disconnect 1) (Nat.le_refl 0))
  have hmem : Entry.mk ⟨"/work", "k", "id", 1, 10⟩ none ∅ false false false none
      (some checkoutReleaseDelay) ∈ visited.registry.entries := by
    decide
  exact ⟨_, hmem, rfl, (lifetime_of_run hrun).1 _ hmem rfl rfl rfl⟩

/-- **The exit deadline**: in every run there is one exactly while no client is attached, and it is
the whole exit period behind the start of the daemon and behind every client there has been. -/
theorem exit_deadline_of_run {t : Nat} {w : World} (hrun : ReflTransGen Step (startingAt t) w) :
    (w.registry.idleExitAt = none ↔ w.registry.Attended) ∧
      ∀ d, w.registry.idleExitAt = some d → t + daemonIdleDelay ≤ d ∧
        ∀ k τ, w.ClientAt k τ → τ + daemonIdleDelay ≤ d := by
  obtain ⟨rfl, hkept⟩ := kept_of_run hrun
  refine ⟨⟨hkept.stays, fun hattended => ?_⟩, fun d hd => ?_⟩
  · cases hexit : w.registry.idleExitAt with
    | none => rfl
    | some d => exact absurd hattended (hkept.exits d hexit).1
  · obtain ⟨-, hstart, hbound⟩ := hkept.exits d hd
    refine ⟨hstart, fun k τ hclient => ?_⟩
    obtain ⟨m, hm, hτ⟩ := hclient.bound
    exact (Nat.add_le_add_right hτ _).trans (hbound k m hm)

theorem exit_deadline_of_run_visited : ¬ visited.registry.Attended := by
  have hrun : ReflTransGen Step (startingAt 0) visited :=
    .tail (.single (.perform 0 _ (Nat.le_refl 0))) (.perform 0 (.disconnect 1) (Nat.le_refl 0))
  have hdeadline : visited.registry.idleExitAt ≠ none := by decide
  exact mt (exit_deadline_of_run hrun).1.mpr hdeadline

end World

end Baleyg.Daemon
