/-
Every request is answered once, or cancelled.

`Orderly` is the invariant of a connection: tokens are given out once, what is pending is
pending under its own key, and every admitted request is in exactly one of four places,
pending, answered, cancelled, or dropped with the end of the input.  A frame or a
completion moves at most one request from one place to another, so the invariant holds
whatever the order in which frames and completions come.

The coordinator's runs are runs of such a connection, and whenever it takes no more input
it comes to rest with nothing pending.
-/
import Baleyg.Mcp.Changes

namespace Baleyg.Mcp

open Relation (ReflTransGen)
open Table (Keyed)

/-! ### The invariant -/

/-- **The invariant of a connection.** -/
structure Orderly (x : Exchange) : Prop where
  keyed : Keyed Pending.key x.session.pending
  ids : ∀ p ∈ x.session.pending, p.admission.id = p.key.value
  known : ∀ p ∈ x.session.pending, p.admission ∈ x.admitted
  tokens : (x.admitted.map Admission.token).Nodup
  bounded : ∀ a ∈ x.admitted, a.token ≤ x.session.nextToken
  once : (x.answered.map Prod.fst).Nodup
  unfinished : ∀ p ∈ x.session.pending, p.admission.token ∉ x.answered.map Prod.fst ∧
    p.admission.token ∉ x.cancelled ∧ p.admission.token ∉ x.dropped
  apart : ∀ t ∈ x.answered.map Prod.fst, t ∉ x.cancelled ∧ t ∉ x.dropped
  accounted : ∀ a ∈ x.admitted, (∃ p ∈ x.session.pending, p.admission = a) ∨
    a.token ∈ x.answered.map Prod.fst ∨ a.token ∈ x.cancelled ∨ a.token ∈ x.dropped
  own : ∀ r ∈ x.answered, ∃ a ∈ x.admitted, a.token = r.1 ∧ r.2.id? = some a.id
  stopped : ∀ t, t ∈ x.cancelled ∨ t ∈ x.dropped → ∃ a ∈ x.admitted, a.token = t
  running : x.ended = false → x.dropped = []
  closed : x.ended = true → x.session.pending = []

theorem mem_gone {before after : Session} {t : Nat} : t ∈ gone before after ↔
    ∃ p ∈ before.pending, p.admission.token = t ∧
      ∀ q ∈ after.pending, q.admission.token ≠ t := by
  unfold gone
  rw [List.mem_map]
  constructor
  · rintro ⟨p, hp, rfl⟩
    obtain ⟨hmem, hall⟩ := List.mem_filter.mp hp
    exact ⟨p, hmem, rfl, fun q hq => of_decide_eq_true (List.all_eq_true.mp hall q hq)⟩
  · rintro ⟨p, hp, rfl, hall⟩
    exact ⟨p, List.mem_filter.mpr ⟨hp, List.all_eq_true.mpr fun q hq => decide_eq_true (hall q hq)⟩,
      rfl⟩

namespace Orderly

variable {x : Exchange}

theorem eq_of_token (h : Orderly x) {a b : Admission} (ha : a ∈ x.admitted) (hb : b ∈ x.admitted)
    (htoken : a.token = b.token) : a = b :=
  List.inj_on_of_nodup_map h.tokens ha hb htoken

theorem pending_eq_of_token (h : Orderly x) {p q : Pending} (hp : p ∈ x.session.pending)
    (hq : q ∈ x.session.pending) (htoken : p.admission.token = q.admission.token) : p = q := by
  have hsame := h.eq_of_token (h.known p hp) (h.known q hq) htoken
  refine h.keyed.eq_of_key hp hq (IdKey.value_injective ?_)
  rw [← h.ids p hp, ← h.ids q hq, hsame]

theorem start : Orderly .start := by
  have hnone : ∀ {α : Type} {P : α → Prop}, ∀ a ∈ ([] : List α), P a := fun a ha =>
    absurd ha List.not_mem_nil
  exact ⟨Table.keyed_nil _, hnone, hnone, List.nodup_nil, hnone, List.nodup_nil, hnone, hnone, hnone,
    hnone, fun t h => (h.elim List.not_mem_nil List.not_mem_nil).elim, fun _ => rfl,
    fun h => nomatch h⟩

/-- **Pending requests go**, cancelled or dropped, and nothing else changes. -/
theorem shrink (h : Orderly x) {s : Session} {cancelled dropped : List Nat} {ended : Bool}
    (hsub : s.pending.Sublist x.session.pending) (hnext : s.nextToken = x.session.nextToken)
    (hgone : ∀ t, t ∈ cancelled ∨ t ∈ dropped ↔
      t ∈ gone x.session s ∨ t ∈ x.cancelled ∨ t ∈ x.dropped)
    (hrunning : ended = false → dropped = []) (hclosed : ended = true → s.pending = []) :
    Orderly { x with session := s, cancelled := cancelled, dropped := dropped, ended := ended } := by
  refine ⟨h.keyed.sublist hsub, fun p hp => h.ids p (hsub.subset hp),
    fun p hp => h.known p (hsub.subset hp), h.tokens, fun a ha => ?_, h.once, fun p hp => ?_,
    fun t ht => ?_, fun a ha => ?_, h.own, fun t ht => ?_, hrunning, hclosed⟩
  · rw [hnext]; exact h.bounded a ha
  · obtain ⟨hanswered, hcancelled, hdropped⟩ := h.unfinished p (hsub.subset hp)
    have hneither : ¬ (p.admission.token ∈ cancelled ∨ p.admission.token ∈ dropped) := by
      rw [hgone]
      rintro (hlost | hold | hold)
      · obtain ⟨-, -, -, hall⟩ := mem_gone.mp hlost
        exact hall p hp rfl
      · exact hcancelled hold
      · exact hdropped hold
    exact ⟨hanswered, fun hin => hneither (.inl hin), fun hin => hneither (.inr hin)⟩
  · have hneither : ¬ (t ∈ cancelled ∨ t ∈ dropped) := by
      rw [hgone]
      rintro (hlost | hold | hold)
      · obtain ⟨p, hp, rfl, -⟩ := mem_gone.mp hlost
        exact (h.unfinished p hp).1 ht
      · exact (h.apart t ht).1 hold
      · exact (h.apart t ht).2 hold
    exact ⟨fun hin => hneither (.inl hin), fun hin => hneither (.inr hin)⟩
  · rcases h.accounted a ha with ⟨p, hp, rfl⟩ | hanswered | hstopped
    · by_cases hstill : p ∈ s.pending
      · exact .inl ⟨p, hstill, rfl⟩
      · refine .inr (.inr ((hgone _).mpr (.inl (mem_gone.mpr ⟨p, hp, rfl, fun q hq htoken => ?_⟩))))
        exact hstill (h.pending_eq_of_token (hsub.subset hq) hp htoken ▸ hq)
    · exact .inr (.inl hanswered)
    · exact .inr (.inr ((hgone _).mpr (.inr hstopped)))
  · rcases (hgone t).mp ht with hlost | hold
    · obtain ⟨p, hp, rfl, -⟩ := mem_gone.mp hlost
      exact ⟨p.admission, h.known p hp, rfl⟩
    · exact h.stopped t hold

/-- **A request is admitted** under a free key, with the next token. -/
theorem enroll (h : Orderly x) (hopen : x.ended = false) {key : IdKey} {target : Mode}
    {action : Action} (hfree : ∀ p ∈ x.session.pending, p.key ≠ key) :
    Orderly (x.take (.admitted ⟨x.session.nextToken + 1, key.value, action⟩)
      ⟨target, x.session.nextToken + 1,
        x.session.pending ++ [⟨key, ⟨x.session.nextToken + 1, key.value, action⟩⟩]⟩) := by
  have hnew : ∀ a ∈ x.admitted, a.token ≠ x.session.nextToken + 1 := fun a ha heq => by
    have hle := h.bounded a ha
    omega
  have hfresh : ∀ t, (t ∈ x.answered.map Prod.fst ∨ t ∈ x.cancelled ∨ t ∈ x.dropped) →
      t ≠ x.session.nextToken + 1 := by
    rintro t (hanswered | hstopped) rfl
    · obtain ⟨r, hr, hfst⟩ := List.mem_map.mp hanswered
      obtain ⟨a, ha, htoken, -⟩ := h.own r hr
      exact hnew a ha (htoken.trans hfst)
    · obtain ⟨a, ha, htoken⟩ := h.stopped _ hstopped
      exact hnew a ha htoken
  have hgone : gone x.session ⟨target, x.session.nextToken + 1,
      x.session.pending ++ [⟨key, ⟨x.session.nextToken + 1, key.value, action⟩⟩]⟩ = [] := by
    refine List.eq_nil_iff_forall_not_mem.mpr fun t ht => ?_
    obtain ⟨p, hp, htoken, hall⟩ := mem_gone.mp ht
    exact hall p (List.mem_append_left _ hp) htoken
  unfold Exchange.take
  rw [hgone, List.nil_append]
  refine ⟨h.keyed.append_row hfree, fun p hp => ?_, fun p hp => ?_, ?_, fun a ha => ?_, h.once,
    fun p hp => ?_, h.apart, fun a ha => ?_, fun r hr => ?_, fun t ht => ?_, h.running,
    fun hended => ?_⟩
  · rcases List.mem_append.mp hp with hold | hlast
    · exact h.ids p hold
    · rw [List.mem_singleton.mp hlast]
  · rcases List.mem_append.mp hp with hold | hlast
    · exact List.mem_cons_of_mem _ (h.known p hold)
    · rw [List.mem_singleton.mp hlast]; exact List.mem_cons_self
  · rw [List.map_cons, List.nodup_cons]
    refine ⟨fun hin => ?_, h.tokens⟩
    obtain ⟨a, ha, htoken⟩ := List.mem_map.mp hin
    exact hnew a ha htoken
  · rcases List.mem_cons.mp ha with rfl | hold
    · exact Nat.le_refl _
    · exact Nat.le_succ_of_le (h.bounded a hold)
  · rcases List.mem_append.mp hp with hold | hlast
    · exact h.unfinished p hold
    · rw [List.mem_singleton.mp hlast]
      exact ⟨fun hin => hfresh _ (.inl hin) rfl, fun hin => hfresh _ (.inr (.inl hin)) rfl,
        fun hin => hfresh _ (.inr (.inr hin)) rfl⟩
  · rcases List.mem_cons.mp ha with rfl | hold
    · exact .inl ⟨_, List.mem_append_right _ (List.mem_singleton_self _), rfl⟩
    · rcases h.accounted a hold with ⟨p, hp, heq⟩ | hrest
      · exact .inl ⟨p, List.mem_append_left _ hp, heq⟩
      · exact .inr hrest
  · obtain ⟨a, ha, htoken, hid⟩ := h.own r hr
    exact ⟨a, List.mem_cons_of_mem _ ha, htoken, hid⟩
  · obtain ⟨a, ha, htoken⟩ := h.stopped t ht
    exact ⟨a, List.mem_cons_of_mem _ ha, htoken⟩
  · rw [show x.ended = true from hended] at hopen; cases hopen

/-- **A frame** keeps the invariant. -/
theorem take (h : Orderly x) (hopen : x.ended = false) {event : Event} {s : Session}
    (hchange : Change x.session event s) : Orderly (x.take event s) := by
  have hshrink : ∀ {s : Session}, s.pending.Sublist x.session.pending →
      s.nextToken = x.session.nextToken → Orderly
        { x with session := s, cancelled := gone x.session s ++ x.cancelled } := by
    intro s hsub hnext
    refine h.shrink hsub hnext (fun t => ?_) h.running fun hended => ?_
    · rw [List.mem_append, or_assoc]
    · rw [hopen] at hended; cases hended
  cases hchange with
  | rejected | ignored | ready => exact hshrink (List.Sublist.refl _) rfl
  | cancelled key => exact hshrink List.filter_sublist rfl
  | admitted action hfree _ => exact h.enroll hopen hfree

theorem finish (h : Orderly x) : Orderly x.finish := by
  refine h.shrink (List.nil_sublist _) rfl (fun t => ?_) (fun hfalse => nomatch hfalse)
    fun _ => rfl
  rw [List.mem_append]
  constructor
  · rintro (hold | hlost | hold)
    · exact .inr (.inl hold)
    · exact .inl hlost
    · exact .inr (.inr hold)
  · rintro (hlost | hold | hold)
    · exact .inr (.inl hlost)
    · exact .inl hold
    · exact .inr (.inr hold)

/-! ### Completions -/

theorem pendingOf_eq_some {s : Session} {token : Nat} {p : Pending} (h : s.pendingOf token = some p) :
    p ∈ s.pending ∧ p.admission.token = token :=
  ⟨List.mem_of_find?_eq_some h,
    of_decide_eq_true (List.find?_some (p := fun p : Pending => p.admission.token = token) h)⟩

/-- **What a completion does**: it finishes the request of its token, which is the only one
that goes, or it is stale and nothing happens. -/
theorem commit_cases (s : Session) (p : Prepared) :
    (s.commit p = (none, s) ∧ ∀ q ∈ s.pending, q.admission.token ≠ p.token) ∨
      ∃ row ∈ s.pending, row.admission.token = p.token ∧ s.commit p = (some p.response,
        { s with pending := Register.remove Pending.key row.key s.pending }) := by
  unfold Session.commit
  cases hrow : s.pendingOf p.token with
  | none =>
      refine .inl ⟨rfl, fun q hq htoken => ?_⟩
      exact List.find?_eq_none.mp hrow q hq (decide_eq_true htoken)
  | some row =>
      obtain ⟨hmem, htoken⟩ := pendingOf_eq_some hrow
      exact .inr ⟨row, hmem, htoken, rfl⟩

theorem mem_of_mem_commit (h : Orderly x) {p : Prepared} {q : Pending}
    (hq : q ∈ (x.commit p).session.pending) :
    q ∈ x.session.pending ∧ q.admission.token ≠ p.token := by
  have hq : q ∈ (x.session.commit p).2.pending := hq
  rcases commit_cases x.session p with ⟨hstale, hothers⟩ | ⟨row, hrow, htoken, hcommit⟩
  · rw [hstale] at hq; exact ⟨hq, hothers q hq⟩
  · rw [hcommit] at hq
    obtain ⟨hmem, hkey⟩ := Register.mem_remove.mp hq
    refine ⟨hmem, fun hsame => hkey ?_⟩
    rw [h.pending_eq_of_token hmem hrow (hsame.trans htoken.symm)]

/-- **A completion** keeps the invariant, however stale it is. -/
theorem commit (h : Orderly x) {a : Admission} {p : Prepared} (ha : a ∈ x.admitted)
    (hown : p.token = a.token) (hid : p.response.id? = some a.id) : Orderly (x.commit p) := by
  have hothers := fun q => h.mem_of_mem_commit (p := p) (q := q)
  unfold Exchange.commit at hothers ⊢
  rcases commit_cases x.session p with ⟨hstale, -⟩ | ⟨row, hrow, htoken, hcommit⟩
  · rw [hstale]; exact h
  · rw [hcommit] at hothers ⊢
    obtain ⟨hunanswered, huncancelled, hundropped⟩ := h.unfinished row hrow
    rw [htoken] at hunanswered huncancelled hundropped
    refine ⟨Register.keyed_remove h.keyed, fun q hq => h.ids q (hothers q hq).1,
      fun q hq => h.known q (hothers q hq).1, h.tokens, h.bounded, ?_, fun q hq => ?_,
      fun t ht => ?_, fun b hb => ?_, fun r hr => ?_, h.stopped, h.running, fun hended => ?_⟩
    · exact List.nodup_cons.mpr ⟨hunanswered, h.once⟩
    · obtain ⟨hmem, hne⟩ := hothers q hq
      obtain ⟨hanswered, hrest⟩ := h.unfinished q hmem
      exact ⟨fun hin => (List.mem_cons.mp hin).elim hne hanswered, hrest⟩
    · rcases List.mem_cons.mp ht with rfl | hold
      · exact ⟨huncancelled, hundropped⟩
      · exact h.apart t hold
    · rcases h.accounted b hb with ⟨q, hq, rfl⟩ | hanswered | hstopped
      · by_cases hkey : q.key = row.key
        · refine .inr (.inl (List.mem_cons.mpr (.inl ?_)))
          rw [h.keyed.eq_of_key hq hrow hkey]
          exact htoken
        · exact .inl ⟨q, Register.mem_remove.mpr ⟨hq, hkey⟩, rfl⟩
      · exact .inr (.inl (List.mem_cons_of_mem _ hanswered))
      · exact .inr (.inr hstopped)
    · rcases List.mem_cons.mp hr with rfl | hold
      · exact ⟨a, ha, hown.symm, hid⟩
      · exact h.own r hold
    · rw [h.closed hended] at hrow; exact absurd hrow List.not_mem_nil

end Orderly

theorem Orderly.step {parsers : Parsers} {x x' : Exchange} (h : Orderly x)
    (hstep : Exchange.Step parsers x x') : Orderly x' := by
  cases hstep with
  | take frame hopen hmore hhandled => exact h.take hopen (change_of_handle hmore hhandled)
  | finish => exact h.finish
  | commit hknown hown hid => exact h.commit hknown hown hid

/-- **The invariant of every run.** -/
theorem orderly_of_run {parsers : Parsers} {x : Exchange}
    (hrun : ReflTransGen (Exchange.Step parsers) .start x) : Orderly x :=
  Runs.keeps_run (fun _ _ hstep h => h.step hstep) hrun .start

/-! ### What a connection promises -/

def Exchange.answers (x : Exchange) (token : Nat) : Nat := (x.answered.map Prod.fst).count token

/-- **The promises of a connection**, at any moment of it. -/
structure Lawful (parsers : Parsers) (x : Exchange) : Prop where
  /-- Every request is answered once, unless it was cancelled or the input ended, or it is
  still pending. -/
  answered : ∀ a ∈ x.admitted, x.answers a.token = 1 ∨ (x.answers a.token = 0 ∧
    (a.token ∈ x.cancelled ∨ x.ended = true ∨ ∃ p ∈ x.session.pending, p.admission = a))
  cancelled : ∀ t ∈ x.cancelled, x.answers t = 0
  /-- A response carries the identifier of its own request. -/
  own : ∀ r ∈ x.answered, ∃ a ∈ x.admitted, a.token = r.1 ∧ r.2.id? = some a.id
  /-- A completion touches no request but its own. -/
  stale : ∀ (p : Prepared), ∀ q ∈ x.session.pending, q.admission.token ≠ p.token →
    q ∈ (x.commit p).session.pending ∧
      (x.commit p).answers q.admission.token = x.answers q.admission.token
  rejected : ∀ frame e s, handle parsers x.session frame = (.error e, s) → s = x.session
  keys : (x.session.pending.map Pending.key).Nodup
  ids : (x.session.pending.map fun p => p.admission.id).Nodup
  tokens : (x.session.pending.map fun p => p.admission.token).Nodup
  mode : ∀ x', Exchange.Step parsers x x' → x.session.mode.Moves x'.session.mode

namespace Orderly

variable {parsers : Parsers} {x : Exchange}

theorem answers_of_mem (h : Orderly x) {t : Nat} (ht : t ∈ x.answered.map Prod.fst) :
    x.answers t = 1 := List.count_eq_one_of_mem h.once ht

/-- **An orderly connection keeps its promises.** -/
theorem lawful (h : Orderly x) : Lawful parsers x := by
  have hpending : x.session.pending.Nodup := List.Nodup.of_map Pending.key h.keyed
  refine ⟨fun a ha => ?_, fun t ht => ?_, h.own, fun p q hq hne => ?_, fun frame e s hhandle => ?_,
    h.keyed, ?_, ?_, fun x' hstep => ?_⟩
  · by_cases hanswered : a.token ∈ x.answered.map Prod.fst
    · exact .inl (h.answers_of_mem hanswered)
    · refine .inr ⟨List.count_eq_zero.mpr hanswered, ?_⟩
      rcases h.accounted a ha with hopen | hin | hcancelled | hdropped
      · exact .inr (.inr hopen)
      · exact absurd hin hanswered
      · exact .inl hcancelled
      · cases hended : x.ended with
        | true => exact .inr (.inl rfl)
        | false =>
            rw [h.running hended] at hdropped
            exact absurd hdropped List.not_mem_nil
  · exact List.count_eq_zero.mpr fun hin => (h.apart t hin).1 ht
  · unfold Exchange.commit Exchange.answers
    rcases commit_cases x.session p with ⟨hstale, -⟩ | ⟨row, hrow, htoken, hcommit⟩
    · rw [hstale]; exact ⟨hq, rfl⟩
    · rw [hcommit]
      refine ⟨Register.mem_remove.mpr ⟨hq, fun hkey => hne ?_⟩, ?_⟩
      · rw [h.keyed.eq_of_key hq hrow hkey]; exact htoken
      · exact List.count_cons_of_ne (Ne.symm hne)
  · by_cases hmore : frame = .eof
    · subst hmore; cases hhandle
    · have hchange := change_of_handle hmore hhandle
      cases hchange
      rfl
  · refine hpending.map_on fun p hp q hq hid => ?_
    refine h.keyed.eq_of_key hp hq (IdKey.value_injective ?_)
    rw [← h.ids p hp, ← h.ids q hq, hid]
  · exact hpending.map_on fun p hp q hq htoken => h.pending_eq_of_token hp hq htoken
  · cases hstep with
    | take frame hopen hmore hhandled => exact (change_of_handle hmore hhandled).moves
    | finish => exact .stay _
    | @commit a p hknown hown hid =>
        show x.session.mode.Moves (x.session.commit p).2.mode
        rcases commit_cases x.session p with ⟨hstale, -⟩ | ⟨row, -, -, hcommit⟩
        · rw [hstale]; exact .stay _
        · rw [hcommit]; exact .stay _

end Orderly

/-! ### The coordinator -/

def Transport.responses (w : Transport) : List (Nat × Json) :=
  w.written.filterMap fun r => r.token.map fun t => (t, r.response)

/-- **The invariant of the coordinator**: whatever is pending is still to be carried out. -/
structure Steady (w : Transport) : Prop where
  orderly : Orderly w.exchange
  queued : ∀ a, Outcome.request a ∈ w.outcomes → a ∈ w.exchange.admitted
  working : ∀ a p, w.phase = .finishing a p →
    a ∈ w.exchange.admitted ∧ p.token = a.token ∧ p.response.id? = some a.id
  waiting : w.phase ≠ .ended → ∀ p ∈ w.exchange.session.pending,
    Outcome.request p.admission ∈ w.outcomes ∨ ∃ q, w.phase = .finishing p.admission q
  responses : w.responses = w.exchange.answered
  ended : w.exchange.ended = true ↔ w.phase = .ended

theorem id_responseTo (a : Admission) (result : Json) : (responseTo a result).id? = some a.id := by
  unfold responseTo
  split
  · rfl
  · rfl

theorem id_set (v result : Json) : (v.set "result" result).id? = v.id? := by
  cases v with
  | obj fields =>
      have hmap : Json.get (fields.map fun f => if f.1 = "result" then ("result", result) else f) "id"
          = Json.get fields "id" := by
        unfold Json.get
        induction fields with
        | nil => rfl
        | cons f fields ih =>
            rw [List.map_cons, List.find?_cons, List.find?_cons]
            by_cases hresult : f.1 = "result"
            · rw [if_pos hresult, hresult]; exact ih
            · rw [if_neg hresult]
              split
              · rfl
              · exact ih
      have happend : Json.get (fields ++ [("result", result)]) "id" = Json.get fields "id" := by
        unfold Json.get
        rw [List.find?_append, List.find?_singleton]
        cases fields.find? fun f => f.1 = "id" <;> rfl
      unfold Json.set
      simp only
      split
      · exact hmap
      · exact happend
  | _ => rfl

namespace Transport

variable {parsers : Parsers} {w w' : Transport}

theorem prepare_eq_some {s : Session} {token : Nat} {response : Json} {p : Prepared}
    (h : s.prepare token response = some p) : p = ⟨token, response⟩ := by
  unfold Session.prepare at h
  cases hrow : s.pendingOf token with
  | none => rw [hrow] at h; cases h
  | some row =>
      rw [hrow] at h
      cases h
      rfl

theorem pendingOf_ne_none {s : Session} {p : Pending} (hp : p ∈ s.pending) :
    s.pendingOf p.admission.token ≠ none := fun hnone =>
  List.find?_eq_none.mp hnone p hp (decide_eq_true rfl)

/-- **A turn of the coordinator is at most one completion.** -/
theorem exchange_of_turn (h : Steady w) (hturn : Turn w w') :
    w'.exchange = w.exchange ∨ Exchange.Step parsers w.exchange w'.exchange := by
  cases hturn with
  | refuse | skip | answer => exact .inl rfl
  | @settle a p fresh hfinishing hcalled =>
      obtain ⟨hadmitted, htoken, hid⟩ := h.working a p hfinishing
      refine .inr (.commit hadmitted htoken ?_)
      cases fresh with
      | none => exact hid
      | some result => exact (id_set p.response result).trans hid

theorem settle_written (p : Prepared) (w : Transport) (h : w.responses = w.exchange.answered) :
    (w.settle p).responses = (w.settle p).exchange.answered := by
  unfold settle Exchange.commit responses at *
  rcases Orderly.commit_cases w.exchange.session p with ⟨hstale, -⟩ | ⟨row, -, -, hcommit⟩
  · rw [hstale]; exact h
  · rw [hcommit]
    show (p.token, p.response) :: _ = _
    rw [h]

/-- **A turn keeps the invariant.** -/
theorem steady_turn (h : Steady w) (hturn : Turn w w') : Steady w' := by
  have horderly : Orderly w'.exchange := by
    have hcases : w'.exchange = w.exchange ∨
        Exchange.Step ⟨fun _ => none, fun _ => false⟩ w.exchange w'.exchange :=
      exchange_of_turn h hturn
    rcases hcases with hsame | hstep
    · rw [hsame]; exact h.orderly
    · exact h.orderly.step hstep
  cases hturn with
  | @refuse e rest hgathering holdest =>
      refine ⟨horderly, fun a ha => h.queued a ?_, h.working, fun hrunning p hp => ?_, h.responses,
        h.ended⟩
      · rw [holdest]; exact List.mem_cons_of_mem _ ha
      · rcases h.waiting hrunning p hp with hqueued | hfinishing
        · rw [holdest] at hqueued
          rcases List.mem_cons.mp hqueued with hfalse | hrest
          · cases hfalse
          · exact .inl hrest
        · exact .inr hfinishing
  | @skip a rest hgathering holdest hcancelled =>
      refine ⟨horderly, fun b hb => h.queued b ?_, h.working, fun hrunning p hp => ?_, h.responses,
        h.ended⟩
      · rw [holdest]; exact List.mem_cons_of_mem _ hb
      · rcases h.waiting hrunning p hp with hqueued | hfinishing
        · rw [holdest] at hqueued
          rcases List.mem_cons.mp hqueued with hsame | hrest
          · cases hsame; exact absurd hcancelled (pendingOf_ne_none hp)
          · exact .inl hrest
        · exact .inr hfinishing
  | @answer a rest p result hgathering holdest hready =>
      have hadmitted : a ∈ w.exchange.admitted := h.queued a (holdest ▸ List.mem_cons_self)
      have hp := prepare_eq_some hready
      refine ⟨horderly, fun b hb => h.queued b ?_, fun b q hfinishing => ?_, fun _ q hq => ?_,
        h.responses, ?_⟩
      · rw [holdest]; exact List.mem_cons_of_mem _ hb
      · cases hfinishing
        rw [hp]
        exact ⟨hadmitted, rfl, id_responseTo a result⟩
      · have hrunning : w.phase ≠ .ended := by
          rw [hgathering]
          exact fun hfalse => nomatch hfalse
        rcases h.waiting hrunning q hq with hqueued | ⟨p', hfinishing⟩
        · rw [holdest] at hqueued
          rcases List.mem_cons.mp hqueued with hsame | hrest
          · cases hsame; exact .inr ⟨p, rfl⟩
          · exact .inl hrest
        · rw [hgathering] at hfinishing; cases hfinishing
      · constructor
        · intro hended
          rw [h.ended.mp hended] at hgathering
          cases hgathering
        · intro hfalse; cases hfalse
  | @settle a p fresh hfinishing hcalled =>
      obtain ⟨hadmitted, htoken, -⟩ := h.working a p hfinishing
      refine ⟨horderly, h.queued, fun b q hfalse => (nomatch hfalse), fun _ q hq => ?_,
        settle_written _ w h.responses, ?_⟩
      · have hrunning : w.phase ≠ .ended := by
          rw [hfinishing]
          exact fun hfalse => nomatch hfalse
        have hbefore := h.orderly.mem_of_mem_commit hq
        rcases h.waiting hrunning q hbefore.1 with hqueued | ⟨p', hsame⟩
        · exact .inl hqueued
        · rw [hfinishing] at hsame
          cases hsame
          exact absurd htoken.symm hbefore.2
      · constructor
        · intro hended
          rw [h.ended.mp hended] at hfinishing
          cases hfinishing
        · intro hfalse; cases hfalse

/-- **A frame keeps the invariant**: whoever it adds to the pending is added to the
outcomes. -/
theorem steady_receive (h : Steady w) (hrunning : w.phase ≠ .ended) {event : Event} {s : Session}
    (hchange : Change w.exchange.session event s) : Steady (w.receive event s) := by
  have hopen : w.exchange.ended = false := Bool.eq_false_iff.mpr fun hended => hrunning (h.ended.mp hended)
  have horderly := h.orderly.take hopen hchange
  -- nobody is added, so the outcomes may grow as they like
  have hkept : ∀ {es : List Outcome} {s : Session}, s.pending.Sublist w.exchange.session.pending →
      ∀ p ∈ s.pending,
        Outcome.request p.admission ∈ w.outcomes ++ es ∨ ∃ q, w.phase = .finishing p.admission q := by
    intro es s hsub p hp
    exact (h.waiting hrunning p (hsub.subset hp)).imp_left (List.mem_append_left _)
  cases hchange with
  | rejected e =>
      refine ⟨horderly, fun a ha => ?_, h.working, fun _ => hkept (List.Sublist.refl _),
        h.responses, h.ended⟩
      rcases List.mem_append.mp ha with hold | hlast
      · exact h.queued a hold
      · cases List.mem_singleton.mp hlast
  | ignored | ready =>
      refine ⟨horderly, fun a ha => ?_, h.working, fun _ => hkept (List.Sublist.refl _),
        h.responses, h.ended⟩
      rw [show (w.receive _ _).outcomes = w.outcomes ++ [] from rfl, List.append_nil] at ha
      exact h.queued a ha
  | cancelled key =>
      refine ⟨horderly, fun a ha => ?_, h.working, fun _ => hkept List.filter_sublist,
        h.responses, h.ended⟩
      rw [show (w.receive _ _).outcomes = w.outcomes ++ [] from rfl, List.append_nil] at ha
      exact h.queued a ha
  | admitted action hfree hmoves =>
      refine ⟨horderly, fun a ha => ?_, fun a p hp => ?_, fun _ p hp => ?_, h.responses, h.ended⟩
      · rcases List.mem_append.mp ha with hold | hlast
        · exact List.mem_cons_of_mem _ (h.queued a hold)
        · cases List.mem_singleton.mp hlast
          exact List.mem_cons_self
      · obtain ⟨hadmitted, hrest⟩ := h.working a p hp
        exact ⟨List.mem_cons_of_mem _ hadmitted, hrest⟩
      · rcases List.mem_append.mp hp with hold | hlast
        · exact (h.waiting hrunning p hold).imp_left (List.mem_append_left _)
        · rw [List.mem_singleton.mp hlast]
          exact .inl (List.mem_append_right _ (List.mem_singleton_self _))

theorem steady_stop (h : Steady w) : Steady w.stop :=
  ⟨h.orderly.finish, h.queued, fun _ _ hfalse => (nomatch hfalse), fun hrunning => absurd rfl hrunning,
    h.responses, iff_of_true rfl rfl⟩

theorem steady_start : Steady .start := by
  refine ⟨.start, fun a ha => absurd ha List.not_mem_nil, fun _ _ hfalse => (nomatch hfalse),
    fun _ p hp => absurd hp List.not_mem_nil, rfl, ?_⟩
  constructor
  · intro hfalse; cases hfalse
  · intro hfalse; cases hfalse

theorem steady_step (h : Steady w) (hstep : Step parsers w w') : Steady w' := by
  cases hstep with
  | receive frame hrunning hmore hhandled =>
      exact steady_receive h hrunning (change_of_handle hmore hhandled)
  | stop => exact steady_stop h
  | turn hturn => exact steady_turn h hturn

/-- **One step of the coordinator is at most one step of the protocol.** -/
theorem exchange_of_step (h : Steady w) (hstep : Step parsers w w') :
    w'.exchange = w.exchange ∨ Exchange.Step parsers w.exchange w'.exchange := by
  have hopen : w.phase ≠ .ended → w.exchange.ended = false := fun hrunning =>
    Bool.eq_false_iff.mpr fun hended => hrunning (h.ended.mp hended)
  cases hstep with
  | receive frame hrunning hmore hhandled => exact .inr (.take frame (hopen hrunning) hmore hhandled)
  | stop hrunning => exact .inr (.finish (hopen hrunning))
  | turn hturn => exact exchange_of_turn h hturn

/-- **The coordinator refines the protocol.** -/
theorem exchange_of_run (hrun : ReflTransGen (Step parsers) .start w) :
    Steady w ∧ ReflTransGen (Exchange.Step parsers) .start w.exchange := by
  induction hrun with
  | refl => exact ⟨steady_start, .refl⟩
  | tail _ hlast ih =>
      obtain ⟨hsteady, hexchange⟩ := ih
      refine ⟨steady_step hsteady hlast, ?_⟩
      rcases exchange_of_step hsteady hlast with hsame | hstep
      · rw [hsame]; exact hexchange
      · exact hexchange.tail hstep

/-! ### Progress -/

def left : Phase → Nat
  | .finishing _ _ => 1
  | _ => 0

def work (w : Transport) : Nat := 2 * w.outcomes.length + left w.phase

def Resting (w : Transport) : Prop := w.phase = .gathering ∧ w.outcomes = []

/-- A turn neither admits nor cancels anybody, nor does it end the connection. -/
theorem admitted_of_turn (hturn : Turn w w') :
    w'.exchange.admitted = w.exchange.admitted ∧ w'.exchange.cancelled = w.exchange.cancelled ∧
      w'.exchange.ended = w.exchange.ended := by
  cases hturn <;> exact ⟨rfl, rfl, rfl⟩

/-- **Every turn lowers the work.** -/
theorem work_lt_of_turn (hturn : Turn w w') : work w' < work w := by
  cases hturn with
  | @refuse e rest hgathering holdest | @skip a rest hgathering holdest hcancelled =>
      show 2 * rest.length + left w.phase < 2 * w.outcomes.length + left w.phase
      rw [holdest, List.length_cons]
      omega
  | @answer a rest p result hgathering holdest hready =>
      show 2 * rest.length + 1 < 2 * w.outcomes.length + left w.phase
      rw [holdest, List.length_cons]
      omega
  | @settle a p fresh hfinishing hcalled =>
      show 2 * w.outcomes.length + 0 < 2 * w.outcomes.length + left w.phase
      rw [hfinishing]
      exact Nat.lt_succ_self _

/-- **As long as there is something to do, there is a turn.** -/
theorem exists_turn (hrunning : w.phase ≠ .ended) : Resting w ∨ ∃ w', Turn w w' := by
  cases hphase : w.phase with
  | ended => exact absurd hphase hrunning
  | finishing a p => exact .inr ⟨_, .settle none hphase fun hfalse => absurd rfl hfalse⟩
  | gathering =>
      cases houtcomes : w.outcomes with
      | nil => exact .inl ⟨hphase, houtcomes⟩
      | cons o rest =>
          cases o with
          | error e => exact .inr ⟨_, .refuse hphase houtcomes⟩
          | request a =>
              cases hrow : w.exchange.session.pendingOf a.token with
              | none => exact .inr ⟨_, .skip hphase houtcomes hrow⟩
              | some row =>
                  have hready : w.exchange.session.prepare a.token (responseTo a .null)
                      = some ⟨a.token, responseTo a .null⟩ := by
                    unfold Session.prepare
                    rw [hrow]
                    rfl
                  exact .inr ⟨_, .answer .null hphase houtcomes hready⟩

theorem pending_of_resting (h : Steady w) (hrest : Resting w) : w.exchange.session.pending = [] := by
  obtain ⟨hphase, houtcomes⟩ := hrest
  refine List.eq_nil_iff_forall_not_mem.mpr fun p hp => ?_
  have hrunning : w.phase ≠ .ended := by
    rw [hphase]
    exact fun hfalse => nomatch hfalse
  rcases h.waiting hrunning p hp with hqueued | ⟨q, hfinishing⟩
  · rw [houtcomes] at hqueued; exact List.not_mem_nil hqueued
  · rw [hphase] at hfinishing; cases hfinishing

/-- **At rest everybody has been answered** who was not cancelled. -/
theorem answers_of_resting (h : Steady w) (hrest : Resting w) {a : Admission}
    (ha : a ∈ w.exchange.admitted) (hnot : a.token ∉ w.exchange.cancelled) :
    w.exchange.answers a.token = 1 := by
  have hopen : w.exchange.ended = false := Bool.eq_false_iff.mpr fun hended => by
    have hphase := h.ended.mp hended
    rw [hrest.1] at hphase
    cases hphase
  rcases h.orderly.accounted a ha with ⟨p, hp, -⟩ | hanswered | hcancelled | hdropped
  · rw [pending_of_resting h hrest] at hp; exact absurd hp List.not_mem_nil
  · exact h.orderly.answers_of_mem hanswered
  · exact absurd hcancelled hnot
  · rw [h.orderly.running hopen] at hdropped; exact absurd hdropped List.not_mem_nil

/-- **Left alone, the coordinator comes to rest**, and cancels nobody on the way. -/
theorem comes_to_rest (h : Steady w) (hrunning : w.phase ≠ .ended) :
    ∃ w', ReflTransGen Turn w w' ∧ Resting w' ∧ w'.exchange.admitted = w.exchange.admitted ∧
      w'.exchange.cancelled = w.exchange.cancelled := by
  have hnext : ∀ v : Transport, (Steady v ∧ v.exchange.admitted = w.exchange.admitted ∧
      v.exchange.cancelled = w.exchange.cancelled ∧ v.phase ≠ .ended) →
      Resting v ∨ ∃ v', Turn v v' ∧ (Steady v' ∧ v'.exchange.admitted = w.exchange.admitted ∧
        v'.exchange.cancelled = w.exchange.cancelled ∧ v'.phase ≠ .ended) ∧ work v' < work v := by
    rintro v ⟨hv, hsame, hcancelled, hphase⟩
    rcases exists_turn hphase with hrest | ⟨v', hturn⟩
    · exact .inl hrest
    · have hv' := steady_turn hv hturn
      obtain ⟨hadmitted', hcancelled', hended'⟩ := admitted_of_turn hturn
      refine .inr ⟨v', hturn, ⟨hv', hadmitted'.trans hsame, hcancelled'.trans hcancelled,
        fun hend => hphase (hv.ended.mp ?_)⟩, work_lt_of_turn hturn⟩
      rw [← hended']
      exact hv'.ended.mpr hend
  obtain ⟨w', hrun, hrest, -, hadmitted, hcancelled, -⟩ :=
    Runs.comes_to_rest Nat.lt_wfRel.wf work hnext ⟨h, rfl, rfl, hrunning⟩
  exact ⟨w', hrun, hrest, hadmitted, hcancelled⟩

end Transport

/-- **The session protocol.**  Whatever the frames, and however completions come between
them, a connection keeps its promises.  The coordinator's runs are such connections, and it
writes exactly their responses.  While it takes no more input each of its turns lowers its
work, it comes to rest, and then everybody who was admitted and not cancelled has been
answered. -/
theorem protocol_of_run (parsers : Parsers) :
    (∀ x, ReflTransGen (Exchange.Step parsers) .start x → Lawful parsers x) ∧
      ∀ w, ReflTransGen (Transport.Step parsers) .start w →
        ReflTransGen (Exchange.Step parsers) .start w.exchange ∧
        w.responses = w.exchange.answered ∧
        (∀ w', Transport.Turn w w' → w'.work < w.work) ∧
        (w.phase ≠ .ended → ∃ w', ReflTransGen Transport.Turn w w' ∧ w'.Resting ∧
          w'.exchange.admitted = w.exchange.admitted ∧
          w'.exchange.cancelled = w.exchange.cancelled) ∧
        (w.Resting → ∀ a ∈ w.exchange.admitted, a.token ∉ w.exchange.cancelled →
          w.exchange.answers a.token = 1) := by
  refine ⟨fun x hrun => (orderly_of_run hrun).lawful, fun w hrun => ?_⟩
  obtain ⟨hsteady, hexchange⟩ := Transport.exchange_of_run hrun
  exact ⟨hexchange, hsteady.responses, fun w' => Transport.work_lt_of_turn,
    fun hrunning => Transport.comes_to_rest hsteady hrunning,
    fun hrest a ha hnot => Transport.answers_of_resting hsteady hrest ha hnot⟩

def discovering : Parsers where
  json := fun _ => some (.obj [("jsonrpc", .str "2.0"), ("id", .num "7"),
    ("method", .str "server/discover"),
    ("params", .obj [("_meta", .obj [
      ("io.modelcontextprotocol/protocolVersion", .str "2026-07-28"),
      ("io.modelcontextprotocol/clientCapabilities", .obj [])])])])
  url := fun _ => false

theorem protocol_of_run_discovering : ∃ w, ReflTransGen (Transport.Step discovering) .start w ∧
    (⟨1, .num "7", .discover⟩ : Admission) ∈ w.exchange.admitted ∧ w.exchange.answers 1 = 1 := by
  have hhandle : handle discovering .new (.line []) = (.admitted ⟨1, .num "7", .discover⟩,
      ⟨.modern, 1, [⟨.integer 7, ⟨1, .num "7", .discover⟩⟩]⟩) := by
    rfl
  have hrun : ReflTransGen (Transport.Step discovering) .start _ :=
    .single (.receive (.line []) (fun hfalse => nomatch hfalse) (fun hfalse => nomatch hfalse) hhandle)
  obtain ⟨-, -, -, hrests, -⟩ := (protocol_of_run discovering).2 _ hrun
  obtain ⟨w, hturns, hrest, hadmitted, hcancelled⟩ := hrests fun hfalse => nomatch hfalse
  have hlong : ReflTransGen (Transport.Step discovering) .start w :=
    hrun.trans (ReflTransGen.mono (fun _ _ => Transport.Step.turn) _ _ hturns)
  obtain ⟨-, -, -, -, hanswered⟩ := (protocol_of_run discovering).2 w hlong
  have hmem : (⟨1, .num "7", .discover⟩ : Admission) ∈ w.exchange.admitted :=
    hadmitted ▸ List.mem_cons_self
  refine ⟨w, hlong, hmem, hanswered hrest _ hmem ?_⟩
  rw [hcancelled]
  exact List.not_mem_nil

end Baleyg.Mcp
