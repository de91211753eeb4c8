/-
What a run has done with its calls.

Every call that is under way has a beginning, at which its caller had what it asked with, and
stands where its program stands after the samples it has made since (`Run.asked`).  So what a
call returns is what its program gives, a response that is open was admitted by a call, and a
session that a response or a call has still has its leader lock (`Run.live`).
-/
import Baleyg.Read.Samples
import Baleyg.Read.World

namespace Baleyg.Read

open Calls

/-! ### What a call has done -/

section System

variable {κ ε ι : Type} [DecidableEq κ] [DecidableEq ε] [DecidableEq ι]

/-- What is shared, from moment to moment. -/
def moments (σ : Nat → World κ ε ι) (n : Nat) : Shared κ ε := (σ n).shared

/-- The call of a reader stands at a point of the run. -/
def Stands (σ : Nat → World κ ε ι) (i : ι) (req : Request κ ε) (t : Nat)
    (p : Prog (Shared κ ε) (Reply κ ε)) : Prop := (σ t).calls i = .running req p

/-- The call began at `b` with what it needs, and stands as `p` from `m` on. -/
structure Asked (σ : Nat → World κ ε ι) (i : ι) (req : Request κ ε) (b m : Nat)
    (p : Prog (Shared κ ε) (Reply κ ε)) : Prop where
  allowed : Allowed (σ b) req
  runs : Runs (moments σ) (Stands σ i req) b req.program m p

/-- No epoch goes on while a call has finished a read and is to load it. -/
def Steady (w w' : World κ ε ι) : Prop :=
  ∀ i store r epoch pin predecessor,
    w.calls i = .running (.rememberReadOnlyPredecessor store r epoch)
      (.done (.proved pin predecessor)) → w'.shared.epoch epoch = w.shared.epoch epoch

section Steps

variable {w w' : World κ ε ι} {i j : ι} {c d : Call κ ε} {req : Request κ ε}
  {p : Prog (Shared κ ε) (Reply κ ε)} {reply : Reply κ ε}

omit [DecidableEq κ] [DecidableEq ε] in
/-- What stands somewhere was put there, or stood there before. -/
theorem call_put (h : (w.put j c).calls i = d) : (i = j ∧ c = d) ∨ w.calls i = d := by
  change Function.update w.calls j c i = d at h
  by_cases hij : i = j
  · rw [hij, Function.update_self] at h; exact .inl ⟨hij, h⟩
  · rw [Function.update_of_ne hij] at h; exact .inr h

theorem Step.running (h : Step w w') (hcall : w'.calls i = .running req p) :
    w.calls i = .running req p ∨
      (w.calls i = .idle ∧ p = req.program ∧ Allowed w' req) ∨
      ∃ next, w.calls i = .running req (.read next) ∧ p = next w.shared := by
  cases h with
  | turn | release | drop => exact .inl hcall
  | begin j req' hidle hallowed =>
      rcases call_put hcall with ⟨rfl, hsame⟩ | hcall
      · cases hsame
        exact .inr (.inl ⟨hidle, rfl, hallowed.response, hallowed.session, hallowed.permit⟩)
      · exact .inl hcall
  | read j hread =>
      rcases call_put hcall with ⟨rfl, hsame⟩ | hcall
      · cases hsame; exact .inr (.inr ⟨_, hread, rfl⟩)
      · exact .inl hcall
  | fail | accept | finish | mint | capture | remember | keep =>
      rcases call_put hcall with ⟨-, hsame⟩ | hcall
      · cases hsame
      · exact .inl hcall

theorem Step.returned (h : Step w w') (hcall : w'.calls i = .returned req reply) :
    w.calls i = .returned req reply ∨ w.calls i = .running req (.done reply) ∨ reply = .nothing := by
  cases h with
  | turn | release | drop => exact .inl hcall
  | begin | read | fail | capture =>
      rcases call_put hcall with ⟨-, hsame⟩ | hcall
      · cases hsame
      · exact .inl hcall
  | accept j hdone | mint j hdone | finish j hdone hreply =>
      rcases call_put hcall with ⟨rfl, hsame⟩ | hcall
      · cases hsame; exact .inr (.inl hdone)
      · exact .inl hcall
  | remember | keep =>
      rcases call_put hcall with ⟨-, hsame⟩ | hcall
      · cases hsame; exact .inr (.inr rfl)
      · exact .inl hcall

theorem Step.storing {store : Store κ} {permit : Permit ε} (h : Step w w')
    (hcall : w'.calls i = .storing req store permit) :
    w.calls i = .storing req store permit ∨ ∃ r epoch pin predecessor,
      req = .rememberReadOnlyPredecessor store r epoch ∧
      w.calls i = .running req (.done (.proved pin predecessor)) ∧
      permit = ⟨store.identity, pin, predecessor, epoch, w.shared.epoch epoch⟩ := by
  cases h with
  | turn | release | drop => exact .inl hcall
  | begin | read | fail | accept | finish | mint | remember | keep =>
      rcases call_put hcall with ⟨-, hsame⟩ | hcall
      · cases hsame
      · exact .inl hcall
  | capture j hdone =>
      rcases call_put hcall with ⟨rfl, hsame⟩ | hcall
      · cases hsame; exact .inr ⟨_, _, _, _, rfl, hdone, rfl⟩
      · exact .inl hcall

theorem Step.idle (h : Step w w') (hcall : w'.calls i = .idle) : w.calls i = .idle := by
  cases h with
  | turn | release | drop => exact hcall
  | begin | read | fail | accept | finish | mint | capture | remember | keep =>
      rcases call_put hcall with ⟨-, hsame⟩ | hcall
      · cases hsame
      · exact hcall

theorem Step.opened {r : EvidenceResponse κ ε} (h : Step w w') (hr : r ∈ w'.opened) :
    r ∈ w.opened ∨ ∃ i req, w.calls i = .running req (.done (.response r)) := by
  cases h with
  | drop opened hopened => exact .inl (hopened r hr)
  | accept i hdone =>
      rcases List.mem_cons.mp hr with rfl | hr
      · exact .inr ⟨i, _, hdone⟩
      · exact .inl hr
  | turn | release | begin | read | fail | finish | mint | capture | remember | keep =>
      exact .inl hr

theorem Step.minted {permit : Permit ε} (h : Step w w') (hmem : (i, permit) ∈ w'.minted) :
    (i, permit) ∈ w.minted ∨ (∃ req, w.calls i = .running req (.done (.permit permit))) ∨
      ∃ req store, w.calls i = .storing req store permit := by
  cases h with
  | mint j hdone =>
      rcases List.mem_cons.mp hmem with hsame | hmem
      · cases hsame; exact .inr (.inl ⟨_, hdone⟩)
      · exact .inl hmem
  | remember j hstoring hslot =>
      rcases List.mem_cons.mp hmem with hsame | hmem
      · cases hsame; exact .inr (.inr ⟨_, _, hstoring⟩)
      · exact .inl hmem
  | turn | release | drop | begin | read | fail | accept | finish | capture | keep =>
      exact .inl hmem

/-- What was minted stays minted. -/
theorem Step.minted_mono (h : Step w w') : w.minted ⊆ w'.minted := by
  cases h with
  | mint | remember => exact List.subset_cons_self _ _
  | turn | release | drop | begin | read | fail | accept | finish | capture | keep =>
      exact List.Subset.refl _

/-- The call has begun, and is not under way with anything but the request. -/
structure AsksFor (i : ι) (req : Request κ ε) (w : World κ ε ι) : Prop where
  begun : w.calls i ≠ .idle
  only : ∀ req' q, w.calls i = .running req' q → req' = req

omit [DecidableEq κ] [DecidableEq ε] [DecidableEq ι] in
theorem AsksFor.of_running (h : w.calls i = .running req p) : AsksFor i req w := by
  refine ⟨fun hidle => ?_, fun req' q hcall => ?_⟩
  · rw [h] at hidle; cases hidle
  · rw [h] at hcall
    cases hcall
    rfl

/-- A call asks for the same thing to its end. -/
theorem Step.asksFor (h : Step w w') (hw : AsksFor i req w) : AsksFor i req w' := by
  refine ⟨fun hidle => hw.begun (h.idle hidle), fun req' q hcall => ?_⟩
  rcases h.running hcall with hbefore | ⟨hidle, -⟩ | ⟨next, hbefore, -⟩
  · exact hw.only req' q hbefore
  · exact absurd hidle hw.begun
  · exact hw.only req' _ hbefore

end Steps

/-! ### Runs -/

namespace Run

variable {σ : Nat → World κ ε ι} {m n : Nat} {i : ι} {req : Request κ ε}
  {p : Prog (Shared κ ε) (Reply κ ε)} {reply : Reply κ ε}

theorem keeps (h : Run σ) {I : World κ ε ι → Prop} (hm : I (σ m))
    (hstep : ∀ w w', Step w w' → I w → I w') (hle : m ≤ n) : I (σ n) := by
  induction n, hle using Nat.le_induction with
  | base => exact hm
  | succ n _ ih =>
      rcases h.next n with hsame | hnext
      · rw [hsame]; exact ih
      · exact hstep _ _ hnext ih

theorem sound (h : Run σ) (n : Nat) : (σ n).shared.Sound :=
  h.keeps (m := 0) h.started.sound (fun _ _ hstep => hstep.sound) (Nat.zero_le n)

/-- What has happened to a directory has happened for good. -/
theorem history (h : Run σ) {root : String} {c : Incarnation}
    (hc : c ∈ ((σ m).shared.disk root).history) (hle : m ≤ n) :
    c ∈ ((σ n).shared.disk root).history :=
  h.keeps (I := fun w => c ∈ (w.shared.disk root).history) hc (fun _ _ hstep => hstep.history) hle

/-- Epochs only advance. -/
theorem epoch (h : Run σ) (e : ε) (hle : m ≤ n) : (σ m).shared.epoch e ≤ (σ n).shared.epoch e :=
  h.keeps (I := fun w => (σ m).shared.epoch e ≤ w.shared.epoch e) (Nat.le_refl _)
    (fun _ _ hstep hI => Nat.le_trans hI (hstep.epoch e)) hle

theorem minted_mono (h : Run σ) {i : ι} {permit : Permit ε} (hmem : (i, permit) ∈ (σ m).minted)
    (hle : m ≤ n) : (i, permit) ∈ (σ n).minted :=
  h.keeps (I := fun w => (i, permit) ∈ w.minted) hmem (fun _ _ hstep hI => hstep.minted_mono hI) hle

/-- **Every call that is under way has a beginning**, and has stood where it does since its last
sample. -/
theorem asked (h : Run σ) (hcall : (σ n).calls i = .running req p) :
    ∃ b m, m ≤ n ∧ Asked σ i req b m p ∧
      ∀ t, m ≤ t → t ≤ n → (σ t).calls i = .running req p := by
  induction n generalizing p with
  | zero => rw [h.started.calls] at hcall; cases hcall
  | succ n ih =>
      have hstay : (σ n).calls i = .running req p → ∃ b m, m ≤ n + 1 ∧ Asked σ i req b m p ∧
          ∀ t, m ≤ t → t ≤ n + 1 → (σ t).calls i = .running req p := fun hbefore => by
        obtain ⟨b, m, hle, hasked, hwaits⟩ := ih hbefore
        refine ⟨b, m, Nat.le_succ_of_le hle, hasked, fun t hmt ht => ?_⟩
        rcases Nat.lt_or_eq_of_le ht with ht | rfl
        · exact hwaits t hmt (Nat.le_of_lt_succ ht)
        · exact hcall
      rcases h.next n with hsame | hnext
      · rw [hsame] at hcall; exact hstay hcall
      · rcases hnext.running hcall with hbefore | ⟨-, rfl, hallowed⟩ | ⟨next, hbefore, rfl⟩
        · exact hstay hbefore
        · refine ⟨n + 1, n + 1, Nat.le_refl _, ⟨hallowed, .rest hcall⟩, fun t hle ht => ?_⟩
          rw [Nat.le_antisymm ht hle]
          exact hcall
        · obtain ⟨b, m, hle, hasked, hwaits⟩ := ih hbefore
          refine ⟨b, n + 1, Nat.le_refl _, ⟨hasked.allowed, hasked.runs.snoc hle hwaits hcall⟩,
            fun t hle ht => ?_⟩
          rw [Nat.le_antisymm ht hle]
          exact hcall

theorem returned (h : Run σ) (hcall : (σ n).calls i = .returned req reply)
    (hreply : reply ≠ .nothing) : ∃ b m, m ≤ n ∧ Asked σ i req b m (.done reply) := by
  induction n with
  | zero => rw [h.started.calls] at hcall; cases hcall
  | succ n ih =>
      have hstay : (σ n).calls i = .returned req reply →
          ∃ b m, m ≤ n + 1 ∧ Asked σ i req b m (.done reply) := fun hbefore => by
        obtain ⟨b, m, hle, hasked⟩ := ih hbefore
        exact ⟨b, m, Nat.le_succ_of_le hle, hasked⟩
      rcases h.next n with hsame | hnext
      · rw [hsame] at hcall; exact hstay hcall
      · rcases hnext.returned hcall with hbefore | hdone | hnothing
        · exact hstay hbefore
        · obtain ⟨b, m, hle, hasked, -⟩ := h.asked hdone
          exact ⟨b, m, Nat.le_succ_of_le hle, hasked⟩
        · exact absurd hnothing hreply

theorem opened (h : Run σ) {r : EvidenceResponse κ ε} (hr : r ∈ (σ n).opened) :
    ∃ i req b m, m ≤ n ∧ Asked σ i req b m (.done (.response r)) := by
  induction n with
  | zero => rw [h.started.opened] at hr; cases hr
  | succ n ih =>
      have hstay : r ∈ (σ n).opened →
          ∃ i req b m, m ≤ n + 1 ∧ Asked σ i req b m (.done (.response r)) := fun hbefore => by
        obtain ⟨i, req, b, m, hle, hasked⟩ := ih hbefore
        exact ⟨i, req, b, m, Nat.le_succ_of_le hle, hasked⟩
      rcases h.next n with hsame | hnext
      · rw [hsame] at hr; exact hstay hr
      · rcases hnext.opened hr with hbefore | ⟨i, req, hdone⟩
        · exact hstay hbefore
        · obtain ⟨b, m, hle, hasked, -⟩ := h.asked hdone
          exact ⟨i, req, b, m, Nat.le_succ_of_le hle, hasked⟩

theorem request (h : Run σ) {req' : Request κ ε} {q : Prog (Shared κ ε) (Reply κ ε)}
    (hm : (σ m).calls i = .running req p) (hn : (σ n).calls i = .running req' q) :
    req' = req := by
  rcases Nat.le_total m n with hle | hle
  · have hkept := h.keeps (AsksFor.of_running hm) (fun _ _ hstep => hstep.asksFor) hle
    exact hkept.only req' q hn
  · have hkept := h.keeps (AsksFor.of_running hn) (fun _ _ hstep => hstep.asksFor) hle
    exact (hkept.only req p hm).symm

end Run

/-! ### What requests come to -/

section Replies

variable {σ : Nat → World κ ε ι} {i : ι} {req : Request κ ε} {b m : Nat}

variable {r : EvidenceResponse κ ε}

omit [DecidableEq κ] [DecidableEq ε] [DecidableEq ι] in
theorem Asked.response (h : Asked σ i req b m (.done (.response r))) :
    (∃ store, req = .evidenceResponse store ∧
      ∃ stands, Runs (moments σ) stands b (evidenceResponse store) m (.done r)) ∨
    ∃ store permit session, req = .evidenceResponsePreH store permit session ∧
      ∃ stands, Runs (moments σ) stands b (evidenceResponsePreH store permit session) m
        (.done r) := by
  have hruns := h.runs
  cases req with
  | evidenceResponse store =>
      obtain ⟨m', r', hr, hdone⟩ := runs_bind hruns
      obtain ⟨rfl, hsame⟩ := runs_done hdone
      cases hsame
      exact .inl ⟨store, rfl, _, hr⟩
  | evidenceResponsePreH store permit session =>
      obtain ⟨m', r', hr, hdone⟩ := runs_bind hruns
      obtain ⟨rfl, hsame⟩ := runs_done hdone
      cases hsame
      exact .inr ⟨store, permit, session, rfl, _, hr⟩
  | finish | preHReadPermit =>
      obtain ⟨m', r', -, hdone⟩ := runs_bind hruns
      cases (runs_done hdone).2
  | rememberReadOnlyPredecessor =>
      obtain ⟨m', proved, -, hdone⟩ := runs_bind hruns
      cases proved <;> cases (runs_done hdone).2

omit [DecidableEq κ] [DecidableEq ε] [DecidableEq ι] in
theorem Asked.permit {permit : Permit ε} (h : Asked σ i req b m (.done (.permit permit))) :
    ∃ store r session epoch k, req = .preHReadPermit store r session epoch ∧
      Runs (moments σ) (fun t p => Stands σ i req t (p >>= k)) b
        (preHReadPermit store r session epoch) m (.done permit) := by
  have hruns := h.runs
  cases req with
  | preHReadPermit store r session epoch =>
      obtain ⟨m', permit', hpermit, hdone⟩ := runs_bind hruns
      obtain ⟨rfl, hsame⟩ := runs_done hdone
      cases hsame
      exact ⟨store, r, session, epoch, _, rfl, hpermit⟩
  | evidenceResponse | evidenceResponsePreH | finish =>
      obtain ⟨m', r', -, hdone⟩ := runs_bind hruns
      cases (runs_done hdone).2
  | rememberReadOnlyPredecessor =>
      obtain ⟨m', proved, -, hdone⟩ := runs_bind hruns
      cases proved <;> cases (runs_done hdone).2

omit [DecidableEq κ] [DecidableEq ε] [DecidableEq ι] in
theorem Asked.proved {store : Store κ} {epoch : ε} {pin : IndexPin}
    {predecessor : Incarnation} (h : Asked σ i (.rememberReadOnlyPredecessor store r epoch) b m
      (.done (.proved pin predecessor))) :
    ∃ k, Runs (moments σ)
      (fun t p => Stands σ i (.rememberReadOnlyPredecessor store r epoch) t (p >>= k)) b
      (rememberReadOnlyPredecessor store r) m (.done (some (pin, predecessor))) := by
  obtain ⟨m', proved, hproved, hdone⟩ := runs_bind h.runs
  obtain ⟨rfl, hsame⟩ := runs_done hdone
  cases proved with
  | none => cases hsame
  | some head => cases hsame; exact ⟨_, hproved⟩

omit [DecidableEq κ] [DecidableEq ε] [DecidableEq ι] in
theorem Asked.finish {reply : Reply κ ε} (h : Asked σ i (.finish r) b m (.done reply)) :
    ∃ stands, Runs (moments σ) stands b r.finish m (.done ()) := by
  obtain ⟨m', _, hfinish, hdone⟩ := runs_bind h.runs
  obtain ⟨rfl, -⟩ := runs_done hdone
  exact ⟨_, hfinish⟩

end Replies

/-! ### Borrowed sessions -/

section Sessions

variable {s t : Shared κ ε} {w w' : World κ ε ι} {guard : LeaderGuard}

/-- A turn leaves alone a lock that is held. -/
theorem Turn.held (h : Turn s t) (hlock : (s.disk guard.identity.root).lock = .held guard) :
    (t.disk guard.identity.root).lock = .held guard := by
  have hset : ∀ root d, (guard.identity.root = root → d.lock = .held guard) →
      ((s.setDisk root d).disk guard.identity.root).lock = .held guard := fun root d hd => by
    by_cases hroot : guard.identity.root = root
    · rw [hroot, disk_setDisk_same]; exact hd hroot
    · rw [disk_setDisk_other hroot]; exact hlock
  cases h with
  | commit | replace | probe => exact hset _ _ fun hroot => hroot ▸ hlock
  | take root hfree =>
      refine hset _ _ fun hroot => ?_
      rw [← hroot, hlock] at hfree
      cases hfree
  | truncate root predecessor htaken =>
      refine hset _ _ fun hroot => ?_
      rw [← hroot, hlock] at htaken
      cases htaken
  | write other htruncated hfresh =>
      refine hset _ _ fun hroot => ?_
      rw [← hroot, hlock] at htruncated
      cases htruncated
  | abandon root hnot =>
      refine hset _ _ fun hroot => ?_
      rw [← hroot] at hnot
      exact absurd hlock (hnot guard)
  | recover | advance => exact hlock

theorem Step.held (h : Step w w') (hlock : (w.shared.disk guard.identity.root).lock = .held guard)
    (hused : (∃ i req p, w.calls i = .running req p ∧ req.Uses guard) ∨
      ∃ r ∈ w.opened, r.fence.Uses guard) :
    (w'.shared.disk guard.identity.root).lock = .held guard := by
  cases h with
  | turn hturn => exact hturn.held hlock
  | release other hother hcalls hopened =>
      have hne : guard.identity.root ≠ other.identity.root := fun hroot => by
        rw [← hroot, hlock] at hother
        cases Lock.held.inj hother
        rcases hused with ⟨i, req, p, hcall, huses⟩ | ⟨r, hr, huses⟩
        · exact hcalls i req p hcall huses
        · exact hopened r hr huses
      show ((w.shared.setDisk other.identity.root _).disk guard.identity.root).lock = _
      rw [disk_setDisk_other hne]
      exact hlock
  | drop | begin | read | fail | accept | finish | mint | capture | remember | keep => exact hlock

/-- Every session that a response or a call has still has its lock. -/
structure Live (w : World κ ε ι) : Prop where
  calls : ∀ i req p, w.calls i = .running req p → ∀ guard, req.Uses guard →
    (w.shared.disk guard.identity.root).lock = .held guard
  opened : ∀ r ∈ w.opened, ∀ guard, r.fence.Uses guard →
    (w.shared.disk guard.identity.root).lock = .held guard

theorem Step.live (h : Step w w') (haccept : ∀ i req r, w.calls i = .running req (.done (.response r)) →
      ∀ guard, r.fence.Uses guard → req.Uses guard) (hw : Live w) : Live w' := by
  have hcall : ∀ i req p, w.calls i = .running req p → ∀ guard, req.Uses guard →
      (w'.shared.disk guard.identity.root).lock = .held guard := fun i req p hcall guard huses =>
    h.held (hw.calls i req p hcall guard huses) (.inl ⟨i, req, p, hcall, huses⟩)
  have hopened : ∀ r ∈ w'.opened, ∀ guard, r.fence.Uses guard →
      (w'.shared.disk guard.identity.root).lock = .held guard := fun r hr guard huses => by
    rcases h.opened hr with hr | ⟨i, req, hdone⟩
    · exact h.held (hw.opened r hr guard huses) (.inr ⟨r, hr, huses⟩)
    · exact hcall i req _ hdone guard (haccept i req r hdone guard huses)
  refine ⟨fun i req p hrunning guard huses => ?_, hopened⟩
  rcases h.running hrunning with hbefore | ⟨-, -, hallowed⟩ | ⟨next, hbefore, -⟩
  · exact hcall i req p hbefore guard huses
  · rcases huses with ⟨r, hr, huses⟩ | hsession
    · exact hopened r (hallowed.response r hr) guard huses
    · exact hallowed.session guard hsession
  · exact hcall i req _ hbefore guard huses

/-- Every guard that is used holds its lock. -/
theorem Run.live {σ : Nat → World κ ε ι} (h : Run σ) (n : Nat) : Live (σ n) := by
  induction n with
  | zero =>
      refine ⟨fun i req p hcall => ?_, fun r hr => ?_⟩
      · rw [h.started.calls] at hcall; cases hcall
      · rw [h.started.opened] at hr; cases hr
  | succ n ih =>
      rcases h.next n with hsame | hnext
      · rw [hsame]; exact ih
      · refine hnext.live (fun i req r hdone guard huses => ?_) ih
        obtain ⟨b, m, -, hasked, -⟩ := h.asked hdone
        obtain ⟨permit, hfence⟩ := huses
        rcases hasked.response with ⟨store, -, _, hruns⟩ | ⟨store, permit', session, rfl, _, hruns⟩
        · obtain ⟨-, guard', marker, hcurrent, -⟩ := runs_evidenceResponse hruns
          rw [hcurrent] at hfence
          cases hfence
        · obtain ⟨-, hpreH, -⟩ := runs_evidenceResponsePreH hruns
          rw [hpreH] at hfence
          cases hfence
          exact .inr rfl

end Sessions

end System

end Baleyg.Read
