/-
What a fenced read may be believed for.

A fence says nothing about the moment at which a read returns; it says that each of its samples
was so at a moment of the call, and in which order.  For an ordinary read that is enough: the
marker in its snapshot was the recorded incarnation while it was admitted and again while it
finished.  For a transitional read the lock adds the rest: its session has the leader lock all
the time, so what the lock file had before the session's incarnation it has at every moment of
the call, and no incarnation is in two lock files.

A permit vouches for an epoch.  `pre_h_read_permit` loads the epoch before it finishes the read
and again afterwards, and an epoch only goes on, so the read has finished in the epoch of the
permit.  `remember_read_only_predecessor` loads it once, when the read has finished already; the
epoch of its permit may be one in which no read ever finished.
-/
import Baleyg.Lib.Runs
import Baleyg.Read.History

open Baleyg.Topology (WorkspaceIdentity)

namespace Baleyg.Read

open Calls
open Relation (ReflTransGen)
open Calls.Prog (ask ensure require given)

section System

variable {κ ε ι : Type} [DecidableEq κ] [DecidableEq ε] [DecidableEq ι]

/-! ### Fenced reads -/

section Fenced

variable {σ : Nat → World κ ε ι} {m n : Nat} {i : ι} {permit : Permit ε}

/-- **An ordinary read that the call has finished**: its snapshot was committed, and the marker of
it recorded, while the read was admitted; and the marker was recorded while it finished. -/
structure Ordinary (σ : Nat → World κ ε ι) (n : Nat) (i : ι) (r : EvidenceResponse κ ε)
    (marker : Incarnation) : Prop where
  reconciled : r.db.marker = some marker
  read : ∃ a b m b' m', m ≤ b' ∧ m' ≤ n ∧
    Asked σ a (.evidenceResponse r.store) b m (.done (.response r)) ∧
    Sampled (moments σ) b m (fun s => (s.disk r.store.identity.root).db = r.db) ∧
    Sampled (moments σ) b m (fun s => (s.disk r.store.identity.root).content = some marker) ∧
    Asked σ i (.finish r) b' m' (.done .finished) ∧
    Sampled (moments σ) b' m' (fun s => (s.disk r.store.identity.root).content = some marker)

/-- **A transitional read that the call has finished**: its snapshot, which was committed while it
was admitted, has the pin and the marker of its permit; its session had the leader lock at every
moment of the call, as the next after the permit's leader; and the epoch, the root and the
disposition were the permit's. -/
structure Transitional (σ : Nat → World κ ε ι) (n : Nat) (i : ι) (r : EvidenceResponse κ ε)
    (session : LeaderSession) (permit : Permit ε) : Prop where
  pin : r.db.pin = permit.pin
  reconciled : r.db.marker = some permit.predecessor
  identity : permit.identity = r.store.identity
  minted : ∃ j, (j, permit) ∈ (σ n).minted
  read : ∃ a b m b' m' guard, m ≤ b' ∧ m' ≤ n ∧ session = .leader guard ∧
    Asked σ a (.evidenceResponsePreH r.store permit session) b m (.done (.response r)) ∧
    Sampled (moments σ) b m (fun s => (s.disk r.store.identity.root).db = r.db) ∧
    Asked σ i (.finish r) b' m' (.done .finished) ∧
    (∀ t, b' ≤ t → t < m' → ((σ t).shared.disk r.store.identity.root).lock = .held guard ∧
      ∃ rest, ((σ t).shared.disk r.store.identity.root).history =
        guard.incarnation :: permit.predecessor :: rest) ∧
    Sampled (moments σ) b' m' (fun s => s.epoch permit.epoch = permit.capturedEpoch) ∧
    Sampled (moments σ) b' m'
      (fun s => (s.disk r.store.identity.root).directory = some permit.identity) ∧
    Sampled (moments σ) b' m' (fun s => (s.memory r.store.memory).disposition = .ready)

/-- From `a` to `f` the call finishes the read, whatever it does next. -/
def Finishes (σ : Nat → World κ ε ι) (i : ι) (req : Request κ ε) (r : EvidenceResponse κ ε)
    (a f : Nat) : Prop :=
  ∃ k, Runs (moments σ) (fun t p => Stands σ i req t (p >>= k)) a r.finish f (.done ())

/-- **Where a permit comes from**: a call that was about an ordinary read, and finished it at a
moment at which the epoch was the one of the permit, after public reads were found to be open. -/
def Minted (σ : Nat → World κ ε ι) (n : Nat) (i : ι) (permit : Permit ε) : Prop :=
  ∃ req r guard b a f, Stands σ i req b req.program ∧ req.response = some r ∧
    r ∈ (σ b).opened ∧ r.fence = .current guard permit.predecessor ∧ b ≤ a ∧ f ≤ n ∧
    Finishes σ i req r a f ∧
    (σ f).shared.epoch permit.epoch = permit.capturedEpoch ∧ permit.pin = r.db.pin ∧
    SameRoot permit.identity r.store.identity ∧
    Sampled (moments σ) b a (fun s => (s.memory r.store.memory).recoveryRequired = false)

/-- **Reads are fenced.** -/
structure Fenced (σ : Nat → World κ ε ι) (n : Nat) : Prop where
  ordinary : ∀ i r guard marker, (σ n).calls i = .returned (.finish r) .finished →
    r.fence = .current guard marker → Ordinary σ n i r marker
  transitional : ∀ i r session permit, (σ n).calls i = .returned (.finish r) .finished →
    r.fence = .preH session permit → Transitional σ n i r session permit
  minted : ∀ i permit, (i, permit) ∈ (σ n).minted → Minted σ n i permit
  /-- A call about a transitional read mints nothing. -/
  chain : ∀ i req p r b, (σ b).calls i = .running req p → req.response = some r →
    r.fence.isPreH = true → ∀ permit, (i, permit) ∉ (σ n).minted

omit [DecidableEq κ] [DecidableEq ε] [DecidableEq ι] in
theorem Minted.mono (h : Minted σ m i permit) (hle : m ≤ n) : Minted σ n i permit := by
  obtain ⟨req, r, guard, b, a, f, hbegun, hr, hopened, hfence, hba, hf, hrest⟩ := h
  exact ⟨req, r, guard, b, a, f, hbegun, hr, hopened, hfence, hba, Nat.le_trans hf hle, hrest⟩

variable {r : EvidenceResponse κ ε}

theorem Run.admitted (h : Run σ) {guard : FollowerGuard} {marker : Incarnation}
    (hr : r ∈ (σ n).opened) (hfence : r.fence = .current guard marker) :
    guard.identity = r.store.identity ∧ r.db.marker = some marker ∧ ∃ a b m, m ≤ n ∧
      Asked σ a (.evidenceResponse r.store) b m (.done (.response r)) ∧
      Sampled (moments σ) b m (fun s => (s.disk r.store.identity.root).db = r.db) ∧
      Sampled (moments σ) b m
        (fun s => (s.disk r.store.identity.root).content = some marker) := by
  obtain ⟨a, req, b, m, hm, hasked⟩ := h.opened hr
  rcases hasked.response with ⟨store, rfl, _, hruns⟩ | ⟨store, permit, session, rfl, _, hruns⟩
  · obtain ⟨rfl, guard', marker', hcurrent, hidentity, hmarker, hdb, hcontent⟩ :=
      runs_evidenceResponse hruns
    rw [hfence] at hcurrent
    cases hcurrent
    exact ⟨hidentity, hmarker, a, b, m, hm, hasked, hdb, hcontent⟩
  · obtain ⟨-, hpreH, -⟩ := runs_evidenceResponsePreH hruns
    rw [hfence] at hpreH
    cases hpreH

theorem Run.recorded (h : Run σ) {root : String} {c : Incarnation} {b : Nat}
    (hcontent : Sampled (moments σ) b m (fun s => (s.disk root).content = some c)) (hle : m ≤ n) :
    c ∈ ((σ n).shared.disk root).history := by
  obtain ⟨t, -, htm, hcontent⟩ := hcontent
  obtain ⟨rest, hhistory⟩ := ((h.sound t).disks root).content c hcontent
  refine h.history (m := t) ?_ (Nat.le_trans (Nat.le_of_lt htm) hle)
  rw [hhistory]
  exact List.mem_cons_self

theorem Minted.recorded (h : Run σ) (hminted : Minted σ n i permit) :
    permit.predecessor ∈ ((σ n).shared.disk permit.identity.root).history := by
  obtain ⟨req, r, guard, b, a, f, -, -, hopened, hfence, hba, hf, ⟨_, hfinish⟩, -, -, hroot, -⟩ :=
    hminted
  obtain ⟨-, -, a', b', m', hm', -, -, hcontent⟩ := h.admitted hopened hfence
  rw [hroot.root]
  exact h.recorded hcontent (Nat.le_trans hm' (Nat.le_trans hba (Nat.le_trans hfinish.le hf)))

/-- A permit that is to be stored has the epoch in which its read has finished. -/
theorem Run.storing (h : Run σ) (hsteady : ∀ n, Steady (σ n) (σ (n + 1))) {req : Request κ ε}
    {store : Store κ} (hcall : (σ n).calls i = .storing req store permit) :
    ∃ r epoch pin predecessor b m, req = .rememberReadOnlyPredecessor store r epoch ∧ m ≤ n ∧
      Asked σ i req b m (.done (.proved pin predecessor)) ∧
      permit = ⟨store.identity, pin, predecessor, epoch, (σ m).shared.epoch epoch⟩ := by
  induction n with
  | zero => rw [h.started.calls] at hcall; cases hcall
  | succ n ih =>
      have hstay : (σ n).calls i = .storing req store permit → ∃ r epoch pin predecessor b m,
          req = .rememberReadOnlyPredecessor store r epoch ∧ m ≤ n + 1 ∧
          Asked σ i req b m (.done (.proved pin predecessor)) ∧
          permit = ⟨store.identity, pin, predecessor, epoch, (σ m).shared.epoch epoch⟩ :=
        fun hbefore => by
          obtain ⟨r, epoch, pin, predecessor, b, m, hreq, hm, hrest⟩ := ih hbefore
          exact ⟨r, epoch, pin, predecessor, b, m, hreq, Nat.le_succ_of_le hm, hrest⟩
      rcases h.next n with hsame | hnext
      · rw [hsame] at hcall; exact hstay hcall
      rcases hnext.storing hcall with hbefore | ⟨r, epoch, pin, predecessor, rfl, hdone, hpermit⟩
      · exact hstay hbefore
      obtain ⟨b, m, hm, hasked, hwaits⟩ := h.asked hdone
      -- the call waits from the end of the read on, and the epoch with it
      have hepoch : ∀ t, m ≤ t → t ≤ n → (σ t).shared.epoch epoch = (σ m).shared.epoch epoch := by
        intro t hmt
        induction t, hmt using Nat.le_induction with
        | base => exact fun _ => rfl
        | succ t hmt ih =>
            intro ht
            rw [hsteady t i store r epoch pin predecessor (hwaits t hmt (Nat.le_of_succ_le ht))]
            exact ih (Nat.le_of_succ_le ht)
      rw [hepoch n hm (Nat.le_refl n)] at hpermit
      exact ⟨r, epoch, pin, predecessor, b, m, rfl, Nat.le_succ_of_le hm, hasked, hpermit⟩

theorem Run.minted (h : Run σ) (hsteady : ∀ n, Steady (σ n) (σ (n + 1)))
    (hmem : (i, permit) ∈ (σ n).minted) : Minted σ n i permit := by
  induction n with
  | zero => rw [h.started.minted] at hmem; cases hmem
  | succ n ih =>
      rcases h.next n with hsame | hnext
      · rw [hsame] at hmem; exact (ih hmem).mono (Nat.le_succ n)
      rcases hnext.minted hmem with hbefore | ⟨req, hdone⟩ | ⟨req, store, hstoring⟩
      · exact (ih hbefore).mono (Nat.le_succ n)
      · obtain ⟨b, m, hm, hasked, -⟩ := h.asked hdone
        obtain ⟨store, r, session, epoch, k', rfl, hruns⟩ := hasked.permit
        obtain ⟨guard, t, a, f, t', k, hfence, hbt, hta, hfinish, hft, htm, hbefore, hafter, hpin,
          hroot, hready⟩ := runs_preHReadPermit hruns
        simp only [Prog.bind_bind] at hfinish
        refine ⟨_, r, guard, b, a, f, hasked.runs.begun, rfl, hasked.allowed.response r rfl, hfence,
          Nat.le_trans hbt hta, by omega, ⟨_, hfinish⟩, ?_, hpin, hroot, hready⟩
        -- the epoch was the same before and after, and only goes on
        refine Nat.le_antisymm ?_ ?_
        · exact Nat.le_trans (h.epoch permit.epoch hft) (Nat.le_of_eq hafter)
        · exact Nat.le_trans (Nat.le_of_eq hbefore.symm)
            (h.epoch permit.epoch (Nat.le_trans hta hfinish.le))
      · obtain ⟨r, epoch, pin, predecessor, b, m, rfl, hm, hasked, rfl⟩ :=
          h.storing hsteady hstoring
        obtain ⟨k', hruns⟩ := hasked.proved
        obtain ⟨guard, a, k, hfence, hba, hfinish, hpin, hidentity, hready⟩ := runs_remember hruns
        simp only [Prog.bind_bind] at hfinish
        exact ⟨_, r, guard, b, a, m, hasked.runs.begun, rfl, hasked.allowed.response r rfl, hfence,
          hba, Nat.le_succ_of_le hm, ⟨_, hfinish⟩, rfl, hpin,
          ⟨congrArg _ hidentity, congrArg _ hidentity, congrArg _ hidentity⟩, hready⟩

theorem Run.ordinary (h : Run σ) {guard : FollowerGuard} {marker : Incarnation}
    (hcall : (σ n).calls i = .returned (.finish r) .finished)
    (hfence : r.fence = .current guard marker) : Ordinary σ n i r marker := by
  obtain ⟨b', m', hm', hfinished⟩ := h.returned hcall nofun
  obtain ⟨hidentity, hmarker, a, b, m, hm, hasked, hdb, hcontent⟩ :=
    h.admitted (hfinished.allowed.response r rfl) hfence
  obtain ⟨_, hfinish⟩ := hfinished.finish
  have hagain := (runs_finish_current hfence hfinish).1
  rw [hidentity] at hagain
  exact ⟨hmarker, a, b, m, b', m', hm, hm', hasked, hdb, hcontent, hfinished, hagain⟩

/-- The session of a transitional read is the next after its permit's leader, at any moment of a
call that has it. -/
theorem Run.successor (h : Run σ) (hsteady : ∀ n, Steady (σ n) (σ (n + 1))) {guard : LeaderGuard}
    {req : Request κ ε} {p : Prog (Shared κ ε) (Reply κ ε)} {j : ι}
    (hcall : (σ n).calls i = .running req p) (huses : req.Uses guard)
    (hpredecessor : guard.predecessor = some permit.predecessor)
    (hmem : (j, permit) ∈ (σ n).minted) :
    ((σ n).shared.disk permit.identity.root).lock = .held guard ∧
      ∃ rest, ((σ n).shared.disk permit.identity.root).history =
        guard.incarnation :: permit.predecessor :: rest := by
  have hlock := (h.live n).calls i req p hcall guard huses
  obtain ⟨-, rest, hhistory, hbefore⟩ := ((h.sound n).disks _).held guard hlock
  obtain ⟨rest', rfl⟩ := hbefore _ hpredecessor
  have hrecorded := (h.minted hsteady hmem).recorded h
  have hroot : permit.identity.root = guard.identity.root := by
    refine (h.sound n).apart _ _ permit.predecessor hrecorded ?_
    rw [hhistory]
    exact List.mem_cons_of_mem _ List.mem_cons_self
  rw [hroot]
  exact ⟨hlock, rest', hhistory⟩

theorem Run.transitional (h : Run σ) (hsteady : ∀ n, Steady (σ n) (σ (n + 1)))
    {session : LeaderSession} (hcall : (σ n).calls i = .returned (.finish r) .finished)
    (hfence : r.fence = .preH session permit) : Transitional σ n i r session permit := by
  obtain ⟨b', m', hm', hfinished⟩ := h.returned hcall nofun
  obtain ⟨_, hfinish⟩ := hfinished.finish
  obtain ⟨hvouched, hpin, hmarker⟩ := runs_finish_preH hfence hfinish
  obtain ⟨a, req, b, m, hm, hasked⟩ := h.opened (hfinished.allowed.response r rfl)
  rcases hasked.response with ⟨store, -, _, hruns⟩ | ⟨store, permit', session', rfl, _, hruns⟩
  · obtain ⟨-, guard, marker, hcurrent, -⟩ := runs_evidenceResponse hruns
    rw [hfence] at hcurrent
    cases hcurrent
  obtain ⟨rfl, hpreH, ⟨guard, rfl, hpredecessor⟩, hdb⟩ := runs_evidenceResponsePreH hruns
  rw [hfence] at hpreH
  cases hpreH
  obtain ⟨j, hmem⟩ := hasked.allowed.permit _ _ _ rfl
  have hbn : b ≤ b' := Nat.le_trans hasked.runs.le hm
  have hdirectory := hvouched.directory
  rw [← hvouched.identity] at hdirectory
  refine ⟨hpin, hmarker, hvouched.identity, ⟨j, h.minted_mono hmem ?_⟩, a, b, m, b', m', guard, hm,
    hm', rfl, hasked, hdb, hfinished, fun t hbt htm => ?_, hvouched.epoch, ?_, hvouched.ready⟩
  · exact Nat.le_trans hbn (Nat.le_trans hfinished.runs.le hm')
  · obtain ⟨q, hrunning⟩ := hfinished.runs.between hbt (Nat.le_of_lt htm)
    have huses : (Request.finish r).Uses guard := .inl ⟨r, rfl, permit, hfence⟩
    have hsuccessor := h.successor hsteady hrunning huses hpredecessor
      (h.minted_mono hmem (Nat.le_trans hbn hbt))
    rw [hvouched.identity] at hsuccessor
    exact hsuccessor
  · rw [← hvouched.identity]; exact hdirectory

/-- **Reads are fenced, in every run in which no epoch goes on between the end of a remembered
read and the load of its epoch.** -/
theorem reads_fenced (σ : Nat → World κ ε ι) (h : Run σ)
    (hsteady : ∀ n, Steady (σ n) (σ (n + 1))) (n : Nat) : Fenced σ n where
  ordinary _ _ _ _ hcall hfence := h.ordinary hcall hfence
  transitional _ _ _ _ hcall hfence := h.transitional hsteady hcall hfence
  minted _ _ hmem := h.minted hsteady hmem
  chain := by
    intro i req p r b hcall hr hpreH permit hmem
    obtain ⟨req', r', guard, b', a, f, hcall', hr', -, hfence, -⟩ := h.minted hsteady hmem
    rw [h.request hcall' hcall, hr'] at hr
    cases hr
    rw [hfence] at hpreH
    cases hpreH

end Fenced

/-! ### A run -/

variable {R : World κ ε ι → World κ ε ι → Prop} {i : ι} {w : World κ ε ι}

theorem solo_run {s : Shared κ ε} (hR : ∀ w w', Step w w' → w.shared = s → w'.shared = s → R w w')
    {req : Request κ ε} {reply : Reply κ ε} {p : Prog (Shared κ ε) (Reply κ ε)}
    (hshared : w.shared = s) (hsolo : p.solo s = some reply) (hcall : w.calls i = .running req p) :
    ReflTransGen R w (w.put i (.running req (.done reply))) := by
  induction p generalizing w with
  | done last =>
      cases Option.some.inj hsolo
      have hsame : w.put i (.running req (.done reply)) = w := by
        unfold World.put
        rw [← hcall, Function.update_eq_self]
      rw [hsame]
  | fail => cases hsolo
  | read next ih =>
      have hstep : Step w (w.put i (.running req (next w.shared))) := .read i hcall
      refine .head (hR _ _ hstep hshared hshared) ?_
      have hcall' : (w.put i (.running req (next w.shared))).calls i = .running req (next s) := by
        rw [hshared]
        exact Function.update_self ..
      have hrest := ih s (w := w.put i (.running req (next w.shared))) hshared hsolo hcall'
      unfold World.put at hrest ⊢
      rw [Function.update_idem] at hrest
      exact hrest

theorem asked_run {s : Shared κ ε} (hR : ∀ w w', Step w w' → w.shared = s → w'.shared = s → R w w')
    {req : Request κ ε} {reply : Reply κ ε} (hshared : w.shared = s)
    (hsolo : req.program.solo s = some reply) (hidle : w.calls i = .idle) (hallowed : Allowed w req) :
    ReflTransGen R w (w.put i (.running req (.done reply))) := by
  have hbegin : Step w (w.put i (.running req req.program)) := .begin i req hidle hallowed
  refine .head (hR _ _ hbegin hshared hshared) ?_
  have hrest := solo_run hR (w := w.put i (.running req req.program)) hshared hsolo
    (Function.update_self ..)
  unfold World.put at hrest ⊢
  rw [Function.update_idem] at hrest
  exact hrest

omit [DecidableEq κ] [DecidableEq ε] in
theorem put_put {c d : Call κ ε} : (w.put i c).put i d = w.put i d := by
  unfold World.put
  rw [Function.update_idem]

theorem Run.of_path (hR : ∀ w w', R w w' → Step w w') {w' : World κ ε ι} (hw : Started w)
    (hrun : ReflTransGen R w w') :
    ∃ (σ : Nat → World κ ε ι) (n : Nat), Run σ ∧ (∀ k, n ≤ k → σ k = w') ∧
      ∀ k, k < n → R (σ k) (σ (k + 1)) := by
  obtain ⟨σ, n, hstart, hend, hsteps⟩ := Runs.exists_sequence hrun
  refine ⟨σ, n, ⟨?_, fun k => ?_⟩, hend, hsteps⟩
  · rw [hstart]; exact hw
  · by_cases hk : k < n
    · exact .inr (hR _ _ (hsteps k hk))
    · refine .inl ?_
      rw [hend k (Nat.le_of_not_lt hk), hend (k + 1) (Nat.le_succ_of_le (Nat.le_of_not_lt hk))]

end System

namespace Sample

def identity : WorkspaceIdentity := ⟨"r", "k", 1, 2⟩

/-- A head that the leader of incarnation 7 has reconciled. -/
def db : Snapshot := ⟨some ("r", 1, 2), 8, ⟨9, 1⟩, some 7, true, true⟩

def store : Store Unit := ⟨(), identity⟩

def start : Shared Unit Unit where
  disk _ := ⟨some identity, { db with marker := none }, none, .free, false, []⟩
  memory _ := ⟨.ready, false, none, none⟩
  epoch _ := 1
  used := []

def taken (s : Shared Unit Unit) : Shared Unit Unit :=
  s.setLock "r" (.taken (s.disk "r").content)

def truncated (s : Shared Unit Unit) (predecessor : Option Incarnation) : Shared Unit Unit :=
  (taken s).setDisk "r" { (taken s).disk "r" with lock := .truncated predecessor, content := none }

/-- A leader has taken the lock. -/
def acquired (s : Shared Unit Unit) (guard : LeaderGuard) : Shared Unit Unit :=
  { (truncated s guard.predecessor).setDisk guard.identity.root
    { (truncated s guard.predecessor).disk guard.identity.root with
      lock := .held guard
      content := some guard.incarnation
      history := guard.incarnation ::
        ((truncated s guard.predecessor).disk guard.identity.root).history } with
    used := guard.incarnation :: s.used }

def guard : LeaderGuard := ⟨identity, 7, none⟩

def led : Shared Unit Unit :=
  (acquired start guard).setDisk "r" { (acquired start guard).disk "r" with db }

def world (s : Shared Unit Unit) : World Unit Unit Nat := ⟨s, fun _ => .idle, [], []⟩

def response : EvidenceResponse Unit Unit := ⟨store, db, .current ⟨identity, 7⟩ 7⟩

def read : Request Unit Unit := .evidenceResponse store

def remember : Request Unit Unit := .rememberReadOnlyPredecessor store response ()

def permit (capturedEpoch : Nat) : Permit Unit := ⟨identity, ⟨9, 1⟩, 7, (), capturedEpoch⟩

def advanced : Shared Unit Unit :=
  { led with epoch := Function.update led.epoch () (led.epoch () + 1) }

theorem read_solo : read.program.solo led = some (.response response) := rfl

theorem remember_solo : remember.program.solo led = some (.proved ⟨9, 1⟩ 7) := rfl

theorem finish_solo (p : Permit Unit) :
    (Request.finish response).program.solo (led.remember () p) = some .finished := rfl

def opened : World Unit Unit Nat :=
  { (world led).put 0 (.returned read (.response response)) with opened := [response] }

def proved : World Unit Unit Nat := opened.put 1 (.running remember (.done (.proved ⟨9, 1⟩ 7)))

def stored (s : Shared Unit Unit) (p : Permit Unit) : World Unit Unit Nat :=
  { proved.put 1 (.returned remember .nothing) with
    shared := s.remember () p
    minted := [(1, p)] }

theorem started : Started (world start) where
  calls _ := rfl
  opened := rfl
  minted := rfl
  free _ := rfl
  history _ := rfl
  used _ _ hc := absurd hc List.not_mem_nil
  apart _ _ _ hc := absurd hc List.not_mem_nil

/-- A step in the first epoch. -/
def Quiet (w w' : World Unit Unit Nat) : Prop :=
  Step w w' ∧ w.shared.epoch () = 1 ∧ w'.shared.epoch () = 1

theorem quiet_of {s : Shared Unit Unit} (hs : s.epoch () = 1) (w w' : World Unit Unit Nat)
    (h : Step w w') (hw : w.shared = s) (hw' : w'.shared = s) : Quiet w w' :=
  ⟨h, hw ▸ hs, hw' ▸ hs⟩

theorem acquire_run {w : World Unit Unit Nat} {guard : LeaderGuard} (hidentity : guard.identity = identity)
    (hepoch : w.shared.epoch () = 1) (hfree : (w.shared.disk "r").lock = .free)
    (hprobing : (w.shared.disk "r").probing = false)
    (hcontent : (w.shared.disk "r").content = guard.predecessor)
    (hfresh : guard.incarnation ∉ w.shared.used) :
    ReflTransGen Quiet w { w with shared := acquired w.shared guard } := by
  have htake : Quiet w { w with shared := taken w.shared } :=
    ⟨.turn (.take "r" hfree hprobing), hepoch, hepoch⟩
  have htruncate : Quiet { w with shared := taken w.shared }
      { w with shared := truncated w.shared guard.predecessor } :=
    ⟨.turn (.truncate "r" guard.predecessor (congrArg Lock.taken hcontent)), hepoch, hepoch⟩
  have hlock : ((truncated w.shared guard.predecessor).disk guard.identity.root).lock =
      .truncated guard.predecessor := by
    rw [hidentity]
    rfl
  have hwrite : Quiet { w with shared := truncated w.shared guard.predecessor }
      { w with shared := acquired w.shared guard } :=
    ⟨.turn (.write guard hlock hfresh), hepoch, hepoch⟩
  exact .head htake (.head htruncate (.single hwrite))

theorem proved_run : ReflTransGen Quiet (world start) proved := by
  have hacquire : ReflTransGen Quiet (world start) (world (acquired start guard)) :=
    acquire_run rfl rfl rfl rfl rfl List.not_mem_nil
  have hcommit : Quiet (world (acquired start guard)) (world led) :=
    ⟨.turn (.commit "r" db), rfl, rfl⟩
  have hread : ReflTransGen Quiet (world led)
      ((world led).put 0 (.running read (.done (.response response)))) :=
    asked_run (quiet_of rfl) rfl read_solo rfl ⟨nofun, nofun, nofun⟩
  have haccept : Quiet ((world led).put 0 (.running read (.done (.response response)))) opened := by
    refine quiet_of (s := led) rfl _ _ ?_ rfl rfl
    have hstep := Step.accept (w := (world led).put 0 (.running read (.done (.response response)))) 0
      rfl
    rw [put_put] at hstep
    exact hstep
  have hremember : ReflTransGen Quiet opened proved := by
    refine asked_run (quiet_of rfl) rfl remember_solo rfl ⟨fun r hr => ?_, nofun, nofun⟩
    cases Option.some.inj hr
    exact List.mem_singleton_self _
  exact hacquire.trans (.head hcommit (hread.trans (.head haccept hremember)))

theorem stored_steps (s : Shared Unit Unit) (hs : (s.memory ()).readOnlyPredecessor = none) :
    Step { proved with shared := s }
      { proved.put 1 (.storing remember store (permit (s.epoch ()))) with shared := s } ∧
    Step { proved.put 1 (.storing remember store (permit (s.epoch ()))) with shared := s }
      (stored s (permit (s.epoch ()))) := by
  constructor
  · exact .capture (w := { proved with shared := s }) 1 rfl
  · have hstep := Step.remember
      (w := { proved.put 1 (.storing remember store (permit (s.epoch ()))) with shared := s }) 1
      rfl (fun previous hprevious => by
        change (s.memory ()).readOnlyPredecessor = some previous at hprevious
        rw [hs] at hprevious
        cases hprevious)
    have hsame : ({ proved.put 1 (.storing remember store (permit (s.epoch ()))) with shared := s } :
        World Unit Unit Nat).put 1 (.returned remember .nothing) =
        { proved.put 1 (.returned remember .nothing) with shared := s } := by
      unfold World.put
      rw [Function.update_idem]
    rw [hsame] at hstep
    exact hstep

/-- The permit is remembered, and the read finished once more. -/
def ended : World Unit Unit Nat :=
  (stored led (permit 1)).put 2 (.returned (.finish response) .finished)

theorem ended_run : ReflTransGen Quiet (world start) ended := by
  obtain ⟨hcapture, hremember⟩ := stored_steps led rfl
  have hfinish : ReflTransGen Quiet (stored led (permit 1))
      ((stored led (permit 1)).put 2 (.running (.finish response) (.done .finished))) := by
    refine asked_run (quiet_of rfl) rfl (finish_solo (permit 1)) rfl ⟨fun r hr => ?_, nofun, nofun⟩
    cases Option.some.inj hr
    exact List.mem_singleton_self _
  have hreturn := Step.finish (w := (stored led (permit 1)).put 2
    (.running (.finish response) (.done .finished))) 2 rfl (.inl rfl)
  rw [put_put] at hreturn
  exact proved_run.trans (.head ⟨hcapture, rfl, rfl⟩ (.head ⟨hremember, rfl, rfl⟩
    (hfinish.trans (.single ⟨hreturn, rfl, rfl⟩))))

/-- The next leader, which has not published. -/
def successor : LeaderGuard := ⟨identity, 8, some 7⟩

def passed : Shared Unit Unit := acquired (ended.shared.setLock "r" .free) successor

def transitional : EvidenceResponse Unit Unit := ⟨store, db, .preH (.leader successor) (permit 1)⟩

def follow : Request Unit Unit := .evidenceResponsePreH store (permit 1) (.leader successor)

theorem follow_solo : follow.program.solo passed = some (.response transitional) := rfl

theorem finish_follow_solo :
    (Request.finish transitional).program.solo passed = some .finished := rfl

def reopened : World Unit Unit Nat :=
  { ({ ended with shared := passed } : World Unit Unit Nat).put 3
      (.returned follow (.response transitional)) with
    opened := [transitional, response] }

theorem reopened_run : ReflTransGen Quiet ended reopened := by
  have hcalls : ∀ i req p, ended.calls i = .running req p → ¬ req.Uses guard := by
    intro i req p hcall
    simp only [ended, stored, proved, opened, World.put, Function.update_apply] at hcall
    split_ifs at hcall
    cases hcall
  have hopened : ∀ r ∈ ended.opened, ¬ r.fence.Uses guard := by
    intro r hr
    rw [List.mem_singleton.mp hr]
    exact nofun
  have hrelease : Quiet ended { ended with shared := ended.shared.setLock "r" .free } :=
    ⟨.release guard rfl hcalls hopened, rfl, rfl⟩
  have hacquire : ReflTransGen Quiet { ended with shared := ended.shared.setLock "r" .free }
      { ended with shared := passed } :=
    acquire_run rfl rfl rfl rfl rfl (by decide)
  have hfollow : ReflTransGen Quiet { ended with shared := passed }
      (({ ended with shared := passed } : World Unit Unit Nat).put 3
        (.running follow (.done (.response transitional)))) := by
    refine asked_run (quiet_of rfl) rfl follow_solo rfl ⟨nofun, fun guard hguard => ?_, ?_⟩
    · cases Option.some.inj hguard
      rfl
    · intro store' permit' session' h
      cases h
      exact ⟨1, List.mem_singleton_self _⟩
  have haccept := Step.accept (w := ({ ended with shared := passed } : World Unit Unit Nat).put 3
    (.running follow (.done (.response transitional)))) 3 rfl
  rw [put_put] at haccept
  exact .head hrelease (hacquire.trans (hfollow.trans (.single ⟨haccept, rfl, rfl⟩)))

/-- The transitional read has been finished, too. -/
def followed : World Unit Unit Nat :=
  reopened.put 4 (.returned (.finish transitional) .finished)

theorem followed_run : ReflTransGen Quiet (world start) followed := by
  have hfinish : ReflTransGen Quiet reopened
      (reopened.put 4 (.running (.finish transitional) (.done .finished))) := by
    refine asked_run (quiet_of rfl) rfl finish_follow_solo rfl ⟨fun r hr => ?_, nofun, nofun⟩
    cases Option.some.inj hr
    exact List.mem_cons_self
  have hreturn := Step.finish (w := reopened.put 4
    (.running (.finish transitional) (.done .finished))) 4 rfl (.inl rfl)
  rw [put_put] at hreturn
  exact ended_run.trans (reopened_run.trans (hfinish.trans (.single ⟨hreturn, rfl, rfl⟩)))

end Sample

/-- **A permit whose epoch never had a finished read.**  The epoch goes on between the end of the
read and the load. -/
theorem reads_unfenced : ∃ (σ : Nat → World Unit Unit Nat) (n : Nat), Run σ ∧
    (1, Sample.permit 2) ∈ (σ n).minted ∧ ¬ Minted σ n 1 (Sample.permit 2) ∧ ¬ Fenced σ n := by
  -- in the second epoch the call makes no read
  let R (w w' : World Unit Unit Nat) : Prop :=
    Step w w' ∧ (w'.shared.epoch () = 2 → ∀ req next, w.calls 1 ≠ .running req (.read next))
  have hquiet : ∀ w w', Sample.Quiet w w' → R w w' := fun w w' hquiet => ⟨hquiet.1, fun hepoch => by
    rw [hquiet.2.2] at hepoch
    cases hepoch⟩
  have hproved : ReflTransGen R (Sample.world Sample.start) Sample.proved :=
    ReflTransGen.mono hquiet _ _ Sample.proved_run
  have hadvance : R Sample.proved { Sample.proved with shared := Sample.advanced } :=
    ⟨.turn (.advance ()), fun _ req next => nofun⟩
  obtain ⟨hcapture, hremember⟩ := Sample.stored_steps Sample.advanced rfl
  have hpath : ReflTransGen R (Sample.world Sample.start)
      (Sample.stored Sample.advanced (Sample.permit 2)) :=
    hproved.trans (.head hadvance (.head ⟨hcapture, fun _ req next => nofun⟩
      (.single ⟨hremember, fun _ req next => nofun⟩)))
  obtain ⟨σ, n, hrun, hend, hsteps⟩ := Run.of_path (fun _ _ h => h.1) Sample.started hpath
  have hmem : (1, Sample.permit 2) ∈ (σ n).minted := by
    rw [hend n (Nat.le_refl n)]
    exact List.mem_singleton_self _
  have hnot : ¬ Minted σ n 1 (Sample.permit 2) := by
    rintro ⟨req, r, guard, b, a, f, -, -, -, -, -, hf, ⟨k, hfinish⟩, hepoch, -⟩
    rcases hfinish.last with hdone | ⟨t, next, rfl, hstands⟩
    · change Prog.read _ = Prog.done _ at hdone
      cases hdone
    · exact (hsteps t hf).2 hepoch _ _ hstands
  exact ⟨σ, n, hrun, hmem, hnot, fun hfenced => hnot (hfenced.minted _ _ hmem)⟩

/-- An ordinary read, a permit of the epoch in which it has finished, and a transitional read under
the next leader. -/
theorem reads_fenced_sample : ∃ (σ : Nat → World Unit Unit Nat) (n : Nat), Run σ ∧
    (1, Sample.permit 1) ∈ (σ n).minted ∧
    (σ n).calls 2 = .returned (.finish Sample.response) .finished ∧
    (σ n).calls 4 = .returned (.finish Sample.transitional) .finished ∧ Fenced σ n := by
  obtain ⟨σ, n, hrun, hend, hsteps⟩ :=
    Run.of_path (fun _ _ h => h.1) Sample.started Sample.followed_run
  have hsteady : ∀ k, Steady (σ k) (σ (k + 1)) := fun k => by
    intro i store r epoch pin predecessor _
    by_cases hk : k < n
    · exact (hsteps k hk).2.2.trans (hsteps k hk).2.1.symm
    · rw [hend k (Nat.le_of_not_lt hk), hend (k + 1) (Nat.le_succ_of_le (Nat.le_of_not_lt hk))]
  refine ⟨σ, n, hrun, ?_, ?_, ?_, reads_fenced σ hrun hsteady n⟩
  · rw [hend n (Nat.le_refl n)]; exact List.mem_singleton_self _
  · rw [hend n (Nat.le_refl n)]; rfl
  · rw [hend n (Nat.le_refl n)]; rfl

end Baleyg.Read
