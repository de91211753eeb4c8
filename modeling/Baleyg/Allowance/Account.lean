/-
The books as a prepaid account, and what they say of a run.

Once the ledger is made, the reservations that were committed and the calls that were
started are a prepaid account with the cap as its limit, and every step, by whomever, is
a step of that account or none.  So what holds of accounts holds of runs: the calls stay
within the cap, no reservation goes away, and each call had one to itself beforehand.
-/
import Baleyg.Allowance.Guarded

namespace Baleyg.Allowance

open Relation

variable {ρ ο : Type} {K : Ledger ρ ο}

/-! ### The account -/

section Account

variable {w w' : World ρ ο} {b : Binding}

theorem World.Binds.paid_eq (hb : w.Binds K b) :
    ∃ i v, w.committed = some (i, v) ∧ K.Bound b v ∧ w.paid K = K.keys v := by
  obtain ⟨i, v, hv, hbound⟩ := hb
  exact ⟨i, v, hv, hbound, paid_of_committed hv⟩

theorem World.Binds.unique {a : Binding} (ha : w.Binds K a) (hb : w.Binds K b) : a = b := by
  obtain ⟨i, v, hv, hbound⟩ := ha
  obtain ⟨j, u, hu, hbound'⟩ := hb
  rw [hv] at hu
  cases hu
  exact hbound.unique hbound'

/-- **The books of a guarded directory whose ledger is made.** -/
def Guarded.account (hw : Guarded K w) (hb : w.Binds K b) : Prepaid.Account String where
  limit := b.cap
  price := K.price
  paid := w.paid K
  used := w.calls
  paid_nodup := by
    obtain ⟨i, v, -, hbound, hpaid⟩ := hb.paid_eq
    rw [hpaid]
    exact hbound.nodup
  used_nodup := hw.books.nodup
  used_paid := hw.books.paid
  within := by
    obtain ⟨i, v, -, hbound, hpaid⟩ := hb.paid_eq
    rw [hpaid, Ledger.keys, List.length_map]
    exact hbound.within

theorem Step.binds (h : Step K w w') (hw : Guarded K w) (hK : K.Lawful) (hb : w.Binds K b) :
    w'.Binds K b := by
  cases h with
  | bind hpoint hbind hlands => exact (hw.bind_commits hK hpoint hbind).1.binds hb
  | reserve id hpoint hreserve hlands => exact (hw.reserve_commits hK hpoint hreserve).1.binds hb
  | record hpoint hrecord hlands => exact (hw.record_commits hK hpoint hrecord).1.binds hb
  | _ => exact hb

theorem Moves.binds (h : Moves K w w') (hw : Guarded K w) (hK : K.Lawful) (hb : w.Binds K b) :
    w'.Binds K b := by
  rcases h with hstep | htampers
  · exact hstep.binds hw hK hb
  · cases htampers <;> exact hb

theorem Moves.books (h : Moves K w w') (hw : Guarded K w) (hK : K.Lawful) : Books K w w' := by
  rcases h with hstep | htampers
  · exact hstep.books hw hK
  · exact htampers.books

/-- **A step is a step of the account or none.** -/
theorem Moves.account (h : Moves K w w') (hw : Guarded K w) (hK : K.Lawful)
    (hb : w.Binds K b) :
    hw.account hb = (h.guarded hw hK).account (h.binds hw hK hb) ∨
      Prepaid.Step (hw.account hb) ((h.guarded hw hK).account (h.binds hw hK hb)) := by
  cases h.books hw hK with
  | none hpaid hcalls hheld =>
      left
      ext1
      · rfl
      · rfl
      · exact hpaid.symm
      · exact hcalls.symm
  | pay t id hpaid hcalls hnew hmine hheld hroom =>
      right
      have hwithin := ((h.guarded hw hK).account (h.binds hw hK hb)).within
      have hroom : K.price * ((w.paid K).length + 1) ≤ b.cap := by
        have hlength : (w'.paid K).length = (w.paid K).length + 1 := by
          rw [hpaid, List.length_append, List.length_singleton]
        rw [← hlength]
        exact hwithin
      have hstep := Prepaid.Step.pay (a := hw.account hb) hnew hroom
      have heq : (hw.account hb).pay id hnew hroom
          = (h.guarded hw hK).account (h.binds hw hK hb) := by
        ext1
        · rfl
        · rfl
        · exact hpaid.symm
        · exact hcalls.symm
      exact heq ▸ hstep
  | spend t id hpaid hcalls hmine hgone hheld =>
      right
      obtain ⟨hmem, hfresh⟩ := hw.books.held t id hmine
      have hstep := Prepaid.Step.spend (a := hw.account hb) hmem hfresh
      have heq : (hw.account hb).spend id hmem hfresh
          = (h.guarded hw hK).account (h.binds hw hK hb) := by
        ext1
        · rfl
        · rfl
        · exact hpaid.symm
        · exact hcalls.symm
      exact heq ▸ hstep

end Account

/-! ### Runs -/

/-- A directory that was empty, and everything that may have happened since. -/
def Reached (K : Ledger ρ ο) (w : World ρ ο) : Prop :=
  Runs.Reachable (· = .start) (Moves K) w

section Runs

variable {w w' : World ρ ο} {b : Binding}

theorem Reached.guarded (h : Reached K w) (hK : K.Lawful) : Guarded K w :=
  h.keeps (fun _ hs => hs ▸ guarded_start) fun _ _ hmove hw => hmove.guarded hw hK

theorem guarded_of_run (hK : K.Lawful) (hrun : ReflTransGen (Moves K) w w') (hw : Guarded K w) :
    Guarded K w' :=
  Runs.keeps_run (fun _ _ hmove hw => hmove.guarded hw hK) hrun hw

theorem binds_of_run (hK : K.Lawful) (hrun : ReflTransGen (Moves K) w w') (hw : Guarded K w)
    (hb : w.Binds K b) : w'.Binds K b := by
  refine (Runs.keeps_run (I := fun s => Guarded K s ∧ s.Binds K b) ?_ hrun ⟨hw, hb⟩).2
  exact fun s t hmove hs => ⟨hmove.guarded hs.1 hK, hmove.binds hs.1 hK hs.2⟩

/-- **A run is a run of the account.** -/
theorem account_of_run (hK : K.Lawful) (hrun : ReflTransGen (Moves K) w w') (hw : Guarded K w)
    (hb : w.Binds K b) :
    ReflTransGen Prepaid.Step (hw.account hb)
      ((guarded_of_run hK hrun hw).account (binds_of_run hK hrun hw hb)) := by
  induction hrun with
  | refl => exact .refl
  | @tail s t hfirst hlast ih =>
      rcases hlast.account (guarded_of_run hK hfirst hw) hK (binds_of_run hK hfirst hw hb) with
        hsame | hstep
      · rw [← hsame]; exact ih
      · exact ih.tail hstep

/-- **No reservation goes away**, not even with the file that holds it. -/
theorem paid_prefix_of_run (hK : K.Lawful) (hrun : ReflTransGen (Moves K) w w')
    (hw : Guarded K w) : w.paid K <+: w'.paid K := by
  cases hcommitted : w.committed with
  | none => rw [paid_of_none hcommitted]; exact List.nil_prefix
  | some last =>
      obtain ⟨i, v⟩ := last
      obtain ⟨-, b, hbound⟩ := hw.files.bound i v hcommitted
      exact Prepaid.paid_prefix_of_run (account_of_run hK hrun hw ⟨i, v, hcommitted, hbound⟩)

/-- **Each call had a reservation to itself**, committed before it was started. -/
theorem Moves.calls (h : Moves K w w') (hw : Guarded K w) (hK : K.Lawful) :
    w'.calls = w.calls ∨ ∃ id ∈ w.paid K, id ∉ w.calls ∧ w'.calls = id :: w.calls := by
  cases h.books hw hK with
  | none hpaid hcalls hheld | pay t id hpaid hcalls hnew hmine hheld hroom => exact .inl hcalls
  | spend t id hpaid hcalls hmine hgone hheld =>
      obtain ⟨hmem, hfresh⟩ := hw.books.held t id hmine
      exact .inr ⟨id, hmem, hfresh, hcalls⟩

/-- **The calls stay within the cap.** -/
theorem Guarded.calls_within (hw : Guarded K w) (hb : w.Binds K b) :
    K.price * w.calls.length ≤ b.cap :=
  (hw.account hb).used_within

theorem Guarded.calls_eq_nil (hw : Guarded K w) (hnone : w.committed = none) : w.calls = [] := by
  refine List.eq_nil_iff_forall_not_mem.mpr fun id hid => ?_
  have hmem := hw.books.paid hid
  rw [paid_of_none hnone] at hmem
  cases hmem

theorem Guarded.binds_of_opened (hw : Guarded K w) {t : Nat} (h : w.tasks t = .opened b) :
    w.Binds K b :=
  hw.point h

end Runs

/-! ### The first call -/

theorem first_open {b : Binding} {made : Tables ρ} (hcap : K.least ≤ b.cap ∧ b.cap ≤ K.most)
    (hbind : K.bind b false .blank = .ok made) :
    ∃ w, ReflTransGen (Step K) .start w ∧ w.tasks 0 = .opened b ∧
      (∀ t, t ≠ 0 → w.tasks t = .unborn) ∧ w.path = some 0 ∧ w.disk 0 = ⟨some made, none, false⟩ ∧
      w.marker = .synced ∧ w.calls = [] ∧ w.halted 0 = false := by
  have hrun := ReflTransGen.single (Step.call (K := K) (w := .start) (t := 0) b rfl hcap)
  have hrun := hrun.tail (.lock (t := 0) rfl rfl)
  have hrun := hrun.tail (.look (t := 0) rfl)
  have hrun := hrun.tail (.stamp (t := 0) rfl fun h => by cases h)
  have hrun := hrun.tail (.settle (t := 0) rfl)
  have hrun := hrun.tail (.make (t := 0) rfl rfl)
  have hrun := hrun.tail (.connect (t := 0) rfl rfl fun _ h => by cases h)
  have hrun := hrun.tail (@Step.begin _ _ _ _ 0 _ _ (.bind false) _ rfl rfl rfl)
  have hrun := hrun.tail (.bind (t := 0) rfl hbind (.whole (.inl rfl)))
  have hrun := hrun.tail (.finish (t := 0) rfl)
  refine ⟨_, hrun, rfl, fun t ht => ?_, rfl, rfl, rfl, rfl, rfl⟩
  simp [World.commit, World.move, World.write, World.start, ht]

/-- **An empty directory can be opened, and a run on the handle reserves and calls.** -/
theorem first_call {b : Binding} {id : String} {request : List UInt8} {made paid : Tables ρ}
    (hcap : K.least ≤ b.cap ∧ b.cap ≤ K.most) (hbind : K.bind b false .blank = .ok made)
    (hreserve : K.reserve b id request made = .ok paid) :
    ∃ w, ReflTransGen (Step K) .start w ∧ w.ledger = some paid ∧ w.calls = [id] ∧
      w.tasks 0 = .opened b := by
  obtain ⟨w, hrun, hopened, hunborn, hpath, hdisk, hmarker, hcalls, hhalted⟩ :=
    first_open hcap hbind
  have hcontent : (w.disk 0).content = some made := congrArg Inode.content hdisk
  have hwriter : (w.disk 0).writer = none := congrArg Inode.writer hdisk
  have hrun := hrun.tail (.run (t := 1) request (hunborn 1 Nat.one_ne_zero) hopened fun _ => hhalted)
  have hrun := hrun.tail (.connect (t := 1) rfl hpath fun _ => by
    rw [World.move, hmarker]
    exact fun h => by cases h)
  have hrun := hrun.tail
    (@Step.begin _ _ _ _ 1 _ _ (.reserve 0 request) _ rfl hwriter hcontent)
  have hrun := hrun.tail (.reserve (t := 1) id rfl hreserve (.whole (.inl rfl)))
  have hrun := hrun.tail (.start (t := 1) rfl fun _ => hhalted)
  refine ⟨_, hrun, ?_, ?_, hopened⟩
  · simp [World.ledger, World.commit, World.move, World.write, hpath]
  · simp [World.commit, World.move, World.write, hcalls]

end Baleyg.Allowance
