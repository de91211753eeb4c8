/-
Prepaid use.

A service that costs something every time it is used, and must stay within a limit,
can be used safely by paying first: a reservation is entered in the books before each
use, it is never given back, and a use names the reservation it spends.  Then what has
been paid bounds what has been used, whatever happens between the two.

An `Account` is the books together with the proof that they are in order, so an
account that overran its limit or spent a reservation twice cannot be written down.
Its two operations are all that an implementation may do to it.
-/
import Mathlib.Data.List.Infix
import Mathlib.Data.List.Nodup
import Mathlib.Data.List.Perm.Subperm

namespace Prepaid

open Relation

/-- The books of a service paid for in advance. -/
@[ext] structure Account (ι : Type*) where
  limit : Nat
  price : Nat
  /-- The reservations, oldest first. -/
  paid : List ι
  /-- The reservations that were used, newest first. -/
  used : List ι
  paid_nodup : paid.Nodup
  used_nodup : used.Nodup
  used_paid : used ⊆ paid
  within : price * paid.length ≤ limit

namespace Account

variable {ι : Type*} (a : Account ι)

def pay (i : ι) (hnew : i ∉ a.paid) (hroom : a.price * (a.paid.length + 1) ≤ a.limit) :
    Account ι where
  limit := a.limit
  price := a.price
  paid := a.paid ++ [i]
  used := a.used
  paid_nodup := by
    rw [← List.concat_eq_append]
    exact a.paid_nodup.concat hnew
  used_nodup := a.used_nodup
  used_paid := fun _ hj => List.mem_append_left _ (a.used_paid hj)
  within := by rw [List.length_append, List.length_singleton]; exact hroom

/-- Use what has been reserved and not been used. -/
def spend (i : ι) (hpaid : i ∈ a.paid) (hfresh : i ∉ a.used) : Account ι where
  limit := a.limit
  price := a.price
  paid := a.paid
  used := i :: a.used
  paid_nodup := a.paid_nodup
  used_nodup := List.nodup_cons.mpr ⟨hfresh, a.used_nodup⟩
  used_paid := List.cons_subset.mpr ⟨hpaid, a.used_paid⟩
  within := a.within

theorem used_le_paid : a.used.length ≤ a.paid.length :=
  (List.subperm_of_subset a.used_nodup a.used_paid).length_le

/-- **The uses stay within the limit.** -/
theorem used_within : a.price * a.used.length ≤ a.limit :=
  (Nat.mul_le_mul_left _ a.used_le_paid).trans a.within

end Account

inductive Step {ι : Type*} : Account ι → Account ι → Prop where
  | pay {a : Account ι} {i : ι} (hnew : i ∉ a.paid)
      (hroom : a.price * (a.paid.length + 1) ≤ a.limit) : Step a (a.pay i hnew hroom)
  | spend {a : Account ι} {i : ι} (hpaid : i ∈ a.paid) (hfresh : i ∉ a.used) :
      Step a (a.spend i hpaid hfresh)

section Runs

variable {ι : Type*} {a b : Account ι}

theorem Step.paid_prefix (h : Step a b) : a.paid <+: b.paid := by
  cases h with
  | pay hnew hroom => exact List.prefix_append _ _
  | spend hpaid hfresh => exact List.prefix_refl _

/-- **No reservation is ever given back.** -/
theorem paid_prefix_of_run (h : ReflTransGen Step a b) : a.paid <+: b.paid := by
  induction h with
  | refl => exact List.prefix_refl _
  | tail _ hlast ih => exact ih.trans hlast.paid_prefix

end Runs

end Prepaid
