/-
Numbering the rows of every group in order.

A map from a key to the rows of that key is filled row by row, in whatever order the rows come.
Then every group is sorted, and a row gets the place it has.  No two rows of a group may rank the
same, and one look at the row before is enough to see it, for a sort leaves such rows side by side.

What comes out has a closed form: the number of a row is how many rows of its group rank before
it.  That form does not mention the order of the rows, nor the rows of any other group.
-/
import Mathlib.Algebra.BigOperators.Group.List.Basic
import Mathlib.Data.List.Lex
import Mathlib.Data.List.Sort
import Baleyg.Lib.Fallible

namespace Numbering

open Fallible (ensure bind_eq_ok ensure_bind_eq_ok mapM_eq_ok)

variable {α κ ε : Type} [DecidableEq κ]

def push (k : κ) (row : α) : List (κ × List α) → List (κ × List α)
  | [] => [(k, [row])]
  | group :: groups =>
      if group.1 = k then (k, group.2 ++ [row]) :: groups else group :: push k row groups

/-- The groups, in the order of their first rows. -/
def collect (key : α → Except ε κ) : List (κ × List α) → List α → Except ε (List (κ × List α))
  | groups, [] => pure groups
  | groups, row :: rows => do
      let k ← key row
      collect key (push k row groups) rows

/-- The loop over the rows of a group, in order. -/
def number (same : α → α → Bool) (duplicate : ε) :
    Option α → Nat → List α → Except ε (List (α × Nat))
  | _, _, [] => pure []
  | previous, i, row :: rows => do
      ensure (∀ before ∈ previous, same before row = false) duplicate
      let rest ← number same duplicate (some row) (i + 1) rows
      pure ((row, i) :: rest)

def assign (key : α → Except ε κ) (le same : α → α → Bool) (duplicate : ε) (rows : List α) :
    Except ε (List (α × Nat)) := do
  let groups ← collect key [] rows
  let numbered ← groups.mapM fun group => number same duplicate none 0 (group.2.mergeSort le)
  pure numbered.flatten

def SameGroup (key : α → Except ε κ) (a b : α) : Prop := ∃ k, key a = .ok k ∧ key b = .ok k

/-- **What a numbering of the rows of every group owes.** -/
structure Stable (key : α → Except ε κ) (before same : α → α → Prop)
    (assign : List α → Except ε (List (α × Nat))) : Prop where
  /-- It fails for a row without a group, or for two of one group that rank the same. -/
  fails_iff : ∀ rows, (∃ e, assign rows = .error e) ↔
    (∃ row ∈ rows, ∀ k, key row ≠ .ok k) ∨
      ¬ rows.Pairwise fun a b => SameGroup key a b → ¬ same a b
  /-- Otherwise every row gets a number. -/
  numbers : ∀ rows result, assign rows = .ok result → (result.map Prod.fst).Perm rows
  /-- The numbers of a group are those from zero up. -/
  range : ∀ rows result, assign rows = .ok result → ∀ k,
    ((result.filter fun row => (key row.1).toOption = some k).map Prod.snd).Perm
      (List.range (rows.filter fun row => (key row).toOption = some k).length)
  ordered : ∀ rows result, assign rows = .ok result → ∀ a ∈ result, ∀ b ∈ result,
    SameGroup key a.1 b.1 → (a.2 < b.2 ↔ before a.1 b.1)
  /-- The order in which the rows come does not matter. -/
  perm : ∀ rows rows' result, assign rows = .ok result → rows'.Perm rows →
    ∃ result', assign rows' = .ok result' ∧ result'.Perm result
  /-- Nor do the rows of other groups. -/
  frame : ∀ rows more result result', assign rows = .ok result →
    (∀ a ∈ rows, ∀ b ∈ more, ¬ SameGroup key a b) → assign (rows ++ more) = .ok result' →
    result ⊆ result'

/-- The order a sort goes by, and the rows that rank the same. -/
structure Ranks (le same : α → α → Bool) : Prop where
  trans : ∀ a b c, le a b = true → le b c = true → le a c = true
  total : ∀ a b, (le a b || le b a) = true
  same_iff : ∀ a b, same a b = true ↔ le a b = true ∧ le b a = true

/-- A row ranks before another. -/
def earlier (le : α → α → Bool) (a b : α) : Bool := le a b && !le b a

/-- How many rows of its group rank before a row. -/
def place (key : α → Except ε κ) (le : α → α → Bool) (rows : List α) (row : α) : Nat :=
  rows.countP fun other => (key other).toOption = (key row).toOption ∧ earlier le other row = true

omit [DecidableEq κ] in
theorem toOption_eq_some {x : Except ε κ} {k : κ} : x.toOption = some k ↔ x = .ok k := by
  cases x with
  | ok k' => exact ⟨fun h => by rw [Option.some.inj h], fun h => by rw [Except.ok.inj h]; rfl⟩
  | error e => exact ⟨(nomatch ·), (nomatch ·)⟩

/-! ### The groups -/

/-- What the groups are once these rows were put into them. -/
structure Grouped (key : α → Except ε κ) (rows : List α) (groups : List (κ × List α)) : Prop where
  nodup : (groups.map Prod.fst).Nodup
  group : ∀ group ∈ groups, group.2 = rows.filter fun row => (key row).toOption = some group.1
  perm : (groups.flatMap Prod.snd).Perm rows

section Groups

variable {key : α → Except ε κ} {rows : List α} {groups : List (κ × List α)} {k : κ} {row : α}

theorem push_perm (k : κ) (row : α) (groups : List (κ × List α)) :
    ((push k row groups).flatMap Prod.snd).Perm (groups.flatMap Prod.snd ++ [row]) := by
  induction groups with
  | nil => exact List.Perm.refl _
  | cons group groups ih =>
      unfold push
      split
      · rw [List.flatMap_cons, List.flatMap_cons, List.append_assoc, List.append_assoc]
        exact List.perm_append_comm.append_left group.2
      · rw [List.flatMap_cons, List.flatMap_cons, List.append_assoc]
        exact ih.append_left group.2

theorem map_fst_push (k : κ) (row : α) (groups : List (κ × List α)) :
    (push k row groups).map Prod.fst =
      if k ∈ groups.map Prod.fst then groups.map Prod.fst else groups.map Prod.fst ++ [k] := by
  induction groups with
  | nil => rfl
  | cons group groups ih =>
      unfold push
      by_cases hkey : group.1 = k
      · rw [if_pos hkey, List.map_cons, List.map_cons, if_pos (by rw [hkey]; exact List.mem_cons_self),
          hkey]
      · rw [if_neg hkey, List.map_cons, List.map_cons, ih]
        by_cases hmem : k ∈ groups.map Prod.fst
        · rw [if_pos hmem, if_pos (List.mem_cons_of_mem _ hmem)]
        · rw [if_neg hmem, if_neg, List.cons_append]
          rw [List.mem_cons, not_or]
          exact ⟨fun h => hkey h.symm, hmem⟩

theorem mem_push {group : κ × List α} (hnodup : (groups.map Prod.fst).Nodup)
    (h : group ∈ push k row groups) :
    group ∈ groups ∧ group.1 ≠ k ∨
      ∃ rows, group = (k, rows ++ [row]) ∧
        ((k, rows) ∈ groups ∨ k ∉ groups.map Prod.fst ∧ rows = []) := by
  induction groups with
  | nil =>
      rw [show push k row [] = [(k, [row])] from rfl, List.mem_singleton] at h
      exact .inr ⟨[], h, .inr ⟨List.not_mem_nil, rfl⟩⟩
  | cons first groups ih =>
      rw [List.map_cons, List.nodup_cons] at hnodup
      unfold push at h
      split at h
      · rename_i hkey
        rcases List.mem_cons.mp h with rfl | h
        · refine .inr ⟨first.2, rfl, .inl ?_⟩
          rw [← hkey]
          exact List.mem_cons_self
        · refine .inl ⟨List.mem_cons_of_mem _ h, fun heq => hnodup.1 ?_⟩
          rw [hkey, ← heq]
          exact List.mem_map_of_mem h
      · rename_i hkey
        rcases List.mem_cons.mp h with rfl | h
        · exact .inl ⟨List.mem_cons_self, hkey⟩
        · rcases ih hnodup.2 h with ⟨hmem, hne⟩ | ⟨rows, hgroup, hrows⟩
          · exact .inl ⟨List.mem_cons_of_mem _ hmem, hne⟩
          · refine .inr ⟨rows, hgroup, ?_⟩
            rcases hrows with hmem | ⟨hnew, hnil⟩
            · exact .inl (List.mem_cons_of_mem _ hmem)
            · refine .inr ⟨?_, hnil⟩
              rw [List.map_cons, List.mem_cons, not_or]
              exact ⟨fun h => hkey h.symm, hnew⟩

theorem Grouped.nil : Grouped key ([] : List α) [] :=
  ⟨List.nodup_nil, fun _ h => absurd h List.not_mem_nil, List.Perm.refl _⟩

theorem Grouped.mem_keys (h : Grouped key rows groups) (hrow : row ∈ rows) (hk : key row = .ok k) :
    k ∈ groups.map Prod.fst := by
  obtain ⟨group, hgroup, hmem⟩ := List.mem_flatMap.mp (h.perm.mem_iff.mpr hrow)
  rw [h.group group hgroup, List.mem_filter, decide_eq_true_iff, hk] at hmem
  rw [show k = group.1 from Option.some.inj hmem.2]
  exact List.mem_map_of_mem hgroup

theorem Grouped.filter_eq_nil (h : Grouped key rows groups) (hk : k ∉ groups.map Prod.fst) :
    (rows.filter fun row => (key row).toOption = some k) = [] :=
  List.filter_eq_nil_iff.mpr fun _ hrow hkey =>
    hk (h.mem_keys hrow (toOption_eq_some.mp (of_decide_eq_true hkey)))

theorem Grouped.push (h : Grouped key rows groups) (hkey : key row = .ok k) :
    Grouped key (rows ++ [row]) (push k row groups) := by
  have hrow : (key row).toOption = some k := by
    rw [hkey]
    rfl
  refine ⟨?_, fun group hgroup => ?_, ?_⟩
  · rw [map_fst_push]
    split
    · exact h.nodup
    · rename_i hk
      exact List.nodup_append.mpr ⟨h.nodup, List.nodup_singleton k, fun a ha b hb => by
        rw [List.mem_singleton.mp hb]
        exact fun heq => hk (heq ▸ ha)⟩
  · rw [List.filter_append]
    rcases mem_push h.nodup hgroup with ⟨hmem, hne⟩ | ⟨before, rfl, hbefore⟩
    · rw [← h.group group hmem, List.filter_cons_of_neg, List.filter_nil, List.append_nil]
      rw [hrow, decide_eq_true_iff]
      exact fun heq => hne (Option.some.inj heq).symm
    · rw [List.filter_cons_of_pos (by rw [hrow]; exact decide_eq_true rfl), List.filter_nil]
      rcases hbefore with hmem | ⟨hnew, rfl⟩
      · rw [← h.group (k, before) hmem]
      · rw [h.filter_eq_nil hnew]
  · exact (push_perm k row groups).trans (h.perm.append_right [row])

/-- **Every row is put into its group, or one has none.** -/
theorem collect_eq_ok {more : List α} {groups' : List (κ × List α)} (h : Grouped key rows groups)
    (hcollect : collect key groups more = .ok groups') :
    Grouped key (rows ++ more) groups' ∧ ∀ row ∈ more, ∃ k, key row = .ok k := by
  induction more generalizing rows groups with
  | nil =>
      cases hcollect
      rw [List.append_nil]
      exact ⟨h, fun _ h => absurd h List.not_mem_nil⟩
  | cons row more ih =>
      obtain ⟨k, hk, hcollect⟩ := bind_eq_ok.mp hcollect
      obtain ⟨hgrouped, hmore⟩ := ih (h.push hk) hcollect
      rw [List.append_assoc] at hgrouped
      exact ⟨hgrouped, List.forall_mem_cons.mpr ⟨⟨k, hk⟩, hmore⟩⟩

theorem collect_isOk {more : List α} (h : ∀ row ∈ more, ∃ k, key row = .ok k)
    (groups : List (κ × List α)) : ∃ groups', collect key groups more = .ok groups' := by
  induction more generalizing groups with
  | nil => exact ⟨groups, rfl⟩
  | cons row more ih =>
      obtain ⟨⟨k, hk⟩, hmore⟩ := List.forall_mem_cons.mp h
      obtain ⟨groups', hcollect⟩ := ih hmore (Numbering.push k row groups)
      exact ⟨groups', bind_eq_ok.mpr ⟨k, hk, hcollect⟩⟩

end Groups

/-! ### One group -/

section Group

variable {le same : α → α → Bool} {duplicate : ε} {l l' : List α} {result : List (α × Nat)}

theorem number_eq_ok {previous : Option α} {i : Nat} :
    number same duplicate previous i l = .ok result ↔
      result = l.zipIdx i ∧ (previous.toList ++ l).IsChain fun a b => same a b = false := by
  induction l generalizing previous i result with
  | nil =>
      have hchain : (previous.toList ++ []).IsChain fun a b => same a b = false := by
        cases previous
        · exact List.IsChain.nil
        · exact List.IsChain.singleton _
      exact ⟨fun h => ⟨(Except.ok.inj h).symm, hchain⟩, fun h => by rw [h.1]; rfl⟩
  | cons row l ih =>
      have hcons : (previous.toList ++ row :: l).IsChain (fun a b => same a b = false) ↔
          (∀ before ∈ previous, same before row = false) ∧
            (row :: l).IsChain fun a b => same a b = false := by
        cases previous with
        | none => exact ⟨fun h => ⟨(fun _ hnone => nomatch hnone), h⟩, fun h => h.2⟩
        | some before =>
            show (before :: row :: l).IsChain _ ↔ _
            rw [List.isChain_cons_cons]
            exact and_congr_left' ⟨fun h _ heq => Option.mem_some.mp heq ▸ h, fun h => h before rfl⟩
      rw [hcons]
      constructor
      · intro h
        obtain ⟨hbefore, h⟩ := ensure_bind_eq_ok.mp h
        obtain ⟨rest, hrest, h⟩ := bind_eq_ok.mp h
        cases h
        obtain ⟨rfl, hchain⟩ := ih.mp hrest
        exact ⟨List.zipIdx_cons.symm, hbefore, hchain⟩
      · rintro ⟨rfl, hbefore, hchain⟩
        refine ensure_bind_eq_ok.mpr ⟨hbefore, bind_eq_ok.mpr ⟨_, ih.mpr ⟨rfl, hchain⟩, ?_⟩⟩
        rw [List.zipIdx_cons]
        rfl

theorem Ranks.earlier_trans (h : Ranks le same) {a b c : α} (hab : earlier le a b = true)
    (hbc : earlier le b c = true) : earlier le a c = true := by
  unfold earlier at hab hbc ⊢
  rw [Bool.and_eq_true, Bool.not_eq_true'] at hab hbc ⊢
  refine ⟨h.trans a b c hab.1 hbc.1, Bool.eq_false_iff.mpr fun hca => ?_⟩
  exact Bool.eq_false_iff.mp hab.2 (h.trans b c a hbc.1 hca)

theorem Ranks.earlier_iff (h : Ranks le same) {a b : α} :
    earlier le a b = true ↔ le a b = true ∧ same a b = false := by
  unfold earlier
  rw [Bool.and_eq_true, Bool.not_eq_true', Bool.eq_false_iff, Bool.eq_false_iff, ne_eq, ne_eq,
    h.same_iff]
  tauto

theorem Ranks.not_earlier_self (a : α) : earlier le a a = false := by
  unfold earlier
  cases le a a <;> rfl

theorem Ranks.not_earlier {a b : α} (h : earlier le a b = true) : earlier le b a = false := by
  unfold earlier at h ⊢
  rw [Bool.and_eq_true, Bool.not_eq_true'] at h
  rw [h.2, Bool.false_and]

theorem Ranks.same_symm (h : Ranks le same) {a b : α} (hab : same a b = false) :
    same b a = false := by
  rw [Bool.eq_false_iff, ne_eq, h.same_iff] at hab ⊢
  exact fun hba => hab ⟨hba.2, hba.1⟩

theorem Ranks.pairwise_of_isChain (h : Ranks le same) (hsorted : l.Pairwise fun a b => le a b = true)
    (hchain : l.IsChain fun a b => same a b = false) :
    l.Pairwise fun a b => earlier le a b = true := by
  induction l with
  | nil => exact List.Pairwise.nil
  | cons a l ih =>
      cases l with
      | nil => exact List.pairwise_singleton _ a
      | cons b l =>
          rw [List.pairwise_cons] at hsorted
          rw [List.isChain_cons_cons] at hchain
          have hrest := ih hsorted.2 hchain.2
          have hab : earlier le a b = true :=
            h.earlier_iff.mpr ⟨hsorted.1 b List.mem_cons_self, hchain.1⟩
          refine List.pairwise_cons.mpr ⟨fun c hc => ?_, hrest⟩
          rcases List.mem_cons.mp hc with rfl | hc
          · exact hab
          · exact h.earlier_trans hab ((List.pairwise_cons.mp hrest).1 c hc)

theorem Ranks.isChain_iff (h : Ranks le same) :
    (l.mergeSort le).IsChain (fun a b => same a b = false) ↔
      l.Pairwise fun a b => same a b = false := by
  have hsorted : (l.mergeSort le).Pairwise fun a b => le a b = true :=
    List.pairwise_mergeSort h.trans h.total l
  have hperm : (l.mergeSort le).Pairwise (fun a b => same a b = false) ↔
      l.Pairwise fun a b => same a b = false :=
    (List.mergeSort_perm l le).pairwise_iff fun hab => h.same_symm hab
  rw [← hperm]
  constructor
  · intro hchain
    exact (h.pairwise_of_isChain hsorted hchain).imp fun hab => (h.earlier_iff.mp hab).2
  · exact fun hpairwise => hpairwise.isChain

theorem zipIdx_eq_map (le : α → α → Bool) {before rest : List α}
    (h : (before ++ rest).Pairwise fun a b => earlier le a b = true) :
    rest.zipIdx before.length =
      rest.map fun row => (row, (before ++ rest).countP fun other => earlier le other row) := by
  induction rest generalizing before with
  | nil => rfl
  | cons row rest ih =>
      have hrest : (before ++ [row] ++ rest).Pairwise fun a b => earlier le a b = true := by
        rwa [List.append_assoc]
      obtain ⟨hbefore, hcons, hcross⟩ := List.pairwise_append.mp h
      have hall : before.countP (fun other => earlier le other row) = before.length :=
        List.countP_eq_length.mpr fun other hother => hcross other hother row List.mem_cons_self
      have hnone : (row :: rest).countP (fun other => earlier le other row) = 0 :=
        List.countP_eq_zero.mpr fun other hother => by
          rw [Bool.not_eq_true]
          rcases List.mem_cons.mp hother with rfl | hother
          · exact Ranks.not_earlier_self other
          · exact Ranks.not_earlier ((List.pairwise_cons.mp hcons).1 other hother)
      rw [List.zipIdx_cons, List.map_cons, List.countP_append, hall, hnone, Nat.add_zero]
      have hstep := ih hrest
      rw [List.length_append, List.length_singleton, List.append_assoc] at hstep
      rw [hstep]
      rfl

end Group

/-! ### The numbering -/

section Assign

variable {key : α → Except ε κ} {le same : α → α → Bool} {duplicate : ε} {rows : List α}
  {result : List (α × Nat)}

/-- No two rows of a group rank the same. -/
def Apart (key : α → Except ε κ) (same : α → α → Bool) (rows : List α) : Prop :=
  rows.Pairwise fun a b => SameGroup key a b → same a b = false

theorem Apart.group (h : Apart key same rows) (k : κ) :
    (rows.filter fun row => (key row).toOption = some k).Pairwise fun a b => same a b = false := by
  rw [List.pairwise_filter]
  refine h.imp fun {a b} hab ha hb => hab ⟨k, ?_, ?_⟩
  · exact toOption_eq_some.mp (of_decide_eq_true ha)
  · exact toOption_eq_some.mp (of_decide_eq_true hb)

theorem apart_of_groups (h : ∀ k, (∃ row ∈ rows, key row = .ok k) →
    (rows.filter fun row => (key row).toOption = some k).Pairwise fun a b => same a b = false) :
    Apart key same rows := by
  refine List.pairwise_iff_forall_sublist.mpr fun {a b} hab ⟨k, ha, hb⟩ => ?_
  have hpairwise := h k ⟨a, hab.subset List.mem_cons_self, ha⟩
  have hsub : [a, b].Sublist (rows.filter fun row => (key row).toOption = some k) := by
    have hfilter := hab.filter fun row => (key row).toOption = some k
    rwa [List.filter_eq_self.mpr fun row hrow => ?_] at hfilter
    rw [decide_eq_true_iff, toOption_eq_some]
    rcases List.mem_pair.mp hrow with rfl | rfl
    · exact ha
    · exact hb
  exact List.pairwise_iff_forall_sublist.mp hpairwise hsub

omit [DecidableEq κ] in
theorem Apart.perm {rows' : List α} (hranks : Ranks le same) (h : Apart key same rows)
    (hperm : rows'.Perm rows) : Apart key same rows' :=
  (hperm.pairwise_iff fun {_ _} hab ⟨k, hb, ha⟩ => hranks.same_symm (hab ⟨k, ha, hb⟩)).mpr h

theorem zipIdx_group (hranks : Ranks le same) (k : κ) (hapart : (rows.filter fun row =>
      (key row).toOption = some k).Pairwise fun a b => same a b = false) :
    ((rows.filter fun row => (key row).toOption = some k).mergeSort le).zipIdx 0 =
      ((rows.filter fun row => (key row).toOption = some k).mergeSort le).map fun row =>
        (row, place key le rows row) := by
  generalize hgroup : (rows.filter fun row => (key row).toOption = some k) = group at hapart
  have hperm := List.mergeSort_perm group le
  have hsorted : (group.mergeSort le).Pairwise fun a b => le a b = true :=
    List.pairwise_mergeSort hranks.trans hranks.total group
  have hne : (group.mergeSort le).Pairwise fun a b => same a b = false :=
    (hperm.pairwise_iff fun hab => hranks.same_symm hab).mpr hapart
  have hstrict : (group.mergeSort le).Pairwise fun a b => earlier le a b = true :=
    hsorted.imp₂ (fun a b hle hsame => hranks.earlier_iff.mpr ⟨hle, hsame⟩) hne
  have hplaces := zipIdx_eq_map le (show ([] ++ group.mergeSort le).Pairwise _ from hstrict)
  rw [List.length_nil, List.nil_append] at hplaces
  rw [hplaces]
  refine List.map_congr_left fun row hrow => ?_
  have hmem : row ∈ group := hperm.mem_iff.mp hrow
  rw [← hgroup, List.mem_filter, decide_eq_true_iff] at hmem
  congr 1
  rw [hperm.countP_eq, ← hgroup, List.countP_filter]
  unfold place
  rw [hmem.2]
  refine List.countP_congr fun other _ => ?_
  rw [Bool.and_eq_true, decide_eq_true_iff, decide_eq_true_iff]
  exact and_comm

/-- **The numbers are the places**, where every row has a group and no two rank the same. -/
theorem assign_eq_ok (hranks : Ranks le same) (h : assign key le same duplicate rows = .ok result) :
    (∀ row ∈ rows, ∃ k, key row = .ok k) ∧ Apart key same rows ∧
      result.Perm (rows.map fun row => (row, place key le rows row)) := by
  obtain ⟨groups, hcollect, h⟩ := bind_eq_ok.mp h
  obtain ⟨numbered, hnumbered, h⟩ := bind_eq_ok.mp h
  cases h
  obtain ⟨hgrouped, hkeys⟩ := collect_eq_ok Grouped.nil hcollect
  rw [List.nil_append] at hgrouped
  have hapart : ∀ group ∈ groups, group.2.Pairwise fun a b => same a b = false := by
    intro group hgroup
    obtain ⟨result, -, hresult⟩ := Fallible.exists_of_mapM_eq_ok hnumbered hgroup
    exact hranks.isChain_iff.mp (number_eq_ok.mp hresult).2
  have hmap : numbered = groups.map fun group =>
      (group.2.mergeSort le).map fun row => (row, place key le rows row) :=
    Fallible.eq_map_of_mapM_eq_ok hnumbered fun group hgroup result hresult => by
      have hpairwise := hapart group hgroup
      rw [hgrouped.group group hgroup] at hresult hpairwise ⊢
      rw [(number_eq_ok.mp hresult).1, zipIdx_group hranks group.1 hpairwise]
  refine ⟨hkeys, apart_of_groups fun k ⟨row, hrow, hk⟩ => ?_, ?_⟩
  · obtain ⟨group, hgroup, rfl⟩ := List.mem_map.mp (hgrouped.mem_keys hrow hk)
    rw [← hgrouped.group group hgroup]
    exact hapart group hgroup
  rw [hmap, ← List.flatMap_def, ← List.map_flatMap]
  refine List.Perm.map _ (List.Perm.trans ?_ hgrouped.perm)
  exact List.Perm.flatMap_left _ fun group _ => List.mergeSort_perm group.2 le

theorem assign_isOk (duplicate : ε) (hranks : Ranks le same)
    (hkeys : ∀ row ∈ rows, ∃ k, key row = .ok k) (hapart : Apart key same rows) :
    ∃ result, assign key le same duplicate rows = .ok result := by
  obtain ⟨groups, hcollect⟩ := collect_isOk hkeys []
  obtain ⟨hgrouped, -⟩ := collect_eq_ok Grouped.nil hcollect
  rw [List.nil_append] at hgrouped
  have hnumber : ∀ group ∈ groups, ∃ result,
      number same duplicate none 0 (group.2.mergeSort le) = .ok result := by
      intro group hgroup
      have hpairwise := hapart.group group.1
      rw [← hgrouped.group group hgroup] at hpairwise
      exact ⟨_, number_eq_ok.mpr ⟨rfl, hranks.isChain_iff.mpr hpairwise⟩⟩
  obtain ⟨numbered, hnumbered⟩ := Fallible.mapM_returns hnumber
  exact ⟨_, bind_eq_ok.mpr ⟨groups, hcollect, bind_eq_ok.mpr ⟨numbered, hnumbered, rfl⟩⟩⟩

/-! ### Places -/

omit [DecidableEq κ] in
theorem Apart.iff_not_same : Apart key same rows ↔
    rows.Pairwise fun a b => SameGroup key a b → ¬ same a b = true := by
  unfold Apart
  simp only [Bool.not_eq_true]

theorem place_perm {rows' : List α} (h : rows'.Perm rows) (row : α) :
    place key le rows' row = place key le rows row := h.countP_eq _

theorem place_append {more : List α} {row : α} (h : ∀ other ∈ more, ¬ SameGroup key row other)
    (hkey : ∃ k, key row = .ok k) : place key le (rows ++ more) row = place key le rows row := by
  obtain ⟨k, hk⟩ := hkey
  unfold place
  have hnone : more.countP (fun other => (key other).toOption = (key row).toOption ∧
      earlier le other row = true) = 0 := by
    refine List.countP_eq_zero.mpr fun other hother hcount => ?_
    rw [decide_eq_true_iff, hk] at hcount
    exact h other hother ⟨k, hk, toOption_eq_some.mp hcount.1⟩
  rw [List.countP_append, hnone, Nat.add_zero]

theorem place_le {a b : α} (hranks : Ranks le same) (hkey : SameGroup key a b)
    (h : le a b = true) : place key le rows a ≤ place key le rows b := by
  obtain ⟨k, ha, hb⟩ := hkey
  unfold place
  rw [ha, hb]
  refine List.countP_mono_left fun other _ hother => ?_
  rw [decide_eq_true_iff] at hother ⊢
  refine ⟨hother.1, ?_⟩
  have hearlier := hother.2
  unfold earlier at hearlier ⊢
  rw [Bool.and_eq_true, Bool.not_eq_true', Bool.eq_false_iff] at hearlier ⊢
  exact ⟨hranks.trans _ _ _ hearlier.1 h, fun hle => hearlier.2 (hranks.trans _ _ _ h hle)⟩

theorem place_lt {a b : α} (hranks : Ranks le same) (ha : a ∈ rows) (hkey : SameGroup key a b)
    (h : earlier le a b = true) : place key le rows a < place key le rows b := by
  obtain ⟨before, after, rfl⟩ := List.append_of_mem ha
  have hperm : (before ++ a :: after).Perm (a :: (before ++ after)) := List.perm_middle
  have hle : place key le (before ++ after) a ≤ place key le (before ++ after) b :=
    place_le hranks hkey (hranks.earlier_iff.mp h).1
  rw [place_perm hperm, place_perm hperm]
  obtain ⟨k, hka, hkb⟩ := hkey
  unfold place at hle ⊢
  rw [List.countP_cons_of_neg, List.countP_cons_of_pos]
  · omega
  · rw [decide_eq_true_iff, hka, hkb]; exact ⟨rfl, h⟩
  · rw [decide_eq_true_iff, Ranks.not_earlier_self]
    exact fun hself => Bool.false_ne_true hself.2

theorem map_place_group (hranks : Ranks le same) (hapart : Apart key same rows) (k : κ) :
    ((rows.filter fun row => (key row).toOption = some k).map (place key le rows)).Perm
      (List.range (rows.filter fun row => (key row).toOption = some k).length) := by
  have hzip := congrArg (List.map Prod.snd) (zipIdx_group hranks k (hapart.group k))
  rw [List.zipIdx_map_snd, List.map_map, List.length_mergeSort, ← List.range_eq_range'] at hzip
  rw [hzip]
  exact ((List.mergeSort_perm _ le).map (place key le rows)).symm

/-- **A numbering by groups is stable.** -/
theorem stable (duplicate : ε) (hranks : Ranks le same) :
    Stable key (fun a b => earlier le a b = true) (fun a b => same a b = true)
      (assign key le same duplicate) where
  fails_iff rows := by
    constructor
    · rintro ⟨e, he⟩
      by_contra hgood
      obtain ⟨hkeys, hapart⟩ := not_or.mp hgood
      have hall : ∀ row ∈ rows, ∃ k, key row = .ok k := fun row hrow => by
        by_contra hnone
        exact hkeys ⟨row, hrow, fun k hk => hnone ⟨k, hk⟩⟩
      obtain ⟨result, hresult⟩ := assign_isOk duplicate hranks hall
        (Apart.iff_not_same.mpr (not_not.mp hapart))
      rw [hresult] at he
      cases he
    · intro hbad
      cases hassign : assign key le same duplicate rows with
      | error e => exact ⟨e, rfl⟩
      | ok result =>
          obtain ⟨hkeys, hapart, -⟩ := assign_eq_ok hranks hassign
          rcases hbad with ⟨row, hrow, hnone⟩ | hclash
          · obtain ⟨k, hk⟩ := hkeys row hrow
            exact absurd hk (hnone k)
          · exact absurd (Apart.iff_not_same.mp hapart) hclash
  numbers rows result h := by
    have hperm := (assign_eq_ok hranks h).2.2.map Prod.fst
    rw [List.map_map] at hperm
    simpa [Function.comp_def] using hperm
  range rows result h k := by
    obtain ⟨-, hapart, hperm⟩ := assign_eq_ok hranks h
    refine List.Perm.trans ?_ (map_place_group hranks hapart k)
    have hfilter := (hperm.filter fun row => (key row.1).toOption = some k).map Prod.snd
    rw [List.filter_map, List.map_map] at hfilter
    exact hfilter
  ordered rows result h a ha b hb hkey := by
    obtain ⟨-, -, hperm⟩ := assign_eq_ok hranks h
    obtain ⟨row, hrow, rfl⟩ := List.mem_map.mp (hperm.mem_iff.mp ha)
    obtain ⟨other, hother, rfl⟩ := List.mem_map.mp (hperm.mem_iff.mp hb)
    refine ⟨fun hlt => ?_, fun hearlier => place_lt hranks hrow hkey hearlier⟩
    by_contra hnot
    have hle : le other row = true := by
      rw [Bool.not_eq_true] at hnot
      unfold earlier at hnot
      have htotal := hranks.total row other
      cases hro : le row other with
      | false => rwa [hro, Bool.false_or] at htotal
      | true => rwa [hro, Bool.true_and, Bool.not_eq_false'] at hnot
    obtain ⟨k, hk, hk'⟩ := hkey
    exact absurd (place_le hranks ⟨k, hk', hk⟩ hle) (Nat.not_le_of_lt hlt)
  perm rows rows' result h hperm := by
    obtain ⟨hkeys, hapart, hresult⟩ := assign_eq_ok hranks h
    have hkeys' : ∀ row ∈ rows', ∃ k, key row = .ok k := fun row hrow =>
      hkeys row (hperm.mem_iff.mp hrow)
    obtain ⟨result', h'⟩ := assign_isOk duplicate hranks hkeys' (hapart.perm hranks hperm)
    refine ⟨result', h', ?_⟩
    have hresult' := (assign_eq_ok hranks h').2.2
    simp only [place_perm hperm] at hresult'
    exact hresult'.trans ((hperm.map _).trans hresult.symm)
  frame rows more result result' h hother h' := by
    obtain ⟨hkeys, -, hresult⟩ := assign_eq_ok hranks h
    obtain ⟨-, -, hresult'⟩ := assign_eq_ok hranks h'
    intro pair hpair
    obtain ⟨row, hrow, rfl⟩ := List.mem_map.mp (hresult.mem_iff.mp hpair)
    refine hresult'.mem_iff.mpr (List.mem_map.mpr ⟨row, List.mem_append_left _ hrow, ?_⟩)
    rw [place_append (hother row hrow) (hkeys row hrow)]

end Assign

end Numbering
