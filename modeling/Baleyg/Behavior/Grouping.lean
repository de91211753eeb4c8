/-
Grouping is for the reader only.

The invariant of a view under grouping is `Grouped`: what every group is, and that a call has
nothing below it.  One replacement keeps it and keeps the steps without groups; the walk over the
syntax is any number of replacements.  Everything that is said of a grouped view is then read off
the invariant.
-/
import Baleyg.Behavior.Chains

namespace Baleyg.Behavior.Rust

open Stateful
open Fallible (ensure_bind_eq_ok)

/-! ### Calls of a chain -/

namespace Narrow

def width (n : Node) : Nat := n.endByte - n.startByte

end Narrow

open Narrow (width)

/-- A shaped tree without errors. -/
structure Whole (n : Node) : Prop where
  shaped : n.Shaped
  error : n.hasError = false

variable {n m : Node} {name : String}

theorem Whole.child (h : Whole n) (hm : m ∈ n.children) : Whole m :=
  ⟨h.shaped.child hm, h.shaped.error hm h.error⟩

theorem width_child (h : n.Shaped) (hm : m ∈ n.children) : width m ≤ width n := by
  obtain ⟨hstart, hstop⟩ := h.inside hm
  unfold width
  omega

theorem whole_ungeneric (h : Whole n) (hm : ungeneric n = some m) :
    Whole m ∧ width m ≤ width n := by
  fun_induction ungeneric n with
  | case1 n hkind f hf ih =>
      have hmem := Node.mem_of_childByFieldName hf
      obtain ⟨hwhole, hwidth⟩ := ih (h.child hmem) hm
      exact ⟨hwhole, le_trans hwidth (width_child h.shaped hmem)⟩
  | case2 => cases hm
  | case3 n hkind => cases hm; exact ⟨h, le_refl _⟩

theorem whole_receiverCall (h : Whole n) (hkind : n.kind = "call_expression")
    (hm : receiverCall n = some m) :
    Whole m ∧ m.kind = "call_expression" ∧ width m < width n := by
  unfold receiverCall at hm
  obtain ⟨function, hfunction, hm⟩ := Option.bind_eq_some_iff.mp hm
  split at hm
  · obtain ⟨receiver, hreceiver, hm⟩ := Option.bind_eq_some_iff.mp hm
    split at hm
    · rename_i hcall
      cases hm
      obtain ⟨callee, hcallee, hunder⟩ := Option.bind_eq_some_iff.mp hfunction
      have hmem := Node.mem_of_childByFieldName hcallee
      obtain ⟨hwhole, hwidth⟩ := whole_ungeneric (h.child hmem) hunder
      have hvalue := Node.mem_of_childByFieldName hreceiver
      have hless := (h.shaped.call hkind h.error).2 callee hmem
      have hinner := width_child hwhole.shaped hvalue
      refine ⟨hwhole.child hvalue, hcall, ?_⟩
      exact lt_of_le_of_lt (le_trans hinner hwidth) hless
    · cases hm
  · cases hm

/-- **The calls of a chain are ever narrower.** -/
theorem receivers_narrower (room : Nat) : ∀ {n : Node} {chain : List Node}, Whole n →
    n.kind = "call_expression" → receivers room n = some chain →
    n ∈ chain ∧ (∀ c ∈ chain, width c ≤ width n) ∧ chain.Pairwise fun a b => width b < width a := by
  have hsingle : ∀ n : Node, n ∈ [n] ∧ (∀ c ∈ [n], width c ≤ width n) ∧
      [n].Pairwise fun a b => width b < width a := fun n =>
    ⟨List.mem_singleton_self n, fun c hc => by rw [List.mem_singleton.mp hc],
      List.pairwise_singleton _ n⟩
  induction room with
  | zero =>
      intro n chain _ _ hchain
      unfold receivers at hchain
      cases hnext : receiverCall n with
      | none =>
          rw [hnext] at hchain
          cases hchain
          exact hsingle n
      | some next => rw [hnext] at hchain; cases hchain
  | succ room ih =>
      intro n chain h hkind hchain
      unfold receivers at hchain
      cases hnext : receiverCall n with
      | none =>
          rw [hnext] at hchain
          cases hchain
          exact hsingle n
      | some next =>
          rw [hnext] at hchain
          obtain ⟨inner, hinner, rfl⟩ := Option.map_eq_some_iff.mp hchain
          obtain ⟨hwhole, hcall, hless⟩ := whole_receiverCall h hkind hnext
          obtain ⟨-, hwidths, hpairs⟩ := ih hwhole hcall hinner
          have hall : ∀ c ∈ inner, width c < width n :=
            fun c hc => lt_of_le_of_lt (hwidths c hc) hless
          refine ⟨List.mem_cons_self, fun c hc => ?_, List.pairwise_cons.mpr ⟨hall, hpairs⟩⟩
          rcases List.mem_cons.mp hc with rfl | hc
          · exact le_refl _
          · exact le_of_lt (hall c hc)

/-- What a run must hold to be a group: the call itself, and as many calls as the chain has. -/
structure ChainOf (n : Node) (chain : List Node) : Prop where
  mem : n ∈ chain
  long : 3 ≤ chain.length
  nodup : (chain.map Node.extent).Nodup

/-- The calls of a chain are receivers of each other. -/
theorem chainOf_receivers {chain : List Node} {room : Nat} (h : Whole n)
    (hkind : n.kind = "call_expression") (hchain : receivers room n = some chain)
    (hlong : 3 ≤ chain.length) : ChainOf n chain.reverse := by
  obtain ⟨hmem, -, hpairs⟩ := receivers_narrower room h hkind hchain
  refine ⟨List.mem_reverse.mpr hmem, by rw [List.length_reverse]; exact hlong, ?_⟩
  rw [List.map_reverse, List.nodup_reverse]
  refine List.pairwise_map.mpr (hpairs.imp fun {a b} hless heq => ?_)
  have hstart : a.startByte = b.startByte := congrArg Prod.fst heq
  have hstop : a.endByte = b.endByte := congrArg Prod.snd heq
  unfold width at hless
  omega

/-! ### What a group is -/

/-- There is nothing below the step. -/
def Bare (s : SequenceStep) : Prop := s.children = [] ∧ s.alternate = []

/-- **A group**: a run of measured calls, one of them where the group is. -/
structure IsGroup (g : SequenceStep) : Prop where
  long : 3 ≤ g.children.length
  measured : ∀ s ∈ g.children, s.measured = true
  bare : ∀ s ∈ g.children, Bare s
  alternate : g.alternate = []
  spot : ∃ s ∈ g.children, g.id = groupId s.extent

/-- A group is one, and a call has nothing below it. -/
def Member (s : SequenceStep) : Prop :=
  (s.kind = "group" → IsGroup s) ∧ (s.kind = "call" → Bare s)

/-- **The invariant of a grouped view.** -/
def Grouped (steps : List SequenceStep) : Prop := ∀ s ∈ every steps, Member s

variable {g s : SequenceStep}

theorem grouped_cons {rest : List SequenceStep} :
    Grouped (s :: rest) ↔ Member s ∧ Grouped s.children ∧ Grouped s.alternate ∧ Grouped rest := by
  unfold Grouped
  rw [every_cons]
  constructor
  · intro h
    have hbelow : ∀ t, t ∈ every s.children ∨ t ∈ every s.alternate → Member t := fun t ht =>
      h t (List.mem_append_left _ (List.mem_cons_of_mem _ (List.mem_append.mpr ht)))
    exact ⟨h s (List.mem_append_left _ List.mem_cons_self), fun t ht => hbelow t (Or.inl ht),
      fun t ht => hbelow t (Or.inr ht), fun t ht => h t (List.mem_append_right _ ht)⟩
  · rintro ⟨hself, hchildren, halternate, hrest⟩ t ht
    rcases List.mem_append.mp ht with ht | ht
    · rcases List.mem_cons.mp ht with rfl | ht
      · exact hself
      · exact (List.mem_append.mp ht).elim (hchildren t) (halternate t)
    · exact hrest t ht

theorem grouped_append {first second : List SequenceStep} :
    Grouped (first ++ second) ↔ Grouped first ∧ Grouped second := by
  unfold Grouped
  rw [every_append]
  exact List.forall_mem_append

theorem grouped_nil : Grouped [] := fun _ hs => absurd hs List.not_mem_nil

theorem groups_cons (s : SequenceStep) (rest : List SequenceStep) :
    groups (s :: rest) = (if s.isGroup then [s] else []) ++
      (groups s.children ++ groups s.alternate) ++ groups rest := by
  unfold groups
  rw [every_cons, List.filter_append, List.filter_cons, List.filter_append]
  cases s.isGroup
  · simp only [Bool.false_eq_true, if_false, List.nil_append]
  · simp only [if_true, List.singleton_append]

theorem kind_of_measured (h : s.measured = true) : s.kind = "call" := by
  unfold SequenceStep.measured at h
  exact eq_of_beq (Bool.and_eq_true_iff.mp h).1

theorem bare_run {slice : List SequenceStep} (hmeasured : ∀ s ∈ slice, s.measured = true)
    (hbare : ∀ s ∈ slice, Bare s) : every slice = slice := by
  induction slice with
  | nil => rfl
  | cons s rest ih =>
      obtain ⟨hchildren, halternate⟩ := hbare s List.mem_cons_self
      rw [every_cons, hchildren, halternate, ih
        (fun t ht => hmeasured t (List.mem_cons_of_mem _ ht))
        (fun t ht => hbare t (List.mem_cons_of_mem _ ht))]
      rfl

theorem IsGroup.every_children (h : IsGroup g) : every g.children = g.children :=
  bare_run h.measured h.bare

theorem IsGroup.kind_ne (h : IsGroup g) (hs : s ∈ g.children) : s.kind ≠ "group" := by
  rw [kind_of_measured (h.measured s hs)]
  decide

theorem IsGroup.ungroup_children (h : IsGroup g) : ungroup g.children = g.children := by
  refine ungroup_eq_self g.children fun s hs => ?_
  rw [h.every_children] at hs
  exact h.kind_ne hs

theorem IsGroup.groups_below (h : IsGroup g) : groups g.children ++ groups g.alternate = [] := by
  unfold groups
  rw [h.alternate, h.every_children, every_nil, List.filter_nil, List.append_nil]
  refine List.filter_eq_nil_iff.mpr fun s hs hgroup => ?_
  exact h.kind_ne hs (eq_of_beq hgroup)

/-! ### One replacement -/

section Wrap

variable {chain : List Node} {label : String} {steps out : List SequenceStep}

theorem collapse_eq_some (h : collapse n chain label steps = some out) :
    ∃ before slice after g, steps = before ++ slice ++ after ∧ out = before ++ g :: after ∧
      g.kind = "group" ∧ g.children = slice ∧ g.id = groupId n.extent ∧
      (∃ last ∈ slice, g.alternate = last.alternate) ∧
      (∀ s ∈ slice, s.measured = true) ∧ ∀ c ∈ chain, ∃ s ∈ slice, s.extent = c.extent := by
  unfold collapse at h
  simp only at h
  split at h
  · cases h
  · rename_i last hlast
    split at h
    · rename_i hflat
      rw [Bool.and_eq_true, List.all_eq_true, List.all_eq_true] at hflat
      obtain ⟨hmeasured, hcalls⟩ := hflat
      cases h
      refine ⟨_, _, _, _, ?_, rfl, rfl, rfl, rfl, ⟨last, List.mem_of_getLast? hlast, rfl⟩,
        hmeasured, fun c hc => ?_⟩
      · rw [List.append_assoc, List.takeWhile_append_dropWhile, List.takeWhile_append_dropWhile]
      · obtain ⟨s, hs, hextent⟩ := List.any_eq_true.mp (hcalls c hc)
        exact ⟨s, hs, of_decide_eq_true hextent⟩
    · cases h

theorem wrapStep_eq (s : SequenceStep) : wrapStep n chain label s =
    if s.kind = "group" then s
    else { s with children := wrapChain n chain label s.children
                  alternate := wrapChain n chain label s.alternate } := by
  cases s
  rfl

theorem wrapChain_nil : wrapChain n chain label [] = [] := rfl

theorem ungroup_wrapChain_of (h : ungroup (wrapEach n chain label steps) = ungroup steps) :
    ungroup (wrapChain n chain label steps) = ungroup steps := by
  unfold wrapChain
  cases hout : collapse n chain label steps with
  | none => exact h
  | some out =>
      obtain ⟨before, slice, after, g, rfl, rfl, hkind, hchildren, -⟩ := collapse_eq_some hout
      have hg : g.ungroup = ungroup slice := by
        rw [SequenceStep.ungroup_eq, if_pos hkind, hchildren]
      show ungroup (before ++ g :: after) = _
      rw [ungroup_append, ungroup_append, ungroup_append, List.append_assoc]
      show ungroup before ++ (g.ungroup ++ ungroup after) = _
      rw [hg]

theorem ungroup_wrapEach (steps : List SequenceStep) :
    ungroup (wrapEach n chain label steps) = ungroup steps := by
  induction steps using steps_induction with
  | nil => rfl
  | cons s rest hchildren halternate hrest =>
      show (wrapStep n chain label s).ungroup ++ ungroup (wrapEach n chain label rest) =
        s.ungroup ++ ungroup rest
      rw [hrest, wrapStep_eq]
      by_cases hkind : s.kind = "group"
      · rw [if_pos hkind]
      · rw [if_neg hkind, SequenceStep.ungroup_eq, SequenceStep.ungroup_eq, if_neg hkind,
          if_neg hkind]
        simp only
        rw [ungroup_wrapChain_of hchildren, ungroup_wrapChain_of halternate]

/-- **Grouping keeps the steps without groups.** -/
theorem ungroup_wrapChain (steps : List SequenceStep) :
    ungroup (wrapChain n chain label steps) = ungroup steps :=
  ungroup_wrapChain_of (ungroup_wrapEach steps)

theorem isGroup_of_run (hchain : ChainOf n chain) {g : SequenceStep}
    (hid : g.id = groupId n.extent) (hmeasured : ∀ s ∈ g.children, s.measured = true)
    (hbare : ∀ s ∈ g.children, Bare s) (halternate : g.alternate = [])
    (hcalls : ∀ c ∈ chain, ∃ s ∈ g.children, s.extent = c.extent) : IsGroup g where
  long := by
    have hsub : chain.map Node.extent ⊆ g.children.map SequenceStep.extent := by
      intro r hr
      obtain ⟨c, hc, rfl⟩ := List.mem_map.mp hr
      obtain ⟨s, hs, hextent⟩ := hcalls c hc
      exact List.mem_map.mpr ⟨s, hs, hextent⟩
    have hlength := (List.subperm_of_subset hchain.nodup hsub).length_le
    rw [List.length_map, List.length_map] at hlength
    exact le_trans hchain.long hlength
  measured := hmeasured
  bare := hbare
  alternate := halternate
  spot := by
    obtain ⟨s, hs, hextent⟩ := hcalls n hchain.mem
    exact ⟨s, hs, by rw [hid, hextent]⟩

theorem grouped_wrapChain_of (hchain : ChainOf n chain) (hsteps : Grouped steps)
    (h : Grouped (wrapEach n chain label steps)) : Grouped (wrapChain n chain label steps) := by
  unfold wrapChain
  cases hout : collapse n chain label steps with
  | none => exact h
  | some out =>
      obtain ⟨before, slice, after, g, rfl, rfl, hkind, rfl, hid, ⟨last, hlast, halternate⟩,
        hmeasured, hcalls⟩ := collapse_eq_some hout
      rw [grouped_append, grouped_append] at hsteps
      obtain ⟨⟨hbefore, hslice⟩, hafter⟩ := hsteps
      have hbare : ∀ s ∈ g.children, Bare s := fun s hs =>
        (hslice s (mem_every hs)).2 (kind_of_measured (hmeasured s hs))
      have hnone : g.alternate = [] := halternate.trans (hbare last hlast).2
      have hgroup := isGroup_of_run hchain hid hmeasured hbare hnone hcalls
      have hmember : Member g := by
        refine ⟨fun _ => hgroup, fun hcall => ?_⟩
        rw [hkind] at hcall
        exact absurd hcall (by decide)
      show Grouped (before ++ g :: after)
      refine grouped_append.mpr ⟨hbefore, grouped_cons.mpr ⟨hmember, hslice, ?_, hafter⟩⟩
      rw [hnone]
      exact grouped_nil

theorem grouped_wrapEach (hchain : ChainOf n chain) (steps : List SequenceStep) :
    Grouped steps → Grouped (wrapEach n chain label steps) := by
  induction steps using steps_induction with
  | nil => exact id
  | cons s rest hchildren halternate hrest =>
      intro h
      obtain ⟨hself, hbelow, hother, hafter⟩ := grouped_cons.mp h
      show Grouped (wrapStep n chain label s :: wrapEach n chain label rest)
      rw [wrapStep_eq]
      by_cases hkind : s.kind = "group"
      · rw [if_pos hkind]; exact grouped_cons.mpr ⟨hself, hbelow, hother, hrest hafter⟩
      · rw [if_neg hkind]
        refine grouped_cons.mpr ⟨⟨fun hg => absurd hg hkind, fun hcall => ?_⟩,
          grouped_wrapChain_of hchain hbelow (hchildren hbelow),
          grouped_wrapChain_of hchain hother (halternate hother), hrest hafter⟩
        obtain ⟨hnone, hnone'⟩ := hself.2 hcall
        show wrapChain n chain label s.children = [] ∧ wrapChain n chain label s.alternate = []
        rw [hnone, hnone']
        exact ⟨wrapChain_nil, wrapChain_nil⟩

/-- **Grouping keeps the invariant.** -/
theorem grouped_wrapChain (hchain : ChainOf n chain) (h : Grouped steps) :
    Grouped (wrapChain n chain label steps) :=
  grouped_wrapChain_of hchain h (grouped_wrapEach hchain steps h)

theorem collapse_eq_none (h : ∀ s ∈ steps, s.measured = false) :
    collapse n chain label steps = none := by
  cases hout : collapse n chain label steps with
  | none => rfl
  | some out =>
      obtain ⟨before, slice, after, g, rfl, -, -, -, -, ⟨last, hlast, -⟩, hmeasured, -⟩ :=
        collapse_eq_some hout
      have hbad := h last (List.mem_append_left _ (List.mem_append_right _ hlast))
      rw [hmeasured last hlast] at hbad
      exact absurd hbad (by decide)

/-- Where no call is measured, nothing is grouped. -/
theorem wrapEach_eq_self (steps : List SequenceStep) :
    (∀ s ∈ every steps, s.measured = false) → wrapEach n chain label steps = steps := by
  induction steps using steps_induction with
  | nil => exact fun _ => rfl
  | cons s rest hchildren halternate hrest =>
      intro h
      rw [every_cons] at h
      have hbelow : ∀ t, t ∈ every s.children ∨ t ∈ every s.alternate → t.measured = false :=
        fun t ht => h t (List.mem_append_left _
          (List.mem_cons_of_mem _ (List.mem_append.mpr ht)))
      have hleft : wrapChain n chain label s.children = s.children := by
        unfold wrapChain
        rw [collapse_eq_none fun t ht => hbelow t (Or.inl (mem_every ht))]
        exact hchildren fun t ht => hbelow t (Or.inl ht)
      have hright : wrapChain n chain label s.alternate = s.alternate := by
        unfold wrapChain
        rw [collapse_eq_none fun t ht => hbelow t (Or.inr (mem_every ht))]
        exact halternate fun t ht => hbelow t (Or.inr ht)
      show wrapStep n chain label s :: wrapEach n chain label rest = s :: rest
      rw [hrest fun t ht => h t (List.mem_append_right _ ht), wrapStep_eq, hleft, hright]
      cases s
      simp only [ite_self]

theorem wrapChain_eq_self (h : ∀ s ∈ every steps, s.measured = false) :
    wrapChain n chain label steps = steps := by
  unfold wrapChain
  rw [collapse_eq_none fun s hs => h s (mem_every hs)]
  exact wrapEach_eq_self steps h

end Wrap

/-! ### The walk over the syntax -/

section Run

variable {src : Source} {P : List SequenceStep → Prop} {Q : Node → Prop}

theorem ascend_mem {up up' : List (List Node)} {next : Node}
    (h : ascend up = some (next, up')) (hup : ∀ level ∈ up, ∀ m ∈ level, Q m) :
    Q next ∧ ∀ level ∈ up', ∀ m ∈ level, Q m := by
  fun_induction ascend up with
  | case1 => cases h
  | case2 up ih => exact ih h fun level hl => hup level (List.mem_cons_of_mem _ hl)
  | case3 first rest up =>
      cases h
      have hlevel := hup (next :: rest) List.mem_cons_self
      refine ⟨hlevel next List.mem_cons_self, fun level hl m hm => ?_⟩
      rcases List.mem_cons.mp hl with rfl | hl
      · exact hlevel m (List.mem_cons_of_mem _ hm)
      · exact hup level (List.mem_cons_of_mem _ hl) m hm

/-- **What one replacement keeps, the whole grouping keeps.** -/
theorem groupFrom_keeps (hchild : ∀ m, Q m → ∀ c ∈ m.children, Q c)
    (hstep : ∀ m steps, Q m → P steps → P (wrapSyntaxChain src m steps)) (budget : Nat) :
    ∀ {node : Node} {up : List (List Node)} {steps : List SequenceStep} {limited : Bool}, Q node →
      (∀ level ∈ up, ∀ m ∈ level, Q m) → P steps →
      P (groupFrom src budget node up steps limited).1 := by
  induction budget with
  | zero => exact fun _ _ h => h
  | succ budget ih =>
      intro node up steps limited hnode hup h
      have honwards : ∀ steps limited, P steps → P ((ascend up).elim (steps, limited)
          fun o => groupFrom src budget o.1 o.2 steps limited).1 := by
        intro steps limited h
        cases hnext : ascend up with
        | none => exact h
        | some o =>
            obtain ⟨hq, hup'⟩ := ascend_mem hnext hup
            exact ih hq hup' h
      unfold groupFrom
      simp only
      have hwrapped := hstep node steps hnode h
      split
      · exact honwards _ _ h
      · split
        · split
          · rename_i first rest hchildren
            have hq := hchild node hnode
            rw [hchildren] at hq
            refine ih (hq first List.mem_cons_self) (fun level hl m hm => ?_) hwrapped
            rcases List.mem_cons.mp hl with rfl | hl
            · exact hq m (List.mem_cons_of_mem _ hm)
            · exact hup level hl m hm
          · exact honwards _ _ hwrapped
        · exact honwards _ _ hwrapped

variable {node : Node} {steps : List SequenceStep}

theorem groupChains_keeps (hchild : ∀ m, Q m → ∀ c ∈ m.children, Q c)
    (hstep : ∀ m steps, Q m → P steps → P (wrapSyntaxChain src m steps)) (hnode : Q node)
    (h : P steps) : P (groupChains src node steps).1 :=
  groupFrom_keeps hchild hstep _ hnode (fun _ hl => absurd hl List.not_mem_nil) h

/-- **A grouped view without its groups is the view it was made of.** -/
theorem ungroup_groupChains (node : Node) (steps : List SequenceStep) :
    ungroup (groupChains src node steps).1 = ungroup steps := by
  refine groupChains_keeps (Q := fun _ => True) (P := fun s => ungroup s = ungroup steps)
    (fun _ _ _ _ => trivial) (fun m s _ h => ?_) trivial rfl
  unfold wrapSyntaxChain
  split
  · split
    · exact h
    · split
      · rw [ungroup_wrapChain, h]
      · exact h
  · exact h

theorem grouped_groupChains (hnode : Whole node) (h : Grouped steps) :
    Grouped (groupChains src node steps).1 := by
  refine groupChains_keeps (fun m hm c hc => hm.child hc) (fun m s hm hs => ?_) hnode h
  unfold wrapSyntaxChain
  split
  · rename_i hkind
    split
    · exact hs
    · rename_i chain hchain
      split
      · rename_i hlong
        exact grouped_wrapChain (chainOf_receivers hm hkind hchain hlong) hs
      · exact hs
  · exact hs

theorem groupChains_eq_self (h : ∀ s ∈ every steps, s.measured = false) :
    (groupChains src node steps).1 = steps := by
  refine groupChains_keeps (Q := fun _ => True) (P := fun s => s = steps)
    (fun _ _ _ _ => trivial) (fun m s _ hs => ?_) trivial rfl
  subst hs
  unfold wrapSyntaxChain
  split
  · split
    · rfl
    · split
      · exact wrapChain_eq_self h
      · rfl
  · rfl

end Run

/-! ### What is said of the groups -/

theorem groupId_inj {r r' : Nat × Nat} (h : groupId r = groupId r') : r = r' := by
  have hlist := congrArg String.toList h
  unfold groupId at hlist
  simp only [String.toList_append, List.append_assoc] at hlist
  obtain ⟨hstart, hstop⟩ := Native.colon_inj (List.append_cancel_left hlist)
  exact Prod.ext hstart hstop

/-- The ids of groups are made of calls, of no call twice. -/
theorem ids_sublist (steps : List SequenceStep) : Grouped steps →
    ((groups steps).map SequenceStep.id).Sublist ((spots (ungroup steps)).map groupId) := by
  induction steps using steps_induction with
  | nil => exact fun _ => List.Sublist.slnil
  | cons s rest hchildren halternate hrest =>
      intro h
      obtain ⟨hself, hbelow, hother, hafter⟩ := grouped_cons.mp h
      show List.Sublist _ ((spots (s.ungroup ++ ungroup rest)).map groupId)
      rw [groups_cons, spots_append, List.map_append (f := SequenceStep.id),
        List.map_append (f := groupId)]
      refine List.Sublist.append ?_ (hrest hafter)
      by_cases hkind : s.kind = "group"
      · have hg := hself.1 hkind
        have hisGroup : s.isGroup = true := beq_iff_eq.mpr hkind
        rw [hg.groups_below, hisGroup, SequenceStep.ungroup_eq, if_pos hkind, hg.ungroup_children,
          List.append_nil]
        obtain ⟨t, ht, hid⟩ := hg.spot
        have hspot : t.extent ∈ spots s.children :=
          List.mem_map.mpr ⟨t, List.mem_filter.mpr ⟨mem_every ht, hg.measured t ht⟩, rfl⟩
        show List.Sublist [s.id] _
        rw [hid]
        exact List.singleton_sublist.mpr (List.mem_map.mpr ⟨t.extent, hspot, rfl⟩)
      · have hisGroup : s.isGroup = false := beq_eq_false_iff_ne.mpr hkind
        rw [hisGroup, SequenceStep.ungroup_eq, if_neg hkind, spots_cons]
        have hsub := (hchildren hbelow).append (halternate hother)
        rw [← List.map_append, ← List.map_append] at hsub
        show List.Sublist ((groups s.children ++ groups s.alternate).map SequenceStep.id) _
        refine hsub.trans (List.Sublist.map _ ?_)
        show List.Sublist _ (_ ++ (spots (ungroup s.children) ++ spots (ungroup s.alternate)) ++ [])
        rw [List.append_nil]
        exact List.sublist_append_right _ _

/-- **A group is a run of one list of the steps without groups.** -/
theorem run_of_group (steps : List SequenceStep) : Grouped steps → ∀ g ∈ groups steps,
    ∃ branch ∈ branches (ungroup steps), g.children <:+: branch := by
  induction steps using steps_induction with
  | nil => exact fun _ g hg => absurd hg List.not_mem_nil
  | cons s rest hchildren halternate hrest =>
      intro h g hg
      obtain ⟨hself, hbelow, hother, hafter⟩ := grouped_cons.mp h
      show ∃ branch ∈ branches (s.ungroup ++ ungroup rest), g.children <:+: branch
      have hinner : ∀ branch, branch ∈ innerLists s.ungroup ∨ branch ∈ innerLists (ungroup rest) →
          branch ∈ branches (s.ungroup ++ ungroup rest) := by
        intro branch hbranch
        refine List.mem_cons_of_mem _ ?_
        rw [innerLists_append]
        exact List.mem_append.mpr hbranch
      rw [groups_cons] at hg
      rcases List.mem_append.mp hg with hg | hg
      · by_cases hkind : s.kind = "group"
        · have hgroup := hself.1 hkind
          have hisGroup : s.isGroup = true := beq_iff_eq.mpr hkind
          rw [hgroup.groups_below, hisGroup, List.append_nil] at hg
          rcases List.mem_singleton.mp hg with rfl
          refine ⟨_, List.mem_cons_self, ?_⟩
          rw [SequenceStep.ungroup_eq, if_pos hkind, hgroup.ungroup_children]
          exact (List.prefix_append _ _).isInfix
        · have hisGroup : s.isGroup = false := beq_eq_false_iff_ne.mpr hkind
          rw [hisGroup, if_neg Bool.false_ne_true, List.nil_append] at hg
          have hlists : ∀ branch, branch ∈ branches (ungroup s.children) ∨
              branch ∈ branches (ungroup s.alternate) → branch ∈ innerLists s.ungroup := by
            intro branch hbranch
            rw [SequenceStep.ungroup_eq, if_neg hkind, mem_innerLists_cons]
            exact hbranch.imp id Or.inl
          rcases List.mem_append.mp hg with hg | hg
          · obtain ⟨branch, hmem, hrun⟩ := hchildren hbelow g hg
            exact ⟨branch, hinner branch (Or.inl (hlists branch (Or.inl hmem))), hrun⟩
          · obtain ⟨branch, hmem, hrun⟩ := halternate hother g hg
            exact ⟨branch, hinner branch (Or.inl (hlists branch (Or.inr hmem))), hrun⟩
      · obtain ⟨branch, hmem, hrun⟩ := hrest hafter g hg
        rcases List.mem_cons.mp hmem with rfl | hmem
        · exact ⟨_, List.mem_cons_self, hrun.trans (List.suffix_append _ _).isInfix⟩
        · exact ⟨branch, hinner branch (Or.inr hmem), hrun⟩

/-! ### Views -/

section View

variable {src : Source} {digest : String → String}

variable {steps : List SequenceStep}

theorem spots_eq_nil : spots steps = [] ↔ ∀ s ∈ every steps, s.measured = false := by
  unfold spots
  rw [List.map_eq_nil_iff, List.filter_eq_nil_iff]
  simp only [Bool.not_eq_true]

theorem Places.unmeasured (h : Places (fun _ => False) steps) : spots steps = [] :=
  List.eq_nil_iff_forall_not_mem.mpr fun r hr => h.within r hr

/-- A view is of a callable that was parsed whole, or it has no measured call. -/
theorem draw_places {node : Node} (h : node.Shaped) : Produces (draw src digest node) fun f =>
    (∃ S, Places S f.steps) ∧ (Whole node ∨ spots f.steps = []) := by
  have hboundary : ∀ message, Produces (boundary src node message) fun f =>
      (∃ S, Places S f.steps) ∧ (Whole node ∨ spots f.steps = []) := fun message =>
    (produces_boundary (S := fun _ => False) node message).mono fun f hf =>
      ⟨⟨_, hf⟩, Or.inr (Places.unmeasured hf)⟩
  unfold draw
  refine Produces.ite (fun _ => hboundary _) (fun _ => ?_)
  refine Produces.ite (fun _ => hboundary _) (fun herror => ?_)
  refine (field_places (below_sound maxDepth) h "body").mono fun f hf => ⟨⟨_, hf⟩, Or.inl ?_⟩
  exact ⟨h, Bool.eq_false_iff.mpr herror⟩

/-- Where no group is drawn, all is as it should be in groups. -/
theorem grouped_of_places {S : Nat × Nat → Prop} (h : Places S steps) : Grouped steps := fun s hs =>
  ⟨fun hkind => absurd hkind (h.plain s hs).1, (h.plain s hs).2⟩

theorem shaped_locate {range : View.SourceRange} (h : n.Shaped) : (locate range n).Shaped := by
  fun_induction locate range n with
  | case1 | case3 => exact h
  | case2 n hne c hc ih => exact ih (h.child (Node.mem_of_named (List.mem_of_find?_eq_some hc)))

theorem viewOf_grouped (revision : IndexPin) (node : Node) :
    ∃ warnings, viewOf src digest revision node false =
      { viewOf src digest revision node true with
        steps := (groupChains src node (viewOf src digest revision node true).steps).1
        warnings := warnings } := by
  unfold viewOf
  simp only [Bool.false_eq_true, if_false, if_true]
  split
  · obtain ⟨warnings, hrun⟩ := warn_run _ _
    rw [hrun]
    exact ⟨warnings, rfl⟩
  · exact ⟨_, rfl⟩

theorem build_eq_ok {parse : String → Option Node} {revision : IndexPin} {showAll : Bool}
    {view : SequenceView} : build src digest parse revision showAll = .ok view ↔
      src.seed.path = src.file.path ∧ src.seed.kind ∈ [.function, .method] ∧
      (src.seed.range.startByte < src.seed.range.endByte ∧
        src.seed.range.endByte ≤ Native.byteLength src.file.text) ∧
      ∃ root, parse src.file.text = some root ∧
        viewOf src digest revision (locate src.seed.range root) showAll = view := by
  unfold build
  rw [ensure_bind_eq_ok, ensure_bind_eq_ok, ensure_bind_eq_ok]
  cases parse src.file.text with
  | none => simp only [reduceCtorEq, false_and, exists_false, and_false, throw, throwThe, MonadExceptOf.throw]
  | some root => simp only [pure, Except.pure, Except.ok.injEq, Option.some.injEq, exists_eq_left']

end View

/-! ### The claim of the module -/

/-- **Grouping is presentation only.**  A view with its chains grouped is the view with everything
shown but for its steps and a warning.  Each group replaced by its children, the steps are the
same.  No two groups have one identifier, and the children of a group are a run of at least three
measured calls in one list of the view that shows everything. -/
theorem grouping_presents {src : Source} {digest : String → String} {parse : String → Option Node}
    (hparse : ∀ text root, parse text = some root → root.Shaped) {revision : IndexPin}
    {grouped : SequenceView} (h : build src digest parse revision false = .ok grouped) :
    ∃ plain, build src digest parse revision true = .ok plain ∧
      { grouped with steps := plain.steps, warnings := plain.warnings } = plain ∧
      ungroup grouped.steps = plain.steps ∧
      ((groups grouped.steps).map SequenceStep.id).Nodup ∧
      ∀ g ∈ groups grouped.steps, 3 ≤ g.children.length ∧
        (∀ s ∈ g.children, s.measured = true) ∧
        ∃ branch ∈ branches plain.steps, g.children <:+: branch := by
  obtain ⟨hpath, hkind, hrange, root, hroot, hview⟩ := build_eq_ok.mp h
  have hshaped : (locate src.seed.range root).Shaped := shaped_locate (hparse _ _ hroot)
  obtain ⟨warnings, hgrouped⟩ := @viewOf_grouped src digest revision
    (locate src.seed.range root)
  generalize hplain : viewOf src digest revision (locate src.seed.range root) true = plain
    at hgrouped
  subst hview
  obtain ⟨⟨S, hplaces⟩, hwhole⟩ : (∃ S, Places S plain.steps) ∧
      (Whole (locate src.seed.range root) ∨ spots plain.steps = []) := by
    rw [← hplain]
    exact draw_places hshaped _
  have hnone : ungroup plain.steps = plain.steps :=
    ungroup_eq_self plain.steps fun s hs => (hplaces.plain s hs).1
  have hsteps : (viewOf src digest revision (locate src.seed.range root) false).steps =
      (groupChains src (locate src.seed.range root) plain.steps).1 := by
    rw [hgrouped]
  have hkept : Grouped (groupChains src (locate src.seed.range root) plain.steps).1 := by
    rcases hwhole with hwhole | hempty
    · exact grouped_groupChains hwhole (grouped_of_places hplaces)
    · rw [groupChains_eq_self (spots_eq_nil.mp hempty)]; exact grouped_of_places hplaces
  have hsame : ungroup (groupChains src (locate src.seed.range root) plain.steps).1 =
      plain.steps := by
    rw [ungroup_groupChains, hnone]
  refine ⟨plain, build_eq_ok.mpr ⟨hpath, hkind, hrange, root, hroot, hplain⟩, ?_, ?_, ?_, ?_⟩
  · rw [hgrouped]
  · rw [hsteps, hsame]
  · rw [hsteps]
    have hids := ids_sublist _ hkept
    rw [hsame] at hids
    exact hids.nodup (hplaces.nodup.map fun _ _ => groupId_inj)
  · rw [hsteps]
    intro g hg
    have hgroup := (hkept g (List.mem_of_mem_filter hg)).1 (eq_of_beq (List.mem_filter.mp hg).2)
    obtain ⟨branch, hbranch, hrun⟩ := run_of_group _ hkept g hg
    rw [hsame] at hbranch
    exact ⟨hgroup.long, hgroup.measured, branch, hbranch, hrun⟩

namespace Sample

def node (kind : String) (isNamed : Bool) (field : Option String) (start stop : Nat)
    (children : List Node) : Node :=
  ⟨kind, isNamed, field, start, stop, 0, start, 0, stop, false, false, children⟩

def token (text : String) (start stop : Nat) : Node := node text false none start stop []

def call (start stop : Nat) (field : Option String) (function : Node) : Node :=
  node "call_expression" true field start stop
    [function, node "arguments" true (some "arguments") (stop - 2) stop
      [token "(" (stop - 2) (stop - 1), token ")" (stop - 1) stop]]

def method (start stop : Nat) (receiver : Node) : Node :=
  node "field_expression" true (some "function") start stop
    [receiver, token "." (stop - 2) (stop - 1),
      node "field_identifier" true (some "field") (stop - 1) stop []]

def chain : Node :=
  let first := call 7 10 (some "value") (node "identifier" true (some "function") 7 8 [])
  let second := call 7 14 (some "value") (method 7 12 first)
  call 7 18 none (method 7 16 second)

def tree : Node :=
  node "source_file" true none 0 19
    [node "function_item" true none 0 19
      [token "fn" 0 2, node "identifier" true (some "name") 3 4 [],
        node "parameters" true (some "parameters") 4 6 [token "(" 4 5, token ")" 5 6],
        node "block" true (some "body") 6 19 [token "\x7b" 6 7, chain, token "\x7d" 18 19]]]

def text : String := "fn f()\x7ba().b().c()\x7d"

def parse (t : String) : Option Node := if t = text then some tree else none

theorem parse_shaped (t : String) (root : Node) (h : parse t = some root) : root.Shaped := by
  unfold parse at h
  split at h
  · cases h; exact Node.shaped_of_checks tree (by decide)
  · cases h

def source : Source where
  file := { path := "a.rs", hash := "", language := .rust, text := text }
  seed :=
    { id := "f", name := "f", displayLabel := none, kind := .function, path := "a.rs"
      range := ⟨0, 19, 1, 1, 1, 20⟩, parent := none, accessor := false
      provenance := ⟨"", .unavailable⟩ }
  calls := [10, 14, 18].map fun stop =>
    { id := toString stop, caller := "f", calleeText := none, path := "a.rs"
      range := ⟨7, stop, 1, 8, 1, stop + 1⟩, calleeRange := none, ordinal := stop, regions := []
      provenance := ⟨"", .unavailable⟩ }

end Sample

theorem grouping_presents_sample : ∃ grouped plain,
    build Sample.source id Sample.parse ⟨0, 0⟩ false = .ok grouped ∧
      build Sample.source id Sample.parse ⟨0, 0⟩ true = .ok plain ∧
      ungroup grouped.steps = plain.steps := by
  have hparse : Sample.parse Sample.source.file.text = some Sample.tree := if_pos rfl
  have hbuild : build Sample.source id Sample.parse ⟨0, 0⟩ false = .ok (viewOf Sample.source id
      ⟨0, 0⟩ (locate Sample.source.seed.range Sample.tree) false) :=
    build_eq_ok.mpr ⟨rfl, by decide, by decide, Sample.tree, hparse, rfl⟩
  obtain ⟨plain, hplain, -, hsame, -⟩ := grouping_presents Sample.parse_shaped hbuild
  exact ⟨_, plain, hbuild, hplain, hsame⟩

/-- **No call is drawn twice.**  However a view is grouped, the places of its measured calls are
distinct, and nothing hangs below a call. -/
theorem calls_drawn_once {src : Source} {digest : String → String} {parse : String → Option Node}
    (hparse : ∀ text root, parse text = some root → root.Shaped) {revision : IndexPin}
    {showAll : Bool} {view : SequenceView}
    (h : build src digest parse revision showAll = .ok view) :
    (spots (ungroup view.steps)).Nodup ∧ ∀ s ∈ every (ungroup view.steps), s.Plain := by
  obtain ⟨-, -, -, root, hroot, rfl⟩ := build_eq_ok.mp h
  have hshaped : (locate src.seed.range root).Shaped := shaped_locate (hparse _ _ hroot)
  obtain ⟨⟨S, hplaces⟩, -⟩ : (∃ S, Places S (viewOf src digest revision
      (locate src.seed.range root) true).steps) ∧ _ := draw_places hshaped _
  have hsame := ungroup_eq_self _ fun s hs => (hplaces.plain s hs).1
  cases showAll with
  | true => rw [hsame]; exact ⟨hplaces.nodup, hplaces.plain⟩
  | false =>
      obtain ⟨warnings, hgrouped⟩ :=
        @viewOf_grouped src digest revision (locate src.seed.range root)
      rw [hgrouped, ungroup_groupChains, hsame]
      exact ⟨hplaces.nodup, hplaces.plain⟩

theorem calls_drawn_once_sample : ∃ view,
    build Sample.source id Sample.parse ⟨0, 0⟩ false = .ok view ∧
      (spots (ungroup view.steps)).Nodup := by
  have hparse : Sample.parse Sample.source.file.text = some Sample.tree := if_pos rfl
  have hbuild : build Sample.source id Sample.parse ⟨0, 0⟩ false = .ok (viewOf Sample.source id
      ⟨0, 0⟩ (locate Sample.source.seed.range Sample.tree) false) :=
    build_eq_ok.mpr ⟨rfl, by decide, by decide, Sample.tree, hparse, rfl⟩
  exact ⟨_, hbuild, (calls_drawn_once Sample.parse_shaped hbuild).1⟩

end Baleyg.Behavior.Rust
