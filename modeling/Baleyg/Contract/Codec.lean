/-
What is written is read back.

The text of a value is a derivation of that value, so the parser, which reads whatever can be
derived, reads it.  A value is written with its members in order and comes back so; `Same` is
what is left of it when the order of members is forgotten.
-/
import Mathlib.Algebra.BigOperators.Group.List.Basic
import Baleyg.Contract.Accepts
import Baleyg.Contract.Agree

namespace Baleyg.Contract

open Fallible (ensure bind_eq_ok ensure_bind_eq_ok ensure_eq_ok)

/-! ### The text of a string -/

theorem hexValue_digitChar : ∀ n < 16, hexValue (unit (Nat.digitChar n)) = some n := by decide

theorem chars_flatMap_escape (s : Units) : Chars (s.flatMap escape) s := by
  induction s with
  | nil => exact .nil
  | cons u s ih =>
      rw [List.flatMap_cons]
      unfold escape
      by_cases hquote : u = unit '\x22'
      · rw [if_pos hquote, hquote]; exact .escaped (by decide) ih
      by_cases hback : u = unit '\x5c'
      · rw [if_neg hquote, if_pos hback, hback]; exact .escaped (by decide) ih
      by_cases hcontrol : u.toNat < 32
      · rw [if_neg hquote, if_neg hback, if_pos hcontrol]
        have hvalues : List.Forall₂ (fun d n => hexValue d = some n)
            [unit '0', unit '0', unit (Nat.digitChar (u.toNat / 16)),
              unit (Nat.digitChar (u.toNat % 16))] [0, 0, u.toNat / 16, u.toNat % 16] :=
          .cons (by decide) (.cons (by decide) (.cons (hexValue_digitChar _ (by omega))
            (.cons (hexValue_digitChar _ (Nat.mod_lt _ (by decide))) .nil)))
        have hunit : UInt16.ofNat ([0, 0, u.toNat / 16, u.toNat % 16].foldl
            (fun n d => 16 * n + d) 0) = u := by
          have hcode : 16 * (u.toNat / 16) + u.toNat % 16 = u.toNat := Nat.div_add_mod _ _
          show UInt16.ofNat (16 * (16 * (16 * (16 * 0 + 0) + 0) + u.toNat / 16) + u.toNat % 16) = u
          rw [show 16 * (16 * (16 * (16 * 0 + 0) + 0) + u.toNat / 16) + u.toNat % 16 = u.toNat by
            omega, UInt16.ofNat_toNat]
        have hchars := Chars.unicode rfl hvalues ih
        rw [hunit] at hchars
        exact hchars
      · rw [if_neg hquote, if_neg hback, if_neg hcontrol]
        exact .unescaped (by omega) hquote hback ih

theorem isString_quote (s : Units) : IsString (quote s) s :=
  ⟨s.flatMap escape, rfl, chars_flatMap_escape s⟩

/-! ### The text of a number -/

theorem isDigit_decimal (n : Nat) : ∀ u ∈ decimal n, isDigit u = true := by
  intro u hu
  obtain ⟨c, hc, rfl⟩ := List.mem_map.mp hu
  have hdigit : c.isDigit = true := Nat.isDigit_of_mem_toDigits (by decide) (by decide) hc
  rw [Char.isDigit, Bool.and_eq_true, decide_eq_true_iff, decide_eq_true_iff] at hdigit
  have hzero : 48 ≤ c.toNat := UInt32.le_iff_toNat_le.mp hdigit.1
  have hnine : c.toNat ≤ 57 := UInt32.le_iff_toNat_le.mp hdigit.2
  unfold isDigit
  rw [Bool.and_eq_true, decide_eq_true_iff, decide_eq_true_iff, UInt16.le_iff_toNat_le,
    UInt16.le_iff_toNat_le, unit_toNat (c := c) (by omega)]
  exact ⟨hzero, hnine⟩

/-- No number but `0` begins with a zero. -/
theorem decimal_head {n : Nat} (h : 0 < n) : ∃ d ds, decimal n = d :: ds ∧ d ≠ unit '0' := by
  induction n using Nat.strong_induction_on with
  | _ n ih =>
      unfold decimal
      by_cases hsmall : n < 10
      · have hdigits : ∀ n < 10, 0 < n → unit (Nat.digitChar n) ≠ unit '0' := by decide
        rw [Nat.toDigits_of_lt_base hsmall]
        exact ⟨_, [], rfl, hdigits n hsmall h⟩
      · obtain ⟨d, ds, hdecimal, hd⟩ := ih (n / 10) (by omega) (by omega)
        unfold decimal at hdecimal
        rw [Nat.toDigits_of_base_le (by decide) (by omega), List.map_append, hdecimal]
        exact ⟨d, _, rfl, hd⟩

theorem isInt_decimal (n : Nat) : IsInt (decimal n) := by
  rcases Nat.eq_zero_or_pos n with rfl | hpos
  · exact .inl (by rfl)
  · obtain ⟨d, ds, hdecimal, hd⟩ := decimal_head hpos
    exact .inr ⟨d, ds, hdecimal, hd, isDigit_decimal n⟩

theorem numeral_map_unit {cs : List Char} (h : ∀ c ∈ cs, c.toNat < 0x10000) (m : Nat) :
    (cs.map unit).foldl (fun n d => 10 * n + (d.toNat - 48)) m = Nat.ofDigitChars 10 cs m := by
  induction cs generalizing m with
  | nil => rfl
  | cons c cs ih =>
      obtain ⟨hc, hcs⟩ := List.forall_mem_cons.mp h
      rw [List.map_cons, List.foldl_cons, ih hcs, unit_toNat hc]
      rfl

theorem numeral_decimal (n : Nat) : numeral (decimal n) = n := by
  have hsmall : ∀ c ∈ Nat.toDigits 10 n, c.toNat < 0x10000 := fun c hc => by
    have hdigit : c.isDigit = true := Nat.isDigit_of_mem_toDigits (by decide) (by decide) hc
    rw [Char.isDigit, Bool.and_eq_true, decide_eq_true_iff, decide_eq_true_iff] at hdigit
    have hnine : c.toNat ≤ 57 := UInt32.le_iff_toNat_le.mp hdigit.2
    omega
  exact (numeral_map_unit hsmall 0).trans Nat.ofDigitChars_ten_toDigits

/-! ### The text of a value -/

namespace Value

/-- No object has two properties of one name, as no object does. -/
inductive Keyed : Value → Prop where
  | null : Keyed .null
  | boolean (b : Bool) : Keyed (.boolean b)
  | number (x : Number) : Keyed (.number x)
  | string (s : Units) : Keyed (.string s)
  | array {items : List Value} (h : ∀ item ∈ items, Keyed item) : Keyed (.array items)
  | object {members : List (Units × Value)} (hkeys : (members.map Prod.fst).Nodup)
      (h : ∀ m ∈ members, Keyed m.2) : Keyed (.object members)
  | hole : Keyed .hole
  | foreign : Keyed .foreign

/-- **Equal up to the order of members**, at every depth. -/
inductive Same : Value → Value → Prop where
  | null : Same .null .null
  | boolean (b : Bool) : Same (.boolean b) (.boolean b)
  | number (x : Number) : Same (.number x) (.number x)
  | string (s : Units) : Same (.string s) (.string s)
  | array {items items' : List Value} (hlength : items.length = items'.length)
      (h : ∀ pair ∈ items.zip items', Same pair.1 pair.2) : Same (.array items) (.array items')
  | object {members mid members' : List (Units × Value)} (hperm : members.Perm mid)
      (hkeys : mid.map Prod.fst = members'.map Prod.fst)
      (h : ∀ pair ∈ mid.zip members', Same pair.1.2 pair.2.2) :
      Same (.object members) (.object members')

end Value

abbrev Json := {v : Value // v.Keyed}

/-- A value whose text is a derivation of it. -/
def Derived (v : Value) : Prop :=
  v.Keyed → ∀ s, encode v = .ok s → ∃ tree, IsValue s tree ∧ tree.Admissible ∧ tree.value = v

theorem structural_unit (ch : Char) : Structural ch [unit ch] := ⟨[], [], ws_nil, ws_nil, rfl⟩

variable {tree : Tree} {v : Value} {bytes : List UInt8}

theorem IsItems.comma {t t' : Units} {trees : List Tree} (h : IsValue t tree)
    (hrest : IsItems t' trees) : IsItems (t ++ unit ',' :: t') (tree :: trees) :=
  .more h (structural_unit ',') hrest

theorem IsMembers.comma {key t t' : Units} {members : List (Units × Tree)} (h : IsValue t tree)
    (hrest : IsMembers t' members) :
    IsMembers (quote key ++ unit ':' :: (t ++ unit ',' :: t')) ((key, tree) :: members) :=
  .more (isString_quote key) (structural_unit ':') h (structural_unit ',') hrest

theorem items_of_encode {items : List Value} {i : Nat} {parts : List Units} {item : Value}
    (ih : ∀ v ∈ item :: items, Derived v) (hkeyed : ∀ v ∈ item :: items, v.Keyed)
    (h : encodeItems i (item :: items) = .ok parts) :
    ∃ trees, IsItems (join parts) trees ∧ (∀ tree ∈ trees, tree.Admissible) ∧
      Tree.values trees = item :: items := by
  induction items generalizing item i parts with
  | nil =>
      obtain ⟨s, rest, hs, hrest, rfl⟩ := encodeItems_cons_eq_ok h
      cases hrest
      obtain ⟨tree, htree, hadmissible, rfl⟩ :=
        ih item List.mem_cons_self (hkeyed item List.mem_cons_self) s hs
      rw [join_cons, List.flatMap_nil, List.append_nil]
      exact ⟨[tree], .one htree, fun t ht => List.mem_singleton.mp ht ▸ hadmissible, rfl⟩
  | cons next items ihitems =>
      obtain ⟨hitem, hitems⟩ := List.forall_mem_cons.mp ih
      obtain ⟨hk, hks⟩ := List.forall_mem_cons.mp hkeyed
      obtain ⟨s, rest, hs, hrest, rfl⟩ := encodeItems_cons_eq_ok h
      obtain ⟨tree, htree, hadmissible, rfl⟩ := hitem hk s hs
      obtain ⟨trees, htrees, hadmissibles, hvalues⟩ := ihitems hitems hks hrest
      obtain ⟨part, tail, -, -, rfl⟩ := encodeItems_cons_eq_ok hrest
      refine ⟨tree :: trees, ?_, List.forall_mem_cons.mpr ⟨hadmissible, hadmissibles⟩, ?_⟩
      · rw [join_cons] at htrees
        rw [join_cons, List.flatMap_cons, List.cons_append]
        exact .comma htree htrees
      · rw [Tree.values, hvalues]

theorem members_of_encode {members : List (Units × Value)} {parts : List Units}
    {m : Units × Value} (ih : ∀ m' ∈ m :: members, Derived m'.2)
    (hkeyed : ∀ m' ∈ m :: members, m'.2.Keyed)
    (h : encodeMembers (m :: members) = .ok parts) :
    ∃ trees, IsMembers (join parts) trees ∧ (∀ m ∈ trees, validString m.1 = true) ∧
      (∀ m ∈ trees, m.2.Admissible) ∧ Tree.memberValues trees = m :: members := by
  induction members generalizing m parts with
  | nil =>
      obtain ⟨name, hname, h⟩ := bind_eq_ok.mp h
      obtain ⟨s, hs, h⟩ := bind_eq_ok.mp h
      cases h
      obtain ⟨hvalid, hname⟩ := ensure_bind_eq_ok.mp hname
      cases hname
      obtain ⟨tree, htree, hadmissible, hvalue⟩ :=
        ih m List.mem_cons_self (hkeyed m List.mem_cons_self) s hs
      rw [join_cons, List.flatMap_nil, List.append_nil]
      refine ⟨[(m.1, tree)], .one (isString_quote m.1) (structural_unit ':') htree, fun t ht =>
        List.mem_singleton.mp ht ▸ hvalid,
        fun t ht => List.mem_singleton.mp ht ▸ hadmissible, ?_⟩
      rw [Tree.memberValues, hvalue]
      rfl
  | cons next members ihmembers =>
      obtain ⟨hm, hms⟩ := List.forall_mem_cons.mp ih
      obtain ⟨hk, hks⟩ := List.forall_mem_cons.mp hkeyed
      obtain ⟨name, hname, h⟩ := bind_eq_ok.mp h
      obtain ⟨s, hs, h⟩ := bind_eq_ok.mp h
      obtain ⟨rest, hrest, h⟩ := bind_eq_ok.mp h
      cases h
      obtain ⟨hvalid, hname⟩ := ensure_bind_eq_ok.mp hname
      cases hname
      obtain ⟨tree, htree, hadmissible, hvalue⟩ := hm hk s hs
      obtain ⟨trees, htrees, hvalids, hadmissibles, hvalues⟩ := ihmembers hms hks hrest
      obtain ⟨part, tail, rfl⟩ : ∃ part tail, rest = part :: tail := by
        obtain ⟨name, -, h⟩ := bind_eq_ok.mp hrest
        obtain ⟨part, -, h⟩ := bind_eq_ok.mp h
        obtain ⟨rest, -, h⟩ := bind_eq_ok.mp h
        exact ⟨_, _, (Except.ok.inj h).symm⟩
      refine ⟨(m.1, tree) :: trees, ?_, List.forall_mem_cons.mpr ⟨hvalid, hvalids⟩,
        List.forall_mem_cons.mpr ⟨hadmissible, hadmissibles⟩, ?_⟩
      · rw [join_cons] at htrees
        rw [join_cons, List.flatMap_cons, List.append_assoc, List.cons_append, List.cons_append]
        exact .comma htree htrees
      · rw [Tree.memberValues, hvalue, hvalues]

theorem Tree.values_eq_map (trees : List Tree) : Tree.values trees = trees.map Tree.value := by
  induction trees with
  | nil => rfl
  | cons tree trees ih => rw [Tree.values, ih, List.map_cons]

theorem Tree.memberValues_eq_map (members : List (Units × Tree)) :
    Tree.memberValues members = members.map fun m => (m.1, m.2.value) := by
  induction members with
  | nil => rfl
  | cons m members ih => rw [Tree.memberValues, ih, List.map_cons]

/-- **The text of a value is a derivation of it.** -/
theorem derived (v : Value) : Derived v := by
  induction v using Value.induct with
  | hnull =>
      intro _ s h
      cases h
      exact ⟨.null, .null, .null, rfl⟩
  | hboolean b =>
      intro _ s h
      cases b
      · cases h; exact ⟨.boolean false, .no, .boolean false, rfl⟩
      · cases h; exact ⟨.boolean true, .yes, .boolean true, rfl⟩
  | hnumber x =>
      intro _ s h
      cases x with
      | other => cases h
      | natural n =>
          obtain ⟨hsafe, h⟩ := ensure_bind_eq_ok.mp h
          cases h
          have hnumber : IsNumber (decimal n) :=
            ⟨[], decimal n, [], [], by simp, .inl rfl, isInt_decimal n, .inl rfl, .inl rfl⟩
          refine ⟨.number (decimal n), .number hnumber, .number (isInt_decimal n) ?_, ?_⟩
          · rw [numeral_decimal]; exact hsafe
          · rw [Tree.value, numeral_decimal]
  | hstring t =>
      intro _ s h
      obtain ⟨hvalid, h⟩ := ensure_bind_eq_ok.mp h
      cases h
      exact ⟨.string t, .string (isString_quote t), .string hvalid, rfl⟩
  | harray items ih =>
      intro hkeyed s h
      cases hkeyed with
      | array hkeyed =>
          obtain ⟨parts, hparts, h⟩ := bind_eq_ok.mp h
          cases h
          cases items with
          | nil =>
              cases hparts
              exact ⟨.array [], .emptyArray (structural_unit '[') (structural_unit ']'),
                .array fun _ h => absurd h List.not_mem_nil, rfl⟩
          | cons item items =>
              obtain ⟨trees, htrees, hadmissible, hvalues⟩ := items_of_encode ih hkeyed hparts
              refine ⟨.array trees, .array (structural_unit '[') htrees (structural_unit ']'), .array hadmissible, ?_⟩
              rw [Tree.value, hvalues]
  | hobject members ih =>
      intro hkeyed s h
      cases hkeyed with
      | object hkeys hkeyed =>
          obtain ⟨parts, hparts, h⟩ := bind_eq_ok.mp h
          cases h
          cases members with
          | nil =>
              cases hparts
              exact ⟨.object [], .emptyObject (structural_unit '\x7b') (structural_unit '\x7d'),
                .object .nil (fun _ h => absurd h List.not_mem_nil)
                fun _ h => absurd h List.not_mem_nil, rfl⟩
          | cons m members =>
              obtain ⟨trees, htrees, hvalids, hadmissible, hvalues⟩ :=
                members_of_encode ih hkeyed hparts
              have hnodup : (trees.map Prod.fst).Nodup := by
                have hmap := congrArg (List.map Prod.fst) hvalues
                rw [Tree.memberValues_eq_map, List.map_map] at hmap
                exact hmap ▸ hkeys
              refine ⟨.object trees, .object (structural_unit '\x7b') htrees
                (structural_unit '\x7d'), .object hnodup hvalids hadmissible, ?_⟩
              rw [Tree.value, hvalues]
  | hhole | hforeign => intro _ s h; cases h

/-! ### The same value on the other side -/

theorem same_ofNative {a b : Native.Value} (h : a.Same b) : (ofNative a).Same (ofNative b) := by
  induction h with
  | null => exact .null
  | bool b => exact .boolean b
  | number | literal => exact .number _
  | string text => exact .string _
  | array items items' hlength _ ih =>
      rw [ofNative_array, ofNative_array]
      refine .array (by rw [List.length_map, List.length_map, hlength]) fun pair hpair => ?_
      rw [List.zip_map] at hpair
      obtain ⟨pair, hmem, rfl⟩ := List.mem_map.mp hpair
      exact ih pair hmem
  | object members mid members' hperm hkeys _ ih =>
      rw [ofNative_object, ofNative_object]
      refine .object (hperm.map _) ?_ fun pair hpair => ?_
      · have hfst : ∀ ms : List (String × Native.Value),
            (ms.map fun m => (unitsOf m.1, ofNative m.2)).map Prod.fst =
              (ms.map Prod.fst).map unitsOf := fun ms => by
          rw [List.map_map, List.map_map]
          rfl
        rw [hfst, hfst, hkeys]
      · rw [List.zip_map] at hpair
        obtain ⟨pair, hmem, rfl⟩ := List.mem_map.mp hpair
        exact ih pair hmem

theorem zip_of_forall₂ {α β : Type} {R : α → β → Prop} {xs : List α} {ys : List β}
    (h : List.Forall₂ R xs ys) : ∀ pair ∈ xs.zip ys, R pair.1 pair.2 := fun _ hpair =>
  (List.forall₂_iff_zip.mp h).2 hpair

theorem exists_forall₂_map {α β γ : Type} (R : α → γ → Prop) (g : γ → β) {xs : List α}
    {ys : List β} (hlength : xs.length = ys.length)
    (h : ∀ pair ∈ xs.zip ys, ∃ z, R pair.1 z ∧ g z = pair.2) :
    ∃ zs, List.Forall₂ R xs zs ∧ zs.map g = ys := by
  induction xs generalizing ys with
  | nil =>
      cases ys with
      | nil => exact ⟨[], .nil, rfl⟩
      | cons y ys => cases hlength
  | cons x xs ih =>
      cases ys with
      | nil => cases hlength
      | cons y ys =>
          rw [List.zip_cons_cons] at h
          obtain ⟨⟨z, hz, rfl⟩, hrest⟩ := List.forall_mem_cons.mp h
          obtain ⟨zs, hzs, rfl⟩ := ih (Nat.succ.inj hlength) hrest
          exact ⟨z :: zs, .cons hz hzs, rfl⟩

theorem exists_of_same {w : Value} (h : v.Same w) :
    ∀ a, Plain a → ofNative a = v → ∃ b, (Plain b ∧ a.Same b) ∧ ofNative b = w := by
  induction h with
  | null =>
      intro a ha hv
      cases ha <;> simp only [ofNative, reduceCtorEq] at hv
      exact ⟨.null, ⟨.null, .null⟩, rfl⟩
  | boolean b =>
      intro a ha hv
      cases ha <;> simp only [ofNative, reduceCtorEq] at hv
      rename_i b'
      exact ⟨.bool b', ⟨.bool b', .bool b'⟩, hv⟩
  | number x =>
      intro a ha hv
      cases ha <;> simp only [ofNative, reduceCtorEq] at hv
      rename_i n hn
      exact ⟨.number n, ⟨.number hn, .number n⟩, hv⟩
  | string s =>
      intro a ha hv
      cases ha <;> simp only [ofNative, reduceCtorEq] at hv
      rename_i text
      exact ⟨.string text, ⟨.string text, .string text⟩, hv⟩
  | @array items items' hlength _ ih =>
      intro a ha hv
      cases ha <;> simp only [ofNative, reduceCtorEq] at hv
      rename_i xs hxs
      rw [ofNatives_eq_map, Value.array.injEq] at hv
      subst hv
      rw [List.length_map] at hlength
      have hpairs : ∀ pair ∈ xs.zip items', ∃ b, (Plain b ∧ pair.1.Same b) ∧
          ofNative b = pair.2 := fun pair hpair => by
        refine ih (ofNative pair.1, pair.2) ?_ pair.1 (hxs _ (List.of_mem_zip hpair).1) rfl
        rw [List.zip_map_left]
        exact List.mem_map.mpr ⟨pair, hpair, rfl⟩
      obtain ⟨bs, hbs, rfl⟩ :=
        exists_forall₂_map (fun x b => Plain b ∧ x.Same b) ofNative hlength hpairs
      have hplain : ∀ b ∈ bs, Plain b := fun b hb => by
        obtain ⟨_, _, h⟩ := Fallible.exists_of_forall₂_right hbs hb
        exact h.1
      refine ⟨.array bs, ⟨.array hplain, .array xs bs hbs.length_eq fun pair hpair => ?_⟩,
        ofNative_array bs⟩
      exact (zip_of_forall₂ hbs pair hpair).2
  | @object members mid members' hperm hkeys _ ih =>
      intro a ha hv
      cases ha <;> simp only [ofNative, reduceCtorEq] at hv
      rename_i xs hxs
      rw [ofMembers_eq_map, Value.object.injEq] at hv
      subst hv
      -- the members in the order of the others
      have hcomp : (Relation.Comp (· = List.map (fun m : String × Native.Value =>
          (unitsOf m.1, ofNative m.2)) ·) List.Perm) mid xs := by
        rw [List.eq_map_comp_perm]
        exact hperm.symm
      obtain ⟨ms, rfl, hperm'⟩ := hcomp
      have hlength := congrArg List.length hkeys
      simp only [List.length_map] at hlength
      have hpairs : ∀ pair ∈ ms.zip members', ∃ m : String × Native.Value,
          (Plain m.2 ∧ pair.1.1 = m.1 ∧ pair.1.2.Same m.2) ∧
            (unitsOf m.1, ofNative m.2) = pair.2 := fun pair hpair => by
        have hzip : ((unitsOf pair.1.1, ofNative pair.1.2), pair.2) ∈
            (ms.map fun m => (unitsOf m.1, ofNative m.2)).zip members' := by
          rw [List.zip_map_left]
          exact List.mem_map.mpr ⟨pair, hpair, rfl⟩
        have hmem := hperm'.mem_iff.mp (List.of_mem_zip hpair).1
        obtain ⟨b, ⟨hb, hsame⟩, hvalue⟩ := ih _ hzip pair.1.2 (hxs _ hmem) rfl
        have hkey : unitsOf pair.1.1 = pair.2.1 :=
          (Native.Value.map_eq_map_iff_zip.mp hkeys).2 _ hzip
        exact ⟨(pair.1.1, b), ⟨hb, rfl, hsame⟩, Prod.ext hkey hvalue⟩
      obtain ⟨bs, hbs, rfl⟩ := exists_forall₂_map
        (fun (x b : String × Native.Value) => Plain b.2 ∧ x.1 = b.1 ∧ x.2.Same b.2)
        (fun m => (unitsOf m.1, ofNative m.2)) hlength hpairs
      have hplain : ∀ b ∈ bs, Plain b.2 := fun b hb => by
        obtain ⟨_, _, h⟩ := Fallible.exists_of_forall₂_right hbs hb
        exact h.1
      have hzip := zip_of_forall₂ hbs
      refine ⟨.object bs, ⟨.object hplain, .object xs ms bs hperm'.symm ?_ fun pair hpair => ?_⟩,
        ofNative_object bs⟩
      · exact Native.Value.map_eq_map_iff_zip.mpr
          ⟨hbs.length_eq, fun pair hpair => (hzip pair hpair).2.1⟩
      · exact (hzip pair hpair).2.2

theorem same_sorted (v : Native.Value) : v.Same v.sorted := by
  induction v using Native.Value.induct with
  | hnull => exact .null
  | hbool b => exact .bool b
  | hnumber n => exact Native.Value.sorted_number n ▸ .number n
  | hliteral l => exact Native.Value.sorted_literal l ▸ .literal l
  | hstring text => exact Native.Value.sorted_string text ▸ .string text
  | harray items ih =>
      rw [Native.Value.sorted_array]
      have hpairs : List.Forall₂ Native.Value.Same items (items.map Native.Value.sorted) :=
        List.forall₂_map_right_iff.mpr (List.forall₂_same.mpr ih)
      exact .array _ _ hpairs.length_eq (zip_of_forall₂ hpairs)
  | hobject members ih =>
      rw [Native.Value.sorted_object]
      -- the members in the order of their keys
      have hcomp : (Relation.Comp (· = List.map (fun m : String × Native.Value =>
          (m.1, m.2.sorted)) ·) List.Perm)
          ((members.map fun m => (m.1, m.2.sorted)).insertionSort
            fun a b => Native.Value.byKey a b) members := by
        rw [List.eq_map_comp_perm]
        exact List.perm_insertionSort _ _
      obtain ⟨mid, hmid, hperm⟩ := hcomp
      have hpairs : List.Forall₂ (fun m m' : String × Native.Value =>
          m.1 = m'.1 ∧ m.2.Same m'.2) mid (mid.map fun m => (m.1, m.2.sorted)) :=
        List.forall₂_map_right_iff.mpr
          (List.forall₂_same.mpr fun m hm => ⟨rfl, ih m (hperm.mem_iff.mp hm)⟩)
      rw [hmid]
      have hzip := zip_of_forall₂ hpairs
      exact .object _ mid _ hperm.symm (Native.Value.map_eq_map_iff_zip.mpr
        ⟨hpairs.length_eq, fun pair hpair => (hzip pair hpair).1⟩) fun pair hpair => (hzip pair hpair).2

theorem keyed_sorted (h : v.Keyed) : (sorted v).Keyed := by
  induction h with
  | null => exact .null
  | boolean b => exact .boolean b
  | number x => exact .number x
  | string s => exact .string s
  | array _ ih =>
      rw [sorted_array]
      refine .array fun item hitem => ?_
      obtain ⟨item', hitem', rfl⟩ := List.mem_map.mp hitem
      exact ih item' hitem'
  | @object members hkeys _ ih =>
      rw [sorted_object]
      have hperm := List.perm_insertionSort (fun a b => byKey a b = true)
        (members.map fun m => (m.1, sorted m.2))
      refine .object ?_ fun m hm => ?_
      · rw [(hperm.map Prod.fst).nodup_iff, List.map_map]; exact hkeys
      · obtain ⟨m', hm', rfl⟩ := List.mem_map.mp (hperm.mem_iff.mp hm)
        exact ih m' hm'
  | hole => exact .hole
  | foreign => exact .foreign

theorem keyed_of_ofNative {a : Native.Value} (h : (ofNative a).Keyed) : a.Keyed := by
  induction a using Native.Value.induct with
  | hnull => exact .null
  | hbool b => exact .bool b
  | hnumber n => exact .number n
  | hliteral l => exact .literal l
  | hstring text => exact .string text
  | harray items ih =>
      rw [ofNative_array] at h
      cases h with
      | array h => exact .array items fun item hitem => ih item hitem (h _ (List.mem_map_of_mem hitem))
  | hobject members ih =>
      rw [ofNative_object] at h
      cases h with
      | object hkeys h =>
          rw [List.map_map] at hkeys
          refine .object members ?_ fun m hm => ih m hm (h _ (List.mem_map_of_mem hm))
          exact List.Nodup.of_map unitsOf (by rw [List.map_map]; exact hkeys)

theorem Tree.Admissible.keyed (h : tree.Admissible) : tree.value.Keyed := by
  induction h with
  | null => exact .null
  | boolean b => exact .boolean b
  | number _ _ => exact .number _
  | string _ => exact .string _
  | array _ ih =>
      rw [Tree.value, Tree.values_eq_map]
      refine .array fun item hitem => ?_
      obtain ⟨tree, htree, rfl⟩ := List.mem_map.mp hitem
      exact ih tree htree
  | object hkeys _ _ ih =>
      rw [Tree.value, Tree.memberValues_eq_map]
      refine .object ?_ fun m hm => ?_
      · rw [List.map_map]; exact hkeys
      · obtain ⟨m', hm', rfl⟩ := List.mem_map.mp hm
        exact ih m' hm'

theorem Tree.Admissible.exists_plain (h : tree.Admissible) :
    ∃ a, Plain a ∧ ofNative a = tree.value := by
  induction h with
  | null => exact ⟨.null, .null, rfl⟩
  | boolean b => exact ⟨.bool b, .bool b, rfl⟩
  | number _ hsafe => exact ⟨.number _, .number hsafe, rfl⟩
  | string hvalid =>
      obtain ⟨text, rfl⟩ := exists_unitsOf hvalid
      exact ⟨.string text, .string text, rfl⟩
  | array _ ih =>
      rw [Tree.value, Tree.values_eq_map]
      have hitems : ∀ item ∈ List.map Tree.value _, ∃ a, Plain a ∧ ofNative a = item :=
        List.forall_mem_map.mpr ih
      obtain ⟨as, has, hmap⟩ := exists_map_eq hitems
      exact ⟨.array as, .array has, by rw [ofNative_array, hmap]⟩
  | @object members _ htexts _ ih =>
      rw [Tree.value, Tree.memberValues_eq_map]
      have hmembers : ∀ m ∈ members.map fun m => (m.1, m.2.value),
          ∃ a : String × Native.Value, Plain a.2 ∧ (unitsOf a.1, ofNative a.2) = m :=
        List.forall_mem_map.mpr fun m hm => by
          obtain ⟨key, hkey⟩ := exists_unitsOf (htexts m hm)
          obtain ⟨a, ha, hvalue⟩ := ih m hm
          exact ⟨(key, a), ha, Prod.ext hkey hvalue⟩
      obtain ⟨as, has, hmap⟩ := exists_map_eq hmembers
      exact ⟨.object as, .object has, by rw [ofNative_object, hmap]⟩

/-! ### Round trips -/

/-- The texts the contract admits, and their values. -/
def Admits (s : Units) (v : Value) : Prop :=
  ∃ tree, IsJson s tree ∧ tree.Admissible ∧ tree.value = v

/-- The byte order mark begins no bytes of a text that begins with another character. -/
theorem take_ne_bom {cs : List Char} (h : (Utf.utf16 cs).head? ≠ some 0xFEFF) :
    (Utf.utf8 cs).take 3 ≠ [0xEF, 0xBB, 0xBF] := by
  intro hbom
  cases cs with
  | nil => cases hbom
  | cons c cs =>
      have hmark : Utf.utf8 (c :: cs) = String.utf8EncodeChar '\uFEFF' ++ (Utf.utf8 (c :: cs)).drop 3 := by
        conv => lhs; rw [← List.take_append_drop 3 (Utf.utf8 (c :: cs)), hbom]
        rfl
      obtain rfl := Utf.utf8EncodeChar_append_inj hmark
      exact h rfl

/-- **Strings: the grammar and what the contract asks beyond it.** -/
theorem parse_string {s : Units} : parseJson (.string s) = .ok v ↔ Admits s v :=
  parseText_eq_ok

/-- **Bytes: those of a text the contract admits.** -/
theorem parse_bytes :
    parseJson (.bytes bytes) = .ok v ↔ ∃ cs, Utf.utf8 cs = bytes ∧ Admits (Utf.utf16 cs) v := by
  constructor
  · intro h
    obtain ⟨s, hs, h⟩ := bind_eq_ok.mp h
    obtain ⟨-, hs⟩ := ensure_bind_eq_ok.mp hs
    cases hcs : Utf.decode8 bytes with
    | none =>
        simp only [hcs] at hs
        cases hs
    | some cs =>
        simp only [hcs] at hs
        cases hs
        exact ⟨cs, Utf.decode8_eq_some.mp hcs, parseText_eq_ok.mp h⟩
  · rintro ⟨cs, rfl, hadmits⟩
    have hhead : (Utf.utf16 cs).head? ≠ some 0xFEFF := by
      obtain ⟨tree, hjson, -⟩ := hadmits
      exact hjson.head_ne_bom
    refine bind_eq_ok.mpr ⟨Utf.utf16 cs, ?_, parseText_eq_ok.mpr hadmits⟩
    refine ensure_bind_eq_ok.mpr ⟨take_ne_bom hhead, ?_⟩
    simp only [Utf.decode8_utf8]
    rfl

/-- **What is written is read back with its members in order.** -/
theorem parse_canonicalBytes (hv : v.Keyed) (h : canonicalBytes v = .ok bytes) :
    parseJson (.bytes bytes) = .ok (sorted v) := by
  obtain ⟨a, ha, rfl, rfl⟩ := canonicalBytes_eq_ok.mp h
  have hwritten := written_of_plain (plain_sorted ha)
  unfold Written at hwritten
  rw [← sorted_ofNative] at hwritten
  obtain ⟨tree, htree, hadmissible, hvalue⟩ := derived _ (keyed_sorted hv) _ hwritten
  refine parse_bytes.mpr ⟨a.canonical, rfl, tree, ⟨[], _, [], ws_nil, ws_nil, ?_, htree⟩,
    hadmissible, hvalue⟩
  rw [List.nil_append, List.append_nil]
  rfl

/-- **Values have the same canonical bytes if and only if they are the same up to order.** -/
theorem canonicalBytes_eq_iff {w : Value} (hv : v.Keyed) (h : canonicalBytes v = .ok bytes) :
    canonicalBytes w = .ok bytes ↔ v.Same w := by
  obtain ⟨a, ha, rfl, rfl⟩ := canonicalBytes_eq_ok.mp h
  have hkeyed := keyed_of_ofNative hv
  constructor
  · intro hw
    obtain ⟨b, -, rfl, heq⟩ := canonicalBytes_eq_ok.mp hw
    have hchars : b.canonical = a.canonical := by
      have hdecode := Utf.decode8_utf8 b.canonical
      rw [heq, Utf.decode8_utf8] at hdecode
      exact (Option.some.inj hdecode).symm
    exact same_ofNative ((Native.Value.canonical_eq_iff hkeyed).mp hchars.symm)
  · intro hsame
    obtain ⟨b, ⟨hb, hab⟩, rfl⟩ := exists_of_same hsame a ha rfl
    rw [canonicalBytes_ofNative hb, (Native.Value.canonical_eq_iff hkeyed).mpr hab]

theorem same_sorted_of_canonicalBytes (h : canonicalBytes v = .ok bytes) : v.Same (sorted v) := by
  obtain ⟨a, -, rfl, -⟩ := canonicalBytes_eq_ok.mp h
  rw [sorted_ofNative]
  exact same_ofNative (same_sorted a)

theorem Admits.writes {s : Units} (h : Admits s v) :
    v.Keyed ∧ ∃ bytes, canonicalBytes v = .ok bytes := by
  obtain ⟨tree, -, hadmissible, rfl⟩ := h
  obtain ⟨a, ha, hvalue⟩ := hadmissible.exists_plain
  exact ⟨hadmissible.keyed, Utf.utf8 a.canonical, hvalue ▸ canonicalBytes_ofNative ha⟩

theorem writes_of_parse {input : Input} (h : parseJson input = .ok v) :
    v.Keyed ∧ ∃ bytes, canonicalBytes v = .ok bytes := by
  cases input with
  | string s => exact (parse_string.mp h).writes
  | bytes bytes =>
      obtain ⟨cs, -, hadmits⟩ := parse_bytes.mp h
      exact hadmits.writes

/-- **The codec is exact.** -/
theorem codec_exact :
    (∀ (v : Json) (bytes : List UInt8), canonicalBytes v.1 = .ok bytes →
      ∃ w : Json, parseJson (.bytes bytes) = .ok w.1 ∧ v.1.Same w.1) ∧
    (∀ (input : Input) (v : Value), parseJson input = .ok v → v.Keyed ∧
      ∃ bytes w, canonicalBytes v = .ok bytes ∧ parseJson (.bytes bytes) = .ok w ∧ v.Same w ∧
        canonicalBytes w = .ok bytes ∧ ∀ v', canonicalBytes v' = .ok bytes ↔ v.Same v') ∧
    (∀ s v, parseJson (.string s) = .ok v ↔ Admits s v) ∧
    ∀ bytes v, parseJson (.bytes bytes) = .ok v ↔
      ∃ cs, Utf.utf8 cs = bytes ∧ Admits (Utf.utf16 cs) v := by
  refine ⟨fun v bytes h => ?_, fun input v h => ?_, fun s v => parse_string,
    fun bytes v => parse_bytes⟩
  · exact ⟨⟨sorted v.1, keyed_sorted v.2⟩, parse_canonicalBytes v.2 h,
      same_sorted_of_canonicalBytes h⟩
  · obtain ⟨hv, bytes, hbytes⟩ := writes_of_parse h
    have hsame := same_sorted_of_canonicalBytes hbytes
    exact ⟨hv, bytes, sorted v, hbytes, parse_canonicalBytes hv hbytes, hsame,
      (canonicalBytes_eq_iff hv hbytes).mpr hsame, fun v' => canonicalBytes_eq_iff hv hbytes⟩

end Baleyg.Contract
