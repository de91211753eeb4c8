/-
The contract writes the bytes the indexer writes.

`ofNative` is a value of the indexer as the tools of the contract hold it: a text is its code
units.  What the encoder of the contract takes is exactly the image of the values both sides
know, those whose numbers are safe natural ones; on these the two write the same text, character
by character, and sort members alike, since the bytes of two keys compare as their characters do.
-/
import Mathlib.Data.String.Basic
import Mathlib.Algebra.Order.Ring.Nat
import Baleyg.Contract.Json
import Baleyg.Native.Canonical

namespace Baleyg.Contract

open Fallible (ensure bind_eq_ok ensure_bind_eq_ok ensure_eq_ok)

/-! ### Values of the other side -/

mutual

/-- A value of the indexer as the contract holds it. -/
def ofNative : Native.Value → Value
  | .null => .null
  | .bool b => .boolean b
  | .number n => .number (.natural n)
  | .literal _ => .number .other
  | .string text => .string (unitsOf text)
  | .array items => .array (ofNatives items)
  | .object members => .object (ofMembers members)

def ofNatives : List Native.Value → List Value
  | [] => []
  | item :: items => ofNative item :: ofNatives items

def ofMembers : List (String × Native.Value) → List (Units × Value)
  | [] => []
  | (key, value) :: members => (unitsOf key, ofNative value) :: ofMembers members

end

theorem ofNatives_eq_map (items : List Native.Value) : ofNatives items = items.map ofNative := by
  induction items with
  | nil => rfl
  | cons item items ih => rw [ofNatives, ih, List.map_cons]

theorem ofMembers_eq_map (members : List (String × Native.Value)) :
    ofMembers members = members.map fun m => (unitsOf m.1, ofNative m.2) := by
  induction members with
  | nil => rfl
  | cons member members ih => rw [ofMembers, ih, List.map_cons]

theorem ofNative_array (items : List Native.Value) :
    ofNative (.array items) = .array (items.map ofNative) := by
  rw [ofNative, ofNatives_eq_map]

theorem ofNative_object (members : List (String × Native.Value)) :
    ofNative (.object members) = .object (members.map fun m => (unitsOf m.1, ofNative m.2)) := by
  rw [ofNative, ofMembers_eq_map]

/-- Every number is a safe natural one. -/
inductive Plain : Native.Value → Prop where
  | null : Plain .null
  | bool (b : Bool) : Plain (.bool b)
  | number {n : Nat} (h : n ≤ maxSafeInteger) : Plain (.number n)
  | string (text : String) : Plain (.string text)
  | array {items : List Native.Value} (h : ∀ item ∈ items, Plain item) : Plain (.array items)
  | object {members : List (String × Native.Value)} (h : ∀ m ∈ members, Plain m.2) :
      Plain (.object members)

/-! ### Texts -/

theorem validString_unitsOf (text : String) : validString (unitsOf text) = true :=
  Utf.wellFormed_utf16 text.toList

theorem exists_unitsOf {s : Units} (h : validString s = true) : ∃ text, unitsOf text = s :=
  ⟨String.ofList (Utf.decode s), by
    unfold unitsOf
    rw [String.toList_ofList, Utf.utf16_decode h]⟩

theorem unitsOf_injective {a b : String} (h : unitsOf a = unitsOf b) : a = b :=
  String.toList_inj.mp (Utf.utf16_injective h)

theorem bufferFrom_utf16 (cs : List Char) : bufferFrom (Utf.utf16 cs) = Utf.utf8 cs := by
  unfold bufferFrom
  rw [Utf.decode_utf16]

variable {c : Char} {i : Nat} {v : Native.Value} {items : List Value} {parts : List Units}

theorem units_of_small (h : c.toNat < 0x10000) : Utf.units c = [unit c] := by
  unfold Utf.units
  rw [if_pos h]
  rfl

theorem utf16_of_small {cs : List Char} (h : ∀ c ∈ cs, c.toNat < 0x10000) :
    Utf.utf16 cs = cs.map unit := by
  induction cs with
  | nil => rfl
  | cons c cs ih =>
      obtain ⟨hc, hcs⟩ := List.forall_mem_cons.mp h
      rw [Utf.utf16_cons, units_of_small hc, ih hcs]
      rfl

theorem unit_toNat (h : c.toNat < 0x10000) : (unit c).toNat = c.toNat := by
  unfold unit
  rw [UInt16.toNat_ofNat']
  exact Nat.mod_eq_of_lt h

theorem eq_of_unit_eq {d : Char} (hc : c.toNat < 0x10000) (hd : d.toNat < 0x10000)
    (h : unit c = unit d) : c = d := by
  refine Char.toNat_inj.mp ?_
  rw [← unit_toNat hc, ← unit_toNat hd, h]

theorem escape_surrogate {u : UInt16} (h : Utf.isHigh u = true ∨ Utf.isLow u = true) :
    escape u = [u] := by
  have hlarge : 0xD800 ≤ u.toNat := by
    rcases h with h | h
    · exact (Utf.isHigh_eq.mp h).1
    · exact le_trans (by decide) (Utf.isLow_eq.mp h).1
  have hne : ∀ c : Char, c.toNat < 0xD800 → u ≠ unit c := fun c hc heq => by
    rw [heq, unit_toNat (by omega)] at hlarge
    omega
  unfold escape
  rw [if_neg (hne _ (by decide)), if_neg (hne _ (by decide)), if_neg (by omega)]

/-- **The code of a character is that of its code units.** -/
theorem flatMap_escape_units (c : Char) :
    (Utf.units c).flatMap escape = Utf.utf16 (Native.Value.escape c) := by
  rcases Utf.units_cases c with ⟨u, hunits, hhigh, hlow, hsingle, hnat⟩ | ⟨u, v, hunits, hu, hv, _⟩
  · have hsmall : c.toNat < 0x10000 := hnat ▸ u.toNat_lt
    have hunit : u = unit c := UInt16.toNat_inj.mp (hnat.trans (unit_toNat hsmall).symm)
    rw [hunits, List.flatMap_singleton, hunit]
    unfold escape Native.Value.escape
    by_cases hquote : c = '\x22'
    · subst hquote; rfl
    by_cases hback : c = '\x5c'
    · subst hback; rfl
    rw [if_neg fun h => hquote (eq_of_unit_eq hsmall (by decide) h),
      if_neg fun h => hback (eq_of_unit_eq hsmall (by decide) h), unit_toNat hsmall, if_neg hquote,
      if_neg hback]
    by_cases hcontrol : c.toNat < 32
    · have hdigit : ∀ n < 16, (Nat.digitChar n).toNat < 0x10000 := by decide
      rw [if_pos hcontrol, if_pos hcontrol, utf16_of_small]
      · rfl
      · simp only [List.forall_mem_cons, List.not_mem_nil, false_imp_iff, implies_true, and_true]
        exact ⟨by decide, by decide, by decide, by decide, hdigit _ (by omega),
          hdigit _ (Nat.mod_lt _ (by decide))⟩
    · rw [if_neg hcontrol, if_neg hcontrol, utf16_of_small]
      · rfl
      · exact fun d hd => List.mem_singleton.mp hd ▸ hsmall
  · have hlarge : ¬ c.toNat < 0x10000 := fun h => by
      rw [units_of_small h] at hunits
      cases hunits
    have hplain : Native.Value.escape c = [c] := by
      unfold Native.Value.escape
      rw [if_neg, if_neg, if_neg (by omega)]
      · rintro rfl
        exact hlarge (by decide)
      · rintro rfl
        exact hlarge (by decide)
    rw [hunits, hplain, Utf.utf16_cons, Utf.utf16_nil, List.append_nil, hunits, List.flatMap_cons,
      List.flatMap_singleton, escape_surrogate (.inl hu), escape_surrogate (.inr hv)]
    rfl

theorem flatMap_escape_utf16 (cs : List Char) :
    (Utf.utf16 cs).flatMap escape = Utf.utf16 (cs.flatMap Native.Value.escape) := by
  induction cs with
  | nil => rfl
  | cons c cs ih =>
      rw [Utf.utf16_cons, List.flatMap_append, ih, flatMap_escape_units, List.flatMap_cons,
        Utf.utf16_append]

theorem utf16_unit (h : c.toNat < 0x10000) (cs : List Char) :
    Utf.utf16 (c :: cs) = unit c :: Utf.utf16 cs := by
  rw [Utf.utf16_cons, units_of_small h]
  rfl

theorem encodeString_unitsOf (text : String) :
    encodeString (unitsOf text) = .ok (Utf.utf16 (Native.Value.quote text)) := by
  refine ensure_bind_eq_ok.mpr ⟨validString_unitsOf text, congrArg Except.ok ?_⟩
  unfold quote unitsOf Native.Value.quote
  rw [flatMap_escape_utf16, utf16_unit (by decide), Utf.utf16_append]
  rfl

theorem decimal_eq (n : Nat) : decimal n = Utf.utf16 (Nat.toDigits 10 n) := by
  unfold decimal
  rw [utf16_of_small fun c hc => ?_]
  have hdigit : c.isDigit = true := Nat.isDigit_of_mem_toDigits (by decide) (by decide) hc
  rw [Char.isDigit, Bool.and_eq_true, decide_eq_true_iff, decide_eq_true_iff] at hdigit
  have hnine : c.toNat ≤ 57 := UInt32.le_iff_toNat_le.mp hdigit.2
  omega

/-! ### Encoding -/

theorem join_cons (part : Units) (parts : List Units) :
    join (part :: parts) = part ++ parts.flatMap fun p => unit ',' :: p := by
  induction parts generalizing part with
  | nil => simp [join, List.intercalate]
  | cons next parts ih =>
      have hjoin : join (part :: next :: parts) = part ++ (unit ',' :: join (next :: parts)) := by
        simp [join, List.intercalate, List.intersperse]
      rw [hjoin, ih, List.flatMap_cons, List.cons_append]

def Written (v : Native.Value) : Prop :=
  encode (ofNative v) = .ok (Utf.utf16 v.emit)

theorem encodeItems_cons (h : Written v) : encodeItems i (ofNative v :: items) =
      (encodeItems (i + 1) items).map fun parts => Utf.utf16 v.emit :: parts := by
  have hcons : encodeItems i (ofNative v :: items) = (encode (ofNative v)).bind fun part =>
      (encodeItems (i + 1) items).map fun parts => part :: parts := by
    cases v <;> rw [ofNative, encodeItems] <;> first | rfl | (intro h; cases h)
  rw [hcons, h]
  rfl

theorem encodeItems_written {items : List Native.Value} (h : ∀ v ∈ items, Written v) :
    encodeItems i (items.map ofNative) = .ok (items.map fun v => Utf.utf16 v.emit) := by
  induction items generalizing i with
  | nil => rfl
  | cons v items ih =>
      obtain ⟨hv, hitems⟩ := List.forall_mem_cons.mp h
      rw [List.map_cons, encodeItems_cons hv, ih hitems]
      rfl

theorem encodeMembers_written {members : List (String × Native.Value)}
    (h : ∀ m ∈ members, Written m.2) :
    encodeMembers (members.map fun m => (unitsOf m.1, ofNative m.2)) =
      .ok (members.map fun m => Utf.utf16 (Native.Value.quote m.1 ++ ':' :: m.2.emit)) := by
  induction members with
  | nil => rfl
  | cons m members ih =>
      obtain ⟨hm, hmembers⟩ := List.forall_mem_cons.mp h
      rw [List.map_cons, encodeMembers, encodeString_unitsOf, hm, ih hmembers, List.map_cons,
        Utf.utf16_append, utf16_unit (by decide)]
      rfl

theorem emitItems_false (items : List Native.Value) :
    Native.Value.emitItems false items = items.flatMap (fun v => ',' :: v.emit) ++ [']'] := by
  induction items with
  | nil => rfl
  | cons v items ih =>
      rw [Native.Value.emitItems, ih, List.flatMap_cons]
      simp [Native.Value.comma]

theorem emitMembers_false (members : List (String × Native.Value)) :
    Native.Value.emitMembers false members =
      members.flatMap (fun m => ',' :: (Native.Value.quote m.1 ++ ':' :: m.2.emit)) ++ ['\x7d'] := by
  induction members with
  | nil => rfl
  | cons m members ih =>
      rw [Native.Value.emitMembers, ih, List.flatMap_cons]
      simp [Native.Value.comma]

theorem utf16_flatMap_comma {α : Type} (f : α → List Char) (xs : List α) :
    Utf.utf16 (xs.flatMap fun x => ',' :: f x) =
      (xs.map fun x => Utf.utf16 (f x)).flatMap fun p => unit ',' :: p := by
  induction xs with
  | nil => rfl
  | cons x xs ih =>
      rw [List.flatMap_cons, Utf.utf16_append, ih, List.map_cons, List.flatMap_cons,
        utf16_unit (by decide)]

theorem utf16_emitItems (items : List Native.Value) :
    Utf.utf16 (Native.Value.emitItems true items) =
      join (items.map fun v => Utf.utf16 v.emit) ++ [unit ']'] := by
  cases items with
  | nil => rfl
  | cons v items =>
      rw [Native.Value.emitItems, emitItems_false, List.map_cons, join_cons, Native.Value.comma,
        if_pos rfl, List.nil_append, Utf.utf16_append, Utf.utf16_append, utf16_flatMap_comma,
        List.append_assoc]
      rfl

theorem utf16_emitMembers (members : List (String × Native.Value)) :
    Utf.utf16 (Native.Value.emitMembers true members) =
      join (members.map fun m => Utf.utf16 (Native.Value.quote m.1 ++ ':' :: m.2.emit)) ++
        [unit '\x7d'] := by
  cases members with
  | nil => rfl
  | cons m members =>
      rw [Native.Value.emitMembers, emitMembers_false, List.map_cons, join_cons, Native.Value.comma,
        if_pos rfl, List.nil_append, ← List.cons_append, ← List.append_assoc, ← List.append_assoc,
        Utf.utf16_append, Utf.utf16_append, utf16_flatMap_comma]
      rfl

/-- **The encoder writes what the indexer writes.** -/
theorem written_of_plain (h : Plain v) : Written v := by
  unfold Written
  induction h with
  | null => rfl
  | bool b => cases b <;> rfl
  | number h =>
      rw [ofNative, encode, Native.Value.emit, ← decimal_eq]
      exact ensure_bind_eq_ok.mpr ⟨h, rfl⟩
  | string text => exact encodeString_unitsOf text
  | array _ ih =>
      rw [ofNative_array, encode, encodeItems_written ih, Native.Value.emit,
        utf16_unit (by decide), utf16_emitItems]
      rfl
  | object _ ih =>
      rw [ofNative_object, encode, encodeMembers_written ih, Native.Value.emit,
        utf16_unit (by decide), utf16_emitMembers]
      rfl

/-! ### The order of members -/

theorem upTo_iff (cs ds : List Char) : Utf.upTo cs ds = true ↔ ¬ ds < cs := by
  induction cs generalizing ds with
  | nil => exact ⟨fun _ => List.not_lt_nil ds, fun _ => rfl⟩
  | cons c cs ih =>
      cases ds with
      | nil => exact ⟨fun h => (by cases h), fun h => absurd (List.nil_lt_cons c cs) h⟩
      | cons d ds =>
          show (decide (c < d) || (c == d && Utf.upTo cs ds)) = true ↔ _
          rw [List.cons_lt_cons_iff, Bool.or_eq_true, decide_eq_true_iff, Bool.and_eq_true,
            beq_iff_eq, ih, not_or, not_and]
          constructor
          · rintro (hlt | ⟨rfl, hrest⟩)
            · exact ⟨lt_asymm hlt, fun heq => absurd (heq ▸ hlt) (lt_irrefl _)⟩
            · exact ⟨lt_irrefl c, fun _ => hrest⟩
          · rintro ⟨hnot, hrest⟩
            rcases lt_trichotomy c d with hlt | rfl | hgt
            · exact .inl hlt
            · exact .inr ⟨rfl, hrest rfl⟩
            · exact absurd hgt hnot

theorem byKey_unitsOf (a b : String × Native.Value) :
    byKey (unitsOf a.1, ofNative a.2) (unitsOf b.1, ofNative b.2) = Native.Value.byKey a b := by
  unfold byKey unitsOf Native.Value.byKey
  rw [bufferFrom_utf16, bufferFrom_utf16, Utf.upTo_utf8, Bool.eq_iff_iff, upTo_iff,
    decide_eq_true_iff]
  exact Iff.rfl

theorem sortedItems_eq_map (items : List Value) : sortedItems items = items.map sorted := by
  induction items with
  | nil => rfl
  | cons item items ih => rw [sortedItems, ih, List.map_cons]

theorem sortedMembers_eq_map (members : List (Units × Value)) :
    sortedMembers members = members.map fun m => (m.1, sorted m.2) := by
  induction members with
  | nil => rfl
  | cons member members ih => rw [sortedMembers, ih, List.map_cons]

@[simp] theorem sorted_array (items : List Value) :
    sorted (.array items) = .array (items.map sorted) := by
  rw [sorted, sortedItems_eq_map]

theorem sorted_object (members : List (Units × Value)) :
    sorted (.object members) =
      .object ((members.map fun m => (m.1, sorted m.2)).insertionSort fun a b => byKey a b) := by
  rw [sorted, sortedMembers_eq_map]

/-- **Both sides sort members alike.** -/
theorem sorted_ofNative (v : Native.Value) : sorted (ofNative v) = ofNative v.sorted := by
  induction v using Native.Value.induct with
  | hnull | hbool | hnumber | hliteral | hstring => rfl
  | harray items ih =>
      rw [ofNative_array, sorted_array, Native.Value.sorted_array, ofNative_array, List.map_map,
        List.map_map]
      exact congrArg Value.array (List.map_congr_left ih)
  | hobject members ih =>
      rw [ofNative_object, sorted_object, Native.Value.sorted_object, ofNative_object,
        List.map_insertionSort _ (fun a b => byKey a b) _ _ fun a _ b _ => by rw [byKey_unitsOf],
        List.map_map, List.map_map]
      refine congrArg (fun ms => Value.object (ms.insertionSort fun a b => byKey a b))
        (List.map_congr_left ?_)
      exact fun m hm => congrArg (Prod.mk (unitsOf m.1)) (ih m hm)

theorem plain_sorted (h : Plain v) : Plain v.sorted := by
  induction h with
  | null => exact .null
  | bool b => exact .bool b
  | number h => rw [Native.Value.sorted_number]; exact .number h
  | string text => rw [Native.Value.sorted_string]; exact .string text
  | array _ ih =>
      rw [Native.Value.sorted_array]
      refine .array fun item hitem => ?_
      obtain ⟨item', hitem', rfl⟩ := List.mem_map.mp hitem
      exact ih item' hitem'
  | object _ ih =>
      rw [Native.Value.sorted_object]
      refine .object fun m hm => ?_
      obtain ⟨m', hm', rfl⟩ := List.mem_map.mp ((List.mem_insertionSort _).mp hm)
      exact ih m' hm'

/-- **The canonical bytes of the contract are those of the indexer.** -/
theorem canonicalBytes_ofNative (h : Plain v) :
    canonicalBytes (ofNative v) = .ok (Utf.utf8 v.canonical) := by
  have hwritten := written_of_plain (plain_sorted h)
  unfold Written at hwritten
  unfold canonicalBytes
  rw [sorted_ofNative, hwritten]
  exact congrArg Except.ok (bufferFrom_utf16 _)

/-! ### What the encoder takes -/

theorem Value.induct {P : Value → Prop} (hnull : P .null) (hboolean : ∀ b, P (.boolean b))
    (hnumber : ∀ x, P (.number x)) (hstring : ∀ s, P (.string s))
    (harray : ∀ items, (∀ item ∈ items, P item) → P (.array items))
    (hobject : ∀ members, (∀ m ∈ members, P m.2) → P (.object members)) (hhole : P .hole)
    (hforeign : P .foreign) (v : Value) : P v :=
  @Value.rec P (fun items => ∀ item ∈ items, P item) (fun members => ∀ m ∈ members, P m.2)
    (fun m => P m.2) hnull hboolean hnumber hstring harray hobject hhole hforeign
    (fun _ h => absurd h List.not_mem_nil)
    (fun _ _ hitem hitems => List.forall_mem_cons.mpr ⟨hitem, hitems⟩)
    (fun _ h => absurd h List.not_mem_nil)
    (fun _ _ hmember hmembers => List.forall_mem_cons.mpr ⟨hmember, hmembers⟩)
    (fun _ _ hvalue => hvalue) v

theorem encodeItems_cons_eq_ok {item : Value} (h : encodeItems i (item :: items) = .ok parts) :
    ∃ s rest, encode item = .ok s ∧ encodeItems (i + 1) items = .ok rest ∧ parts = s :: rest := by
  cases item
  case hole => cases h
  all_goals
    obtain ⟨s, hs, h⟩ := bind_eq_ok.mp h
    obtain ⟨rest, hrest, h⟩ := bind_eq_ok.mp h
    exact ⟨s, rest, hs, hrest, (Except.ok.inj h).symm⟩

theorem encode_of_items (h : encodeItems i items = .ok parts) :
    ∀ item ∈ items, ∃ s, encode item = .ok s := by
  induction items generalizing i parts with
  | nil => exact fun _ h => absurd h List.not_mem_nil
  | cons item items ih =>
      obtain ⟨s, rest, hs, hrest, -⟩ := encodeItems_cons_eq_ok h
      exact List.forall_mem_cons.mpr ⟨⟨s, hs⟩, ih hrest⟩

theorem encode_of_members {members : List (Units × Value)} (h : encodeMembers members = .ok parts) :
    ∀ m ∈ members, validString m.1 = true ∧ ∃ s, encode m.2 = .ok s := by
  induction members generalizing parts with
  | nil => exact fun _ h => absurd h List.not_mem_nil
  | cons m members ih =>
      obtain ⟨name, hname, h⟩ := bind_eq_ok.mp h
      obtain ⟨part, hpart, h⟩ := bind_eq_ok.mp h
      obtain ⟨rest, hrest, -⟩ := bind_eq_ok.mp h
      exact List.forall_mem_cons.mpr ⟨⟨(ensure_bind_eq_ok.mp hname).1, part, hpart⟩, ih hrest⟩

theorem exists_map_eq {α β : Type} {f : α → β} {P : α → Prop} {ys : List β}
    (h : ∀ y ∈ ys, ∃ x, P x ∧ f x = y) : ∃ xs : List α, (∀ x ∈ xs, P x) ∧ xs.map f = ys := by
  induction ys with
  | nil => exact ⟨[], fun _ h => absurd h List.not_mem_nil, rfl⟩
  | cons y ys ih =>
      obtain ⟨⟨x, hx, rfl⟩, hys⟩ := List.forall_mem_cons.mp h
      obtain ⟨xs, hxs, rfl⟩ := ih hys
      exact ⟨x :: xs, List.forall_mem_cons.mpr ⟨hx, hxs⟩, rfl⟩

/-- **The encoder takes nothing but values of the other side.** -/
theorem exists_plain_of_encode {v : Value} {s : Units} (h : encode (sorted v) = .ok s) :
    ∃ w, Plain w ∧ ofNative w = v := by
  induction v using Value.induct generalizing s with
  | hnull => exact ⟨.null, .null, rfl⟩
  | hboolean b => exact ⟨.bool b, .bool b, rfl⟩
  | hnumber x =>
      cases x with
      | natural n => exact ⟨.number n, .number (ensure_bind_eq_ok.mp h).1, rfl⟩
      | other => cases h
  | hstring t =>
      obtain ⟨text, rfl⟩ := exists_unitsOf (ensure_bind_eq_ok.mp h).1
      exact ⟨.string text, .string text, rfl⟩
  | harray items ih =>
      rw [sorted_array] at h
      obtain ⟨parts, hparts, -⟩ := bind_eq_ok.mp h
      obtain ⟨ws, hws, rfl⟩ := exists_map_eq fun item hitem =>
        let ⟨_, hs⟩ := encode_of_items hparts (sorted item) (List.mem_map_of_mem hitem)
        ih item hitem hs
      exact ⟨.array ws, .array hws, ofNative_array ws⟩
  | hobject members ih =>
      rw [sorted_object] at h
      obtain ⟨parts, hparts, -⟩ := bind_eq_ok.mp h
      have hmember : ∀ m ∈ members, ∃ w : String × Native.Value, Plain w.2 ∧
          (unitsOf w.1, ofNative w.2) = m := fun m hm => by
        have hsorted : (m.1, sorted m.2) ∈
            (members.map fun m => (m.1, sorted m.2)).insertionSort fun a b => byKey a b :=
          (List.mem_insertionSort _).mpr (List.mem_map_of_mem hm)
        obtain ⟨hkey, s, hs⟩ := encode_of_members hparts _ hsorted
        obtain ⟨key, hkey⟩ := exists_unitsOf hkey
        obtain ⟨w, hw, hvalue⟩ := ih m hm hs
        exact ⟨(key, w), hw, Prod.ext hkey hvalue⟩
      obtain ⟨ws, hws, rfl⟩ := exists_map_eq hmember
      exact ⟨.object ws, .object hws, ofNative_object ws⟩
  | hhole | hforeign => cases h

/-- **What has canonical bytes is a value of both sides, and the bytes are those of the other.** -/
theorem canonicalBytes_eq_ok {v : Value} {bytes : List UInt8} :
    canonicalBytes v = .ok bytes ↔
      ∃ w, Plain w ∧ ofNative w = v ∧ Utf.utf8 w.canonical = bytes := by
  constructor
  · intro h
    obtain ⟨s, hs, -⟩ := bind_eq_ok.mp h
    obtain ⟨w, hw, rfl⟩ := exists_plain_of_encode hs
    rw [canonicalBytes_ofNative hw] at h
    exact ⟨w, hw, rfl, Except.ok.inj h⟩
  · rintro ⟨w, hw, rfl, rfl⟩
    exact canonicalBytes_ofNative hw

end Baleyg.Contract
