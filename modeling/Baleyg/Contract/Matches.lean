/-
What a value of the indexer must be for a format to take it.

`Matches` says of a value of the other side what `walk` looks for in a value of this one.  It
follows the formats, so it is proved of an input field by field, and it is all that a digest
asks: what matches is walked through, and it can be written.
-/
import Baleyg.Contract.Agree
import Baleyg.Contract.Formats
import Baleyg.Native.Intake

namespace Baleyg.Contract

open Fallible (ensure bind_eq_ok ensure_eq_ok ensure_bind_eq_ok forM_eq_ok)
open Native (validHash validSyntaxId IdentityPath)

/-! ### Scalars of both sides -/

variable {s : String} {c : Char}

theorem unitsOf_eq_nil : unitsOf s = [] ↔ s = "" :=
  ⟨fun h => unitsOf_injective (h.trans rfl), fun h => h ▸ rfl⟩

theorem isText_unitsOf (h : s ≠ "") : isText (unitsOf s) = true := by
  unfold isText
  rw [validString_unitsOf, Bool.and_true, Bool.not_eq_true', List.isEmpty_eq_false_iff]
  exact fun hnil => h (unitsOf_eq_nil.mp hnil)

theorem lowerHex_small (h : Native.isLowerHex c = true) : c.toNat < 128 := by
  unfold Native.isLowerHex at h
  simp only [Bool.or_eq_true, Bool.and_eq_true, decide_eq_true_eq] at h
  have hf : c.toNat ≤ 102 := by
    rcases h with ⟨-, h⟩ | ⟨-, h⟩
    · exact (UInt32.le_iff_toNat_le.mp h).trans (by decide)
    · exact UInt32.le_iff_toNat_le.mp h
  omega

theorem isLowerHex_unit (h : Native.isLowerHex c = true) : isLowerHex (unit c) = true := by
  have hsmall := lowerHex_small h
  unfold Native.isLowerHex at h
  unfold isLowerHex
  simp only [Bool.or_eq_true, Bool.and_eq_true, decide_eq_true_eq] at h ⊢
  simp only [UInt16.le_iff_toNat_le, unit_toNat (c := c) (by omega)]
  rcases h with ⟨h, h'⟩ | ⟨h, h'⟩
  · exact .inl ⟨UInt32.le_iff_toNat_le.mp h, UInt32.le_iff_toNat_le.mp h'⟩
  · exact .inr ⟨UInt32.le_iff_toNat_le.mp h, UInt32.le_iff_toNat_le.mp h'⟩

theorem utf16_lowerHex {cs : List Char} (h : cs.all Native.isLowerHex = true) :
    Utf.utf16 cs = cs.map unit ∧ (cs.map unit).all isLowerHex = true ∧
      (cs.map Char.utf8Size).sum = cs.length := by
  rw [List.all_eq_true] at h
  refine ⟨utf16_of_small fun c hc => ?_, ?_, ?_⟩
  · have hsmall := lowerHex_small (h c hc)
    omega
  · rw [List.all_eq_true]
    intro u hu
    obtain ⟨c, hc, rfl⟩ := List.mem_map.mp hu
    exact isLowerHex_unit (h c hc)
  · induction cs with
    | nil => rfl
    | cons c cs ih =>
        obtain ⟨hc, hcs⟩ := List.forall_mem_cons.mp h
        have hsize : c.utf8Size = 1 := by
          have hsmall := lowerHex_small hc
          unfold Char.utf8Size
          rw [if_pos (UInt32.le_iff_toNat_le.mpr (by
            show c.toNat ≤ 127
            omega))]
        rw [List.map_cons, List.sum_cons, ih hcs, hsize, List.length_cons, Nat.add_comm]

theorem isHash_unitsOf (h : validHash s = true) : isHash (unitsOf s) = true := by
  unfold validHash Native.byteLength at h
  rw [Bool.and_eq_true, beq_iff_eq] at h
  obtain ⟨hunits, hall, hsize⟩ := utf16_lowerHex h.2
  unfold isHash unitsOf
  rw [hunits, hall, Bool.and_true, beq_iff_eq, List.length_map, ← hsize]
  exact h.1

theorem isSyntaxId_unitsOf (h : validSyntaxId s = true) : isSyntaxId (unitsOf s) = true := by
  unfold validSyntaxId Native.byteLength at h
  rw [Bool.and_eq_true, Bool.and_eq_true, beq_iff_eq, beq_iff_eq] at h
  obtain ⟨⟨hlength, hlead⟩, hdigits⟩ := h
  obtain ⟨hunits, hall, hsize⟩ := utf16_lowerHex hdigits
  have hsplit : unitsOf s = unitsOf "sid:v1:" ++ (s.toList.drop 7).map unit := by
    unfold unitsOf
    conv => lhs; rw [← List.take_append_drop 7 s.toList, Utf.utf16_append, hlead, hunits]
  have hseven : (unitsOf "sid:v1:").length = 7 := rfl
  have hcount : (s.toList.drop 7).length = 32 := by
    have htotal := hlength
    rw [← List.take_append_drop 7 s.toList, hlead, List.map_append, List.sum_append,
      hsize] at htotal
    have hseven : ("sid:v1:".toList.map Char.utf8Size).sum = 7 := rfl
    omega
  have htake : (unitsOf s).take 7 = unitsOf "sid:v1:" := by
    rw [hsplit, List.take_left' hseven]
  have hdrop : (unitsOf s).drop 7 = (s.toList.drop 7).map unit := by
    rw [hsplit, List.drop_left' hseven]
  unfold isSyntaxId
  rw [htake, hdrop, hall, beq_self_eq_true, List.length_map, hcount]
  rfl

/-- Splitting and encoding commute. -/
theorem splitOn_utf16 (cs : List Char) :
    (Utf.utf16 cs).splitOn (unit '/') = (cs.splitOn '/').map Utf.utf16 := by
  have hsurrogate : ∀ u, Utf.isHigh u = true ∨ Utf.isLow u = true → (u == unit '/') = false := by
    rintro u h
    refine beq_false_of_ne fun heq => ?_
    rw [heq] at h
    revert h
    decide
  unfold List.splitOn
  induction cs with
  | nil => rfl
  | cons c cs ih =>
      have hne : cs.splitOnP (· == '/') ≠ [] := List.splitOnP_ne_nil _ _
      obtain ⟨first, rest, hparts⟩ := List.exists_cons_of_ne_nil hne
      rw [hparts] at ih
      rw [Utf.utf16_cons, List.splitOnP_cons_eq_if_modifyHead, hparts]
      rcases Utf.units_cases c with ⟨u, hunits, -, -, -, hnat⟩ | ⟨u, v, hunits, hu, hv, -⟩
      · have hsmall : c.toNat < 0x10000 := hnat ▸ u.toNat_lt
        have hunit : u = unit c := UInt16.toNat_inj.mp (hnat.trans (unit_toNat hsmall).symm)
        rw [hunits, List.singleton_append, List.splitOnP_cons_eq_if_modifyHead, ih]
        by_cases hslash : c = '/'
        · rw [hunit, hslash, if_pos (beq_self_eq_true _), if_pos (beq_self_eq_true _)]
          rfl
        · have hother : (u == unit '/') = false := beq_false_of_ne fun heq =>
            hslash (eq_of_unit_eq hsmall (by decide) (hunit ▸ heq))
          rw [if_neg (by rw [hother]; exact Bool.false_ne_true), if_neg (by simpa using hslash)]
          simp only [List.modifyHead_cons, List.map_cons, Utf.utf16_cons, hunits,
            List.singleton_append]
      · have hslash : ¬ (c == '/') = true := by
          rw [beq_iff_eq]
          rintro rfl
          rw [units_of_small (by decide)] at hunits
          cases hunits
        rw [hunits, List.cons_append, List.singleton_append, List.splitOnP_cons_eq_if_modifyHead,
          List.splitOnP_cons_eq_if_modifyHead, ih, hsurrogate u (.inl hu),
          hsurrogate v (.inr hv), if_neg hslash]
        simp only [Bool.false_eq_true, if_false, List.modifyHead_cons, List.map_cons,
          Utf.utf16_cons, hunits, List.cons_append, List.nil_append]

theorem unit_mem_utf16 {cs : List Char} (hc : c.toNat < 0xD800) (h : unit c ∈ Utf.utf16 cs) :
    c ∈ cs := by
  obtain ⟨d, hd, hmem⟩ := List.mem_flatMap.mp h
  rcases Utf.units_cases d with ⟨u, hunits, -, -, -, hnat⟩ | ⟨u, v, hunits, hu, hv, -⟩
  · rw [hunits] at hmem
    have heq : c.toNat = d.toNat := by
      rw [← hnat, ← List.mem_singleton.mp hmem, unit_toNat (by omega)]
    exact Char.toNat_inj.mp heq ▸ hd
  · rw [hunits] at hmem
    have hcode : (unit c).toNat = c.toNat := unit_toNat (by omega)
    have hhigh := (Utf.isHigh_eq.mp hu).1
    have hlow := (Utf.isLow_eq.mp hv).1
    rcases List.mem_cons.mp hmem with heq | hmem
    · rw [← heq, hcode] at hhigh; omega
    · rw [← List.mem_singleton.mp hmem, hcode] at hlow; omega

/-- A path of one side is a path of the other. -/
theorem isPath_unitsOf (h : IdentityPath s.toList) : IsPath (unitsOf s) := by
  obtain ⟨hslash, hback, hzero, hparts⟩ := h
  have hne : s ≠ "" := by
    rintro rfl
    exact (hparts [] (by decide)).1 rfl
  refine ⟨isText_unitsOf hne, fun h => hback (unit_mem_utf16 (by decide) h),
    fun h => hzero (unit_mem_utf16 (by decide) h), fun hhead => ?_, fun part hpart => ?_⟩
  · unfold unitsOf at hhead
    cases hs : s.toList with
    | nil => exact hne (String.toList_inj.mp hs)
    | cons c cs =>
        rw [hs] at hslash hhead
        rw [Utf.utf16_cons] at hhead
        rcases Utf.units_cases c with ⟨u, hunits, -, -, -, hnat⟩ | ⟨u, v, hunits, hu, -, -⟩
        · rw [hunits] at hhead
          have hu : u = unit '/' := Option.some.inj hhead
          have hc : c = '/' := Char.toNat_inj.mp (by rw [← hnat, hu]; rfl)
          exact hslash (congrArg some hc)
        · rw [hunits] at hhead
          rw [Option.some.inj hhead] at hu
          revert hu
          decide
  · unfold unitsOf at hpart
    rw [splitOn_utf16] at hpart
    obtain ⟨part, hmem, rfl⟩ := List.mem_map.mp hpart
    obtain ⟨hempty, hdot, hdots⟩ := hparts part hmem
    exact ⟨fun h => hempty (Utf.utf16_injective (h.trans rfl)),
      fun h => hdot (Utf.utf16_injective (h.trans rfl)),
      fun h => hdots (Utf.utf16_injective (h.trans rfl))⟩

/-! ### Formats -/

/-- What a format takes, as a value of the other side. -/
inductive Matches : Spec → Native.Value → Prop where
  | text {s : String} (h : s ≠ "") : Matches .text (.string s)
  | uint {n : Nat} (h : n ≤ maxSafeInteger) : Matches .uint (.number n)
  | boolean (b : Bool) : Matches .boolean (.bool b)
  | hash {s : String} (h : validHash s = true) : Matches .hash (.string s)
  | syntaxId {s : String} (h : validSyntaxId s = true) : Matches .syntaxId (.string s)
  | path {s : String} (h : IdentityPath s.toList) : Matches .path (.string s)
  | null (spec : Spec) : Matches (.nullable spec) .null
  | present {spec : Spec} {v : Native.Value} (h : Matches spec v) : Matches (.nullable spec) v
  | enum {values : List String} {s : String} (h : s ∈ values) : Matches (.enum values) (.string s)
  | array {spec : Spec} {items : List Native.Value} (h : ∀ item ∈ items, Matches spec item) :
      Matches (.array spec) (.array items)
  | object {fields : List (String × Spec)} {members : List (String × Native.Value)}
      (hnodup : (fields.map Prod.fst).Nodup)
      (hkeys : (members.map Prod.fst).Perm (fields.map Prod.fst))
      (h : ∀ field ∈ fields, ∀ m ∈ members, m.1 = field.1 → Matches field.2 m.2) :
      Matches (.object fields) (.object members)

theorem Matches.plain {spec : Spec} {v : Native.Value} (h : Matches spec v) : Plain v := by
  induction h with
  | text _ | hash _ | syntaxId _ | path _ | enum _ => exact .string _
  | uint h => exact .number h
  | boolean b => exact .bool b
  | null _ => exact .null
  | present _ ih => exact ih
  | array _ ih => exact .array ih
  | object _ hkeys _ ih =>
      refine .object fun m hm => ?_
      obtain ⟨field, hfield, hname⟩ := List.mem_map.mp (hkeys.mem_iff.mp (List.mem_map_of_mem hm))
      exact ih field hfield m hm hname.symm

theorem walkItems_of {walk : Value → Units → Except FormatError Unit} {path : Units} {i : Nat}
    {items : List Native.Value}
    (h : ∀ item ∈ items, ∀ path, walk (ofNative item) path = .ok ()) :
    walkItems walk path i (items.map ofNative) = .ok () := by
  induction items generalizing i with
  | nil => rfl
  | cons item items ih =>
      obtain ⟨hitem, hitems⟩ := List.forall_mem_cons.mp h
      have hcons : walkItems walk path i (ofNative item :: items.map ofNative) =
          (walk (ofNative item) (atIndex path i)).bind fun _ =>
            walkItems walk path (i + 1) (items.map ofNative) := by
        cases item <;> rfl
      rw [List.map_cons, hcons, hitem]
      exact ih hitems

theorem lookup_unitsOf {members : List (String × Native.Value)} {m : String × Native.Value}
    (hnodup : (members.map Prod.fst).Nodup) (hm : m ∈ members) :
    (members.map fun m => (unitsOf m.1, ofNative m.2)).lookup (unitsOf m.1) =
      some (ofNative m.2) := by
  refine Lookup.lookup_of_nodup (List.mem_map.mpr ⟨m, hm, rfl⟩) ?_
  rw [List.map_map]
  have hkeys : (members.map Prod.fst).map unitsOf =
      members.map (Prod.fst ∘ fun m => (unitsOf m.1, ofNative m.2)) := by
    rw [List.map_map]
    rfl
  rw [← hkeys]
  exact hnodup.map fun _ _ h => unitsOf_injective h

theorem walkFields_of {fields : List (String × Spec)} {members : List (String × Native.Value)}
    {path : Units} (hnodup : (members.map Prod.fst).Nodup)
    (hkeys : ∀ field ∈ fields, ∃ m ∈ members, m.1 = field.1)
    (h : ∀ field ∈ fields, ∀ m ∈ members, m.1 = field.1 →
      ∀ path, walk field.2 (ofNative m.2) path = .ok ()) :
    walkFields fields (members.map fun m => (unitsOf m.1, ofNative m.2)) path = .ok () := by
  induction fields with
  | nil => rfl
  | cons field fields ih =>
      obtain ⟨⟨m, hm, hname⟩, hothers⟩ := List.forall_mem_cons.mp hkeys
      obtain ⟨hfield, hfields⟩ := List.forall_mem_cons.mp h
      obtain ⟨key, spec⟩ := field
      have hkey : key = m.1 := hname.symm
      subst hkey
      rw [walkFields, lookup_unitsOf hnodup hm, Option.getD_some, hfield m hm rfl]
      exact ih hothers hfields

/-- **What matches is walked through.** -/
theorem Matches.walks {spec : Spec} {v : Native.Value} (h : Matches spec v) (path : Units) :
    walk spec (ofNative v) path = .ok () := by
  induction h generalizing path with
  | text h => exact ensure_eq_ok.mpr (isText_unitsOf h)
  | uint h => exact ensure_eq_ok.mpr h
  | boolean | null => rfl
  | hash h => exact ensure_eq_ok.mpr (isHash_unitsOf h)
  | syntaxId h => exact ensure_eq_ok.mpr (isSyntaxId_unitsOf h)
  | path h => exact ensure_eq_ok.mpr (isPath_unitsOf h)
  | @present spec v _ ih =>
      cases v
      case null => rfl
      all_goals exact ih path
  | enum h => exact ensure_eq_ok.mpr (List.mem_map_of_mem h)
  | array _ ih =>
      rw [ofNative_array, walk]
      exact walkItems_of fun item hitem path => ih item hitem path
  | @object fields members hnodup hkeys _ ih =>
      have hmembers := hkeys.nodup_iff.mpr hnodup
      have hfields : ∀ field ∈ fields, ∃ m ∈ members, m.1 = field.1 := by
        intro field hfield
        exact List.mem_map.mp (hkeys.mem_iff.mpr (List.mem_map_of_mem hfield))
      rw [ofNative_object, walk]
      refine bind_eq_ok.mpr ⟨(), forM_eq_ok.mpr fun key hkey => ?_, bind_eq_ok.mpr
        ⟨(), forM_eq_ok.mpr fun m hm => ?_, walkFields_of hmembers hfields ih⟩⟩
      · obtain ⟨field, hfield, rfl⟩ := List.mem_map.mp hkey
        obtain ⟨m, hm, hname⟩ := hfields field hfield
        rw [← hname, lookup_unitsOf hmembers hm]
        exact ensure_eq_ok.mpr rfl
      · obtain ⟨m, hmem, rfl⟩ := List.mem_map.mp hm
        obtain ⟨field, hfield, hname⟩ :=
          List.mem_map.mp (hkeys.mem_iff.mp (List.mem_map_of_mem hmem))
        exact ensure_eq_ok.mpr (List.mem_map.mpr ⟨field, hfield, congrArg unitsOf hname⟩)

end Baleyg.Contract
