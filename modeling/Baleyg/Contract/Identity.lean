/-
Both sides give an input the same identity.

What the indexer admits for an input matches its format, field by field, so the contract takes
it too.  The bytes that are digested are the same on both sides, and so are the domains, the
prefixes and the digits that are kept.
-/
import Baleyg.Contract.Codec
import Baleyg.Contract.Matches

namespace Baleyg.Contract

open Fallible (ensure bind_eq_ok ensure_eq_ok ensure_bind_eq_ok forM_eq_ok mapM_eq_ok
  exists_of_forall₂_left)
open Native (exactKeys exactKey readString readBool readU64 readOption readList readSignature
  readKey readStable readOccurrence validateStable validateOccurrence checkText checkHash
  nativeKinds nativeLanguages maxUInt)

/-! ### What a reader has read -/

variable {a b v : Native.Value} {α : Type} {u : Unit} {language : String}
  {components : List (String × String)}

theorem readString_eq_ok {s : String} (h : readString v = .ok s) : v = .string s := by
  cases v <;> cases h
  rfl

theorem readBool_eq_ok {b : Bool} (h : readBool v = .ok b) : v = .bool b := by
  cases v <;> cases h
  rfl

theorem readU64_eq_ok {n : Nat} (h : readU64 v = .ok n) : v = .number n := by
  cases v
  case number m =>
    obtain ⟨-, h⟩ := ensure_bind_eq_ok.mp h
    cases h
    rfl
  all_goals cases h

theorem readOption_eq_ok {read : Native.Value → Except String α} {a : Option α}
    (h : readOption read v = .ok a) :
    v = .null ∧ a = none ∨ v ≠ .null ∧ ∃ x, read v = .ok x ∧ a = some x := by
  cases v
  case null =>
    cases h
    exact .inl ⟨rfl, rfl⟩
  all_goals
    obtain ⟨x, hx, h⟩ := bind_eq_ok.mp h
    cases h
    exact .inr ⟨(fun h => by cases h), x, hx, rfl⟩

theorem readList_eq_ok {read : Native.Value → Except String α} {as : List α}
    (h : readList read v = .ok as) :
    ∃ items, v = .array items ∧ List.Forall₂ (fun item a => read item = .ok a) items as := by
  cases v
  case array items => exact ⟨items, rfl, mapM_eq_ok.mp h⟩
  all_goals cases h

/-! ### Objects with exactly the fields of their kind -/

theorem get_of_mem {members : List (String × Native.Value)} {m : String × Native.Value}
    (hnodup : (members.map Prod.fst).Nodup) (hm : m ∈ members) :
    (Native.Value.object members).get m.1 = m.2 := by
  show (members.lookup m.1).getD .null = m.2
  rw [Lookup.lookup_of_nodup hm hnodup]
  rfl

theorem keyed_get (h : v.Keyed) (key : String) : (v.get key).Keyed := by
  cases h with
  | object members hkeys hvalues =>
      show ((members.lookup key).getD .null).Keyed
      cases hfound : members.lookup key with
      | none => exact .null
      | some value => exact hvalues (key, value) (Lookup.mem_of_lookup hfound)
  | _ => exact .null

/-- **An object that has exactly the fields matches if its fields do.** -/
theorem matches_object {fields : List (String × Spec)} (hv : v.Keyed)
    (hnodup : (fields.map Prod.fst).Nodup) (hexact : exactKeys v (fields.map Prod.fst) = .ok u)
    (h : ∀ field ∈ fields, Matches field.2 (v.get field.1)) : Matches (.object fields) v := by
  cases hv with
  | object members hkeys hvalues =>
      obtain ⟨hlength, hall⟩ := ensure_eq_ok.mp hexact
      have hsubset : fields.map Prod.fst ⊆ members.map Prod.fst := fun key hkey => by
        obtain ⟨value, hvalue⟩ := Option.isSome_iff_exists.mp (hall key hkey)
        exact List.mem_map_of_mem (Lookup.mem_of_lookup hvalue)
      have hperm : (fields.map Prod.fst).Perm (members.map Prod.fst) :=
        (List.subperm_of_subset hnodup hsubset).perm_of_length_le (by
          rw [List.length_map, hlength])
      refine .object hnodup hperm.symm fun field hfield m hm hname => ?_
      have hmatch := h field hfield
      rwa [← hname, get_of_mem hkeys hm] at hmatch
  | _ => cases hexact

/-! ### Stable inputs -/

theorem matches_text {s : String} (h : readString v = .ok s) (hs : checkText s = .ok u) :
    Matches .text v :=
  readString_eq_ok h ▸ .text (ensure_eq_ok.mp hs)

theorem matches_signature {s : Native.Signature} (hv : v.Keyed)
    (hexact : exactKeys v ["parameterTypes", "typeParameterCount", "variadic"] = .ok u)
    (h : readSignature v = .ok s) (hcount : s.typeParameterCount ≤ maxUInt)
    (htypes : s.parameterTypes.forM checkText = .ok u) : Matches signatureFormat v := by
  obtain ⟨types, htypes', h⟩ := bind_eq_ok.mp h
  obtain ⟨count, hcount', h⟩ := bind_eq_ok.mp h
  obtain ⟨variadic, hvariadic, h⟩ := bind_eq_ok.mp h
  cases h
  obtain ⟨items, hitems, hall⟩ := readList_eq_ok htypes'
  refine matches_object hv (by decide) hexact ?_
  simp only [List.forall_mem_cons, List.not_mem_nil, false_imp_iff, implies_true, and_true]
  refine ⟨?_, ?_, ?_⟩
  · rw [hitems]
    refine .array fun item hitem => ?_
    obtain ⟨s, hs, hread⟩ := exists_of_forall₂_left hall hitem
    exact matches_text hread (forM_eq_ok.mp htypes s hs)
  · exact readU64_eq_ok hcount' ▸ .uint hcount
  · exact readBool_eq_ok hvariadic ▸ .boolean variadic

theorem matches_key {key : Native.StableKey} (hv : v.Keyed) (hexact : exactKey v = .ok u)
    (h : readKey v = .ok key) (hcheck : key.check language = .ok u) : Matches keyFormat v := by
  obtain ⟨_, hkeys, hsignature⟩ := bind_eq_ok.mp hexact
  obtain ⟨kind, hkind, h⟩ := bind_eq_ok.mp h
  obtain ⟨name, hname, h⟩ := bind_eq_ok.mp h
  obtain ⟨signature, hread, h⟩ := bind_eq_ok.mp h
  obtain ⟨ordinal, hordinal, h⟩ := bind_eq_ok.mp h
  cases h
  obtain ⟨hkind', hcheck⟩ := ensure_bind_eq_ok.mp hcheck
  obtain ⟨_, hname', hcheck⟩ := bind_eq_ok.mp hcheck
  obtain ⟨hordinal', hcheck⟩ := ensure_bind_eq_ok.mp hcheck
  refine matches_object hv (by decide) hkeys ?_
  simp only [List.forall_mem_cons, List.not_mem_nil, false_imp_iff, implies_true, and_true]
  refine ⟨?_, ?_, ?_, ?_⟩
  · exact readString_eq_ok hkind ▸ .enum hkind'
  · rcases readOption_eq_ok hname with ⟨hnull, -⟩ | ⟨-, s, hs, rfl⟩
    · exact hnull ▸ .null _
    · exact .present (matches_text hs hname')
  · rcases readOption_eq_ok hread with ⟨hnull, -⟩ | ⟨hnonnull, s, hs, rfl⟩
    · exact hnull ▸ .null _
    · obtain ⟨⟨-, -, hcount⟩, htypes⟩ := ensure_bind_eq_ok.mp hcheck
      have hsignature' : exactKeys (v.get "signature")
          ["parameterTypes", "typeParameterCount", "variadic"] = .ok () := by
        revert hsignature hnonnull
        cases v.get "signature" <;> intro hsignature hnonnull
        case null => exact absurd rfl hnonnull
        all_goals exact hsignature
      exact .present (matches_signature (keyed_get hv _) hsignature' hs hcount htypes)
  · exact readU64_eq_ok hordinal ▸ .uint hordinal'

/-- **What the indexer admits for a declaration matches the format of one.** -/
theorem matches_stable (hv : v.Keyed) (h : validateStable v = .ok u) :
    Matches syntaxDigestInput v := by
  obtain ⟨_, hkeys, h⟩ := bind_eq_ok.mp h
  obtain ⟨_, hexact, h⟩ := bind_eq_ok.mp h
  obtain ⟨input, hinput, h⟩ := bind_eq_ok.mp h
  obtain ⟨sourceSet, hsourceSet, hinput⟩ := bind_eq_ok.mp hinput
  obtain ⟨path, hpath, hinput⟩ := bind_eq_ok.mp hinput
  obtain ⟨language, hlanguage, hinput⟩ := bind_eq_ok.mp hinput
  obtain ⟨ancestors, hancestors, hinput⟩ := bind_eq_ok.mp hinput
  obtain ⟨declaration, hdeclaration, hinput⟩ := bind_eq_ok.mp hinput
  cases hinput
  obtain ⟨_, htext, h⟩ := bind_eq_ok.mp h
  obtain ⟨hpath', h⟩ := ensure_bind_eq_ok.mp h
  obtain ⟨hlanguage', h⟩ := ensure_bind_eq_ok.mp h
  have hchecks := forM_eq_ok.mp h
  obtain ⟨items, hitems, hall⟩ := readList_eq_ok hancestors
  have hexacts := forM_eq_ok.mp (show (items ++ [v.get "declaration"]).forM exactKey = .ok _ by
    rw [hitems] at hexact
    exact hexact)
  refine matches_object hv (by decide) hkeys ?_
  simp only [List.forall_mem_cons, List.not_mem_nil, false_imp_iff, implies_true, and_true]
  refine ⟨?_, ?_, ?_, ?_, ?_⟩
  · exact matches_text hsourceSet htext
  · exact readString_eq_ok hpath ▸ .path hpath'
  · exact readString_eq_ok hlanguage ▸ .enum hlanguage'
  · have hkeyed := keyed_get hv "ancestors"
    rw [hitems] at hkeyed ⊢
    cases hkeyed with
    | array _ hkeyed =>
        refine .array fun item hitem => ?_
        obtain ⟨key, hkey, hread⟩ := exists_of_forall₂_left hall hitem
        exact matches_key (hkeyed item hitem) (hexacts item (List.mem_append_left _ hitem)) hread
          (hchecks key (List.mem_append_left _ hkey))
  · exact matches_key (keyed_get hv _)
      (hexacts _ (List.mem_append_right _ List.mem_cons_self)) hdeclaration
      (hchecks declaration (List.mem_append_right _ List.mem_cons_self))

/-! ### Occurrence inputs -/

/-- **What the indexer admits for an occurrence matches the format of one.** -/
theorem matches_occurrence (hv : v.Keyed) (h : validateOccurrence v = .ok u) :
    Matches occurrenceDigestInput v := by
  obtain ⟨_, hkeys, h⟩ := bind_eq_ok.mp h
  obtain ⟨input, hinput, h⟩ := bind_eq_ok.mp h
  obtain ⟨contentHash, hcontent, hinput⟩ := bind_eq_ok.mp hinput
  obtain ⟨context, hcontext, hinput⟩ := bind_eq_ok.mp hinput
  obtain ⟨producer, hproducer, hinput⟩ := bind_eq_ok.mp hinput
  obtain ⟨version, hversion, hinput⟩ := bind_eq_ok.mp hinput
  obtain ⟨owner, howner, hinput⟩ := bind_eq_ok.mp hinput
  obtain ⟨kind, hkind, hinput⟩ := bind_eq_ok.mp hinput
  obtain ⟨ordinal, hordinal, hinput⟩ := bind_eq_ok.mp hinput
  cases hinput
  obtain ⟨_, hcontent', h⟩ := bind_eq_ok.mp h
  obtain ⟨_, hcontext', h⟩ := bind_eq_ok.mp h
  obtain ⟨_, hproducer', h⟩ := bind_eq_ok.mp h
  obtain ⟨_, hversion', h⟩ := bind_eq_ok.mp h
  obtain ⟨howner', h⟩ := ensure_bind_eq_ok.mp h
  obtain ⟨hkind', hordinal'⟩ := ensure_eq_ok.mp h
  refine matches_object hv (by decide) hkeys ?_
  simp only [List.forall_mem_cons, List.not_mem_nil, false_imp_iff, implies_true, and_true]
  refine ⟨?_, ?_, ?_, ?_, ?_, ?_, ?_⟩
  · exact readString_eq_ok hcontent ▸ .hash (ensure_eq_ok.mp hcontent')
  · exact readString_eq_ok hcontext ▸ .hash (ensure_eq_ok.mp hcontext')
  · exact matches_text hproducer hproducer'
  · exact matches_text hversion hversion'
  · exact readString_eq_ok howner ▸ .syntaxId howner'
  · refine readString_eq_ok hkind ▸ .enum ?_
    simp only [List.mem_cons, List.not_mem_nil, or_false] at hkind' ⊢
    tauto
  · exact readU64_eq_ok hordinal ▸ .uint hordinal'

/-! ### The order of members -/

theorem exists_paired {members mid members' : List (String × Native.Value)}
    (hperm : members.Perm mid) (hkeys : mid.map Prod.fst = members'.map Prod.fst)
    (h : ∀ pair ∈ mid.zip members', pair.1.2.Same pair.2.2) {m' : String × Native.Value}
    (hm' : m' ∈ members') : ∃ m ∈ members, m.1 = m'.1 ∧ m.2.Same m'.2 := by
  obtain ⟨hlength, hfst⟩ := Native.Value.map_eq_map_iff_zip.mp hkeys
  have hpaired : List.Forall₂ (fun m m' : String × Native.Value => m.1 = m'.1 ∧ m.2.Same m'.2)
      mid members' :=
    List.forall₂_iff_zip.mpr ⟨hlength, fun {m m'} hpair => ⟨hfst (m, m') hpair, h (m, m') hpair⟩⟩
  obtain ⟨m, hm, hpair⟩ := Fallible.exists_of_forall₂_right hpaired hm'
  exact ⟨m, hperm.mem_iff.mpr hm, hpair⟩

theorem Matches.same {spec : Spec} (h : Matches spec a) (hab : a.Same b) : Matches spec b := by
  induction h generalizing b with
  | text h => cases hab; exact .text h
  | uint h => cases hab; exact .uint h
  | boolean b => cases hab; exact .boolean b
  | hash h => cases hab; exact .hash h
  | syntaxId h => cases hab; exact .syntaxId h
  | path h => cases hab; exact .path h
  | null spec => cases hab; exact .null spec
  | present _ ih => exact .present (ih hab)
  | enum h => cases hab; exact .enum h
  | @array spec items _ ih =>
      cases hab with
      | array _ items' hlength hpairs =>
          have hpaired : List.Forall₂ Native.Value.Same items items' :=
            List.forall₂_iff_zip.mpr ⟨hlength, fun {x y} hpair => hpairs (x, y) hpair⟩
          refine .array fun item' hitem' => ?_
          obtain ⟨item, hitem, hsame⟩ := Fallible.exists_of_forall₂_right hpaired hitem'
          exact ih item hitem hsame
  | object hnodup hkeys _ ih =>
      cases hab with
      | object members mid members' hperm hkeys' hpairs =>
          refine .object hnodup ?_ fun field hfield m' hm' hname => ?_
          · rw [← hkeys']; exact (hperm.map Prod.fst).symm.trans hkeys
          · obtain ⟨m, hm, hkey, hsame⟩ := exists_paired hperm hkeys' hpairs hm'
            exact ih field hfield m hm (hkey.trans hname) hsame

theorem same_get (ha : a.Keyed) (h : a.Same b) (key : String) : (a.get key).Same (b.get key) := by
  cases h with
  | object members mid members' hperm hkeys hpairs =>
      cases ha with
      | object _ hnodup _ =>
          have hnodup' : (members'.map Prod.fst).Nodup := by
            rw [← hkeys]
            exact (hperm.map Prod.fst).nodup_iff.mp hnodup
          by_cases hmem : key ∈ members'.map Prod.fst
          · obtain ⟨m', hm', rfl⟩ := List.mem_map.mp hmem
            obtain ⟨m, hm, hkey, hsame⟩ := exists_paired hperm hkeys hpairs hm'
            rw [get_of_mem hnodup' hm', ← hkey, get_of_mem hnodup hm]
            exact hsame
          · have hmem' : key ∉ members.map Prod.fst := fun h => hmem (by
              rw [← hkeys]
              exact (hperm.map Prod.fst).mem_iff.mp h)
            show ((members.lookup key).getD .null).Same ((members'.lookup key).getD .null)
            rw [Lookup.lookup_eq_none.mpr hmem, Lookup.lookup_eq_none.mpr hmem']
            exact .null
  | _ => exact .null

/-! ### Digests -/

/-- The same function on the other side, which takes a text for its bytes. -/
def Hasher.native (sha : Hasher) : Native.Sha256 where
  hash text := sha.hex (Utf.utf8 text.toList)
  digest domain bytes := sha.hex (Utf.utf8 domain.toList ++ Utf.utf8 bytes)
  hash_valid _ := sha.hex_valid _
  digest_valid _ _ := sha.hex_valid _

section Digests

variable {sha : Hasher} {v : Native.Value} {w : Value}

theorem walks_and_writes {spec : Spec} (hv : v.Keyed) (h : Matches spec v)
    (hw : (ofNative v).Same w) (path : Units) :
    walk spec w path = .ok () ∧ canonicalBytes w = .ok (Utf.utf8 v.canonical) := by
  obtain ⟨b, ⟨hb, hvb⟩, rfl⟩ := exists_of_same hw v h.plain rfl
  refine ⟨(h.same hvb).walks path, ?_⟩
  rw [canonicalBytes_ofNative hb, (Native.Value.canonical_eq_iff hv).mpr hvb]

theorem digest_of_matches (kind : DigestKind) (hkind : kind ≠ .ofExtractionContext)
    (hv : v.Keyed) (h : Matches kind.shape v) (hw : (ofNative v).Same w) :
    digest sha kind w = .ok (sha.native.digest kind.domain v.canonical) := by
  obtain ⟨hwalk, hbytes⟩ := walks_and_writes hv h hw (unitsOf kind.shapeName)
  unfold digest
  rw [hwalk, hbytes, if_neg hkind]
  rfl

theorem syntaxId_of_validateStable {u : Unit} (hv : v.Keyed) (h : validateStable v = .ok u)
    (hw : (ofNative v).Same w) :
    syntaxId sha w = .ok (Native.handleOf sha.native "trellis.syntax.v1\x00" "sid:v1:" v) := by
  unfold syntaxId
  rw [digest_of_matches .ofDeclaration (by decide) hv (matches_stable hv h) hw]
  rfl

theorem occurrenceId_of_validateOccurrence {u : Unit} (hv : v.Keyed)
    (h : validateOccurrence v = .ok u) (hw : (ofNative v).Same w) :
    occurrenceId sha w =
      .ok (Native.handleOf sha.native "trellis.occurrence.v2\x00" "occ:v2:" v) := by
  unfold occurrenceId
  rw [digest_of_matches .ofOccurrence (by decide) hv (matches_occurrence hv h) hw]
  rfl

end Digests

/-! ### Extraction contexts -/

theorem keyed_component (c : String × String) :
    (Native.Value.object [("name", .string c.1), ("hash", .string c.2)]).Keyed := by
  refine .object _ (show ["name", "hash"].Nodup by decide) fun m hm => ?_
  simp only [List.mem_cons, List.not_mem_nil, or_false] at hm
  rcases hm with rfl | rfl <;> exact .string _

theorem keyed_context (language : String) (components : List (String × String)) :
    (Native.contextInput language components).Keyed := by
  refine .object _ (show ["language", "components"].Nodup by decide) fun m hm => ?_
  simp only [List.mem_cons, List.not_mem_nil, or_false] at hm
  rcases hm with rfl | rfl
  · exact .string _
  · refine .array _ fun item hitem => ?_
    obtain ⟨c, -, rfl⟩ := List.mem_map.mp hitem
    exact keyed_component c

theorem matches_component {c : String × String} (htext : c.1 ≠ "")
    (hhash : Native.validHash c.2 = true) :
    Matches componentFormat (.object [("name", .string c.1), ("hash", .string c.2)]) := by
  refine matches_object (u := ()) (keyed_component c) (by decide) (ensure_eq_ok.mpr ⟨rfl, ?_⟩) ?_
  · simp only [List.map_cons, List.map_nil, List.forall_mem_cons,
      List.not_mem_nil, false_imp_iff, implies_true, and_true]
    exact ⟨rfl, rfl⟩
  · simp only [List.forall_mem_cons, List.not_mem_nil, false_imp_iff, implies_true, and_true]
    exact ⟨.text htext, .hash hhash⟩

theorem matches_context (hlanguage : language ∈ nativeLanguages)
    (hcomponents : ∀ c ∈ components, c.1 ≠ "" ∧ Native.validHash c.2 = true) :
    Matches extractionContextInput (Native.contextInput language components) := by
  refine matches_object (u := ()) (keyed_context language components) (by decide)
    (ensure_eq_ok.mpr ⟨rfl, ?_⟩) ?_
  · simp only [List.map_cons, List.map_nil, List.forall_mem_cons,
      List.not_mem_nil, false_imp_iff, implies_true, and_true]
    exact ⟨rfl, rfl⟩
  · simp only [List.forall_mem_cons, List.not_mem_nil, false_imp_iff, implies_true, and_true]
    refine ⟨.enum hlanguage, .array fun item hitem => ?_⟩
    obtain ⟨c, hc, rfl⟩ := List.mem_map.mp hitem
    exact matches_component (hcomponents c hc).1 (hcomponents c hc).2

theorem lookup_ofMembers (members : List (String × Native.Value)) (key : String) :
    (members.map fun m => (unitsOf m.1, ofNative m.2)).lookup (unitsOf key) =
      (members.lookup key).map ofNative := by
  induction members with
  | nil => rfl
  | cons m members ih =>
      have hbeq : (unitsOf key == unitsOf m.1) = (key == m.1) := by
        rw [Bool.eq_iff_iff, beq_iff_eq, beq_iff_eq]
        exact ⟨unitsOf_injective, congrArg unitsOf⟩
      rw [List.map_cons, List.lookup_cons, List.lookup_cons, ih, hbeq]
      cases key == m.1 <;> rfl

/-- What is looked up by the units of a key is what the other side has under it. -/
theorem property_ofNative {key : String} (h : v.get key ≠ .null) :
    property (ofNative v) key = ofNative (v.get key) := by
  cases v with
  | object members =>
      change (members.lookup key).getD .null ≠ .null at h
      show property _ key = ofNative ((members.lookup key).getD .null)
      rw [ofNative_object]
      show (List.lookup _ _).getD Value.foreign = _
      rw [lookup_ofMembers]
      cases hfound : members.lookup key with
      | none => rw [hfound] at h; exact absurd rfl h
      | some value => rfl
  | _ => exact absurd rfl h

theorem stringBytes_property {key text : String} (h : v.get key = .string text) :
    stringBytes (property (ofNative v) key) = Utf.utf8 text.toList := by
  rw [property_ofNative (by rw [h]; exact fun h => by cases h), h]
  exact bufferFrom_utf16 text.toList

/-- The name and the hash of a component. -/
def Holds (x : Native.Value) (c : String × String) : Prop :=
  x.get "name" = .string c.1 ∧ x.get "hash" = .string c.2

theorem componentBefore_eq {x y : Native.Value} {a b : String × String} (hx : Holds x a)
    (hy : Holds y b) : componentBefore (ofNative x) (ofNative y) = Native.componentLess a b := by
  unfold componentBefore Native.componentLess
  simp only [stringBytes_property hx.1, stringBytes_property hx.2, stringBytes_property hy.1,
    stringBytes_property hy.2]

theorem same_string {x : Native.Value} {text : String} (h : (Native.Value.string text).Same x) :
    x = .string text := by
  cases h
  rfl

theorem exists_neighbours {β : Type} {R : α → β → Prop} {xs : List α} {ys : List β}
    (h : List.Forall₂ R xs ys) : ∀ pair ∈ ys.zip (ys.drop 1), ∃ pair' ∈ xs.zip (xs.drop 1),
      R pair'.1 pair.1 ∧ R pair'.2 pair.2 := by
  induction h with
  | nil => exact fun _ h => absurd h List.not_mem_nil
  | cons hxy hrest ih =>
      cases hrest with
      | nil => exact fun _ h => absurd h List.not_mem_nil
      | cons hxy' hrest =>
          intro pair hpair
          rcases List.mem_cons.mp hpair with rfl | hpair
          · exact ⟨_, List.mem_cons_self, hxy, hxy'⟩
          · obtain ⟨pair', hpair', hR⟩ := ih pair hpair
            exact ⟨pair', List.mem_cons_of_mem _ hpair', hR⟩

/-- **The components are in order on both sides.** -/
theorem checkComponents_of (hb : (Native.contextInput language components).Same b)
    (horder : ∀ pair ∈ components.zip (components.drop 1),
      Native.componentLess pair.1 pair.2 = true) :
    checkComponents (property (ofNative b) "components") = .ok () := by
  have hsame := same_get (keyed_context language components) hb "components"
  have hget : (Native.contextInput language components).get "components" =
      .array (components.map fun c => .object [("name", .string c.1), ("hash", .string c.2)]) := rfl
  rw [hget] at hsame
  generalize hxs : b.get "components" = xs at hsame
  cases hsame with
  | array _ items' hlength hpairs =>
      have hpaired : List.Forall₂ (fun c x => Holds x c) components items' := by
        rw [List.length_map] at hlength
        refine List.forall₂_iff_zip.mpr ⟨hlength, fun {c x} hpair => ?_⟩
        have hzip : (Native.Value.object [("name", .string c.1), ("hash", .string c.2)], x) ∈
            (components.map fun c => Native.Value.object
              [("name", .string c.1), ("hash", .string c.2)]).zip items' := by
          rw [List.zip_map_left]
          exact List.mem_map.mpr ⟨(c, x), hpair, rfl⟩
        exact ⟨same_string (same_get (keyed_component c) (hpairs _ hzip) "name"),
          same_string (same_get (keyed_component c) (hpairs _ hzip) "hash")⟩
      rw [property_ofNative (by rw [hxs]; exact fun h => by cases h), hxs, ofNative_array]
      refine ensure_eq_ok.mpr fun pair hpair => ?_
      rw [← List.map_drop, List.zip_map] at hpair
      obtain ⟨⟨x, y⟩, hmem, rfl⟩ := List.mem_map.mp hpair
      obtain ⟨pair', hpair', hx, hy⟩ := exists_neighbours hpaired (x, y) hmem
      exact (componentBefore_eq hx hy).trans (horder pair' hpair')

theorem extractionContext_of {sha : Hasher} {hash : String} {w : Value}
    (h : Native.extractionContextOf sha.native language components = .ok hash)
    (hw : (ofNative (Native.contextInput language components)).Same w) :
    extractionContext sha w = .ok hash := by
  obtain ⟨hlanguage, h⟩ := ensure_bind_eq_ok.mp h
  obtain ⟨_, hcomponents, h⟩ := bind_eq_ok.mp h
  obtain ⟨horder, h⟩ := ensure_bind_eq_ok.mp h
  cases h
  have hvalid : ∀ c ∈ components, c.1 ≠ "" ∧ Native.validHash c.2 = true := fun c hc => by
    obtain ⟨_, htext, hhash⟩ := bind_eq_ok.mp (forM_eq_ok.mp hcomponents c hc)
    exact ⟨ensure_eq_ok.mp htext, ensure_eq_ok.mp hhash⟩
  have hmatches := matches_context hlanguage hvalid
  have hkeyed := keyed_context language components
  obtain ⟨hwalk, hbytes⟩ := walks_and_writes hkeyed hmatches hw
    (unitsOf DigestKind.ofExtractionContext.shapeName)
  obtain ⟨b, ⟨-, hvb⟩, rfl⟩ := exists_of_same hw _ hmatches.plain rfl
  unfold extractionContext digest
  rw [show walk DigestKind.ofExtractionContext.shape _ _ = .ok () from hwalk, hbytes, if_pos rfl,
    checkComponents_of hvb horder]
  rfl

/-! ### Agreement -/

theorem eq_of_ofNative (ha : Plain a) (h : ofNative a = ofNative b) : a = b := by
  induction ha generalizing b with
  | null => cases b <;> first | rfl | cases h
  | bool | number =>
      cases b <;> cases h
      rfl
  | string text =>
      cases b <;> simp only [ofNative, reduceCtorEq, Value.string.injEq] at h
      rw [unitsOf_injective h]
  | @array items _ ih =>
      cases b <;> simp only [ofNative, reduceCtorEq] at h
      rename_i items'
      rw [ofNatives_eq_map, ofNatives_eq_map, Value.array.injEq,
        Native.Value.map_eq_map_iff_zip] at h
      have heq : items = items' := by
        refine List.ext_getElem h.1 fun i hi hi' => ih _ (List.getElem_mem hi) ?_
        exact h.2 (items[i], items'[i]) (List.mem_iff_getElem.mpr
          ⟨i, by rw [List.length_zip]; omega, List.getElem_zip⟩)
      rw [heq]
  | @object members _ ih =>
      cases b <;> simp only [ofNative, reduceCtorEq] at h
      rename_i members'
      rw [ofMembers_eq_map, ofMembers_eq_map, Value.object.injEq,
        Native.Value.map_eq_map_iff_zip] at h
      have heq : members = members' := by
        refine List.ext_getElem h.1 fun i hi hi' => ?_
        have hpair := h.2 (members[i], members'[i]) (List.mem_iff_getElem.mpr
          ⟨i, by rw [List.length_zip]; omega, List.getElem_zip⟩)
        exact Prod.ext (unitsOf_injective (Prod.mk.inj hpair).1)
          (ih _ (List.getElem_mem hi) (Prod.mk.inj hpair).2)
      rw [heq]

/-- **The identities of the indexer and of the contract agree.** -/
theorem identities_agree (sha : Hasher) :
    (∀ v : Native.Value, Plain v → canonicalBytes (ofNative v) = .ok (Utf.utf8 v.canonical)) ∧
    (∀ (w : Json) (bytes : List UInt8), canonicalBytes w.1 = .ok bytes →
      (∃ v, Plain v ∧ ofNative v = w.1) ∧
      ∀ v : Native.Value, w.1.Same (ofNative v) → Utf.utf8 v.canonical = bytes) ∧
    (∀ (v : Native.Value) (w : Value), v.Keyed → (ofNative v).Same w →
      validateStable v = .ok () → ∃ id, syntaxId sha w = .ok id ∧
        ∀ (r : Native.IdentityRegistry) id' r', r.stableValue sha.native v = .ok (id', r') → id' = id) ∧
    (∀ (v : Native.Value) (w : Value), v.Keyed → (ofNative v).Same w →
      validateOccurrence v = .ok () → ∃ id, occurrenceId sha w = .ok id ∧
        ∀ (r : Native.IdentityRegistry) id' r', r.occurrenceValue sha.native v = .ok (id', r') → id' = id) ∧
    ∀ (language hash : String) (components : List (String × String)) (w : Value),
      Native.extractionContextOf sha.native language components = .ok hash →
      (ofNative (Native.contextInput language components)).Same w →
      extractionContext sha w = .ok hash := by
  refine ⟨fun v hv => canonicalBytes_ofNative hv, fun w bytes h => ?_, fun v w hv hw h => ?_,
    fun v w hv hw h => ?_, fun _ _ _ _ h hw => extractionContext_of h hw⟩
  · obtain ⟨a, ha, hw, rfl⟩ := canonicalBytes_eq_ok.mp h
    refine ⟨⟨a, ha, hw⟩, fun v hsame => ?_⟩
    have hkeyed : a.Keyed := keyed_of_ofNative (hw ▸ w.2)
    obtain ⟨b, ⟨hb, hab⟩, heq⟩ := exists_of_same hsame a ha hw
    obtain rfl := eq_of_ofNative hb heq
    rw [(Native.Value.canonical_eq_iff hkeyed).mpr hab]
  · refine ⟨_, syntaxId_of_validateStable hv h hw, fun r id' r' hr => ?_⟩
    obtain ⟨_, -, hr⟩ := bind_eq_ok.mp hr
    exact (Native.IdentityRegistry.register_ok hr).1
  · refine ⟨_, occurrenceId_of_validateOccurrence hv h hw, fun r id' r' hr => ?_⟩
    obtain ⟨_, -, hr⟩ := bind_eq_ok.mp hr
    exact (Native.IdentityRegistry.register_ok hr).1

end Baleyg.Contract
