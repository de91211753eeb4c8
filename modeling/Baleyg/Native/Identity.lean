/-
Stable and occurrence identities.

An identity is a digest of the canonical bytes of its input, cut to thirty-two digits.  The
cut is why there is a registry: it remembers the bytes behind every handle it gave out, so
two inputs that come to one handle are an error and never one identity.  A registry only
grows, and what it knows never changes, so whoever registers an input twice gets the same
handle, and whoever registers nothing but what another registry knows cannot fail.
-/
import Baleyg.Lib.Fallible
import Baleyg.Native.Records

namespace Baleyg.Native

open Fallible (ensure bind_eq_ok ensure_eq_ok)

/-! ### Digests -/

def isLowerHex (c : Char) : Bool := ('0' ≤ c && c ≤ '9') || ('a' ≤ c && c ≤ 'f')

def validHash (s : String) : Bool := byteLength s == 64 && s.toList.all isLowerHex

/-- SHA-256 in hex: of a text, and of the bytes behind a domain. -/
structure Sha256 where
  hash : String → String
  digest : String → List Char → String
  hash_valid : ∀ text, validHash (hash text) = true
  digest_valid : ∀ domain bytes, validHash (digest domain bytes) = true

def safePath (path : String) : Except String Unit := do
  ensure (path ≠ "") "empty text"
  ensure (path.toList.head? ≠ some '/' ∧ '\x5c' ∉ path.toList ∧ '\x00' ∉ path.toList ∧
      ∀ part ∈ path.toList.splitOn '/', part ≠ [] ∧ part ≠ ['.'] ∧ part ≠ ['.', '.'])
    "invalid native path"

/-! ### Inputs -/

def Value.ofOption {α : Type} (f : α → Value) : Option α → Value
  | none => .null
  | some a => f a

namespace Signature

def json (s : Signature) : Value := .object
  [("parameterTypes", .array (s.parameterTypes.map .string)),
    ("typeParameterCount", .number s.typeParameterCount), ("variadic", .bool s.variadic)]

end Signature

namespace Key

def json (k : Key) : Value := .object
  [("kind", .string k.kind.text), ("name", .ofOption .string k.name),
    ("signature", .ofOption Signature.json k.signature), ("ordinal", .number k.ordinal)]

end Key

namespace DocumentKey

def json (k : DocumentKey) : Value := .object
  [("sourceSetId", .string k.sourceSetId), ("language", .string k.language.text),
    ("path", .string k.path)]

end DocumentKey

structure StableInput where
  sourceSet : String
  path : String
  language : Language
  ancestors : List Key
  declaration : Key
  deriving DecidableEq, Repr

inductive OccurrenceKind where
  | call
  | control
  deriving DecidableEq, Repr

namespace OccurrenceKind

def text : OccurrenceKind → String
  | call => "call"
  | control => "control"

end OccurrenceKind

structure OccurrenceInput where
  contentHash : String
  extractionContext : String
  nativeProducerId : String
  nativeProducerVersion : String
  ownerSyntaxId : String
  kind : OccurrenceKind
  ordinal : Nat
  deriving DecidableEq, Repr

/-- `9_007_199_254_740_991`. -/
def maxUInt : Nat := 9007199254740991

def checkText (s : String) : Except String Unit := ensure (s ≠ "") "empty native identity text"

def checkHash (s : String) : Except String Unit :=
  ensure (validHash s = true) "invalid native identity hash"

/-- `check_key`, of a key whose kind is one there is. -/
def checkKey (key : Key) (language : Language) : Except String Unit := do
  match key.name with
  | some name => checkText name
  | none => pure ()
  ensure (key.ordinal ≤ maxUInt) "native ordinal exceeds UInt"
  match key.signature with
  | some signature => do
      ensure (language = .java ∧ key.kind.isMember = true ∧ signature.typeParameterCount ≤ maxUInt)
        "invalid native Java signature"
      signature.parameterTypes.forM checkText
  | none =>
      ensure (language ≠ .java ∨ key.kind.isMember = false) "missing native Java signature"

namespace StableInput

def json (i : StableInput) : Value := .object
  [("sourceSet", .string i.sourceSet), ("path", .string i.path),
    ("language", .string i.language.text), ("ancestors", .array (i.ancestors.map Key.json)),
    ("declaration", i.declaration.json)]

/-- `validate_stable`, of an input that has its fields. -/
def validate (i : StableInput) : Except String Unit := do
  checkText i.sourceSet
  ensure (safePath i.path = .ok ()) "invalid native identity path"
  (i.ancestors ++ [i.declaration]).forM fun key => checkKey key i.language

end StableInput

/-- `"sid:v1:"` and thirty-two digits. -/
def validSyntaxId (id : String) : Bool :=
  byteLength id == 39 && id.toList.take 7 == "sid:v1:".toList && (id.toList.drop 7).all isLowerHex

namespace OccurrenceInput

def json (i : OccurrenceInput) : Value := .object
  [("contentHash", .string i.contentHash), ("extractionContext", .string i.extractionContext),
    ("nativeProducerId", .string i.nativeProducerId),
    ("nativeProducerVersion", .string i.nativeProducerVersion),
    ("ownerSyntaxId", .string i.ownerSyntaxId), ("kind", .string i.kind.text),
    ("ordinal", .number i.ordinal)]

/-- `validate_occurrence`, of an input that has its fields. -/
def validate (i : OccurrenceInput) : Except String Unit := do
  checkHash i.contentHash
  checkHash i.extractionContext
  checkText i.nativeProducerId
  checkText i.nativeProducerVersion
  ensure (validSyntaxId i.ownerSyntaxId = true) "invalid occurrence owner SyntaxId"
  ensure (i.ordinal ≤ maxUInt) "invalid native occurrence input"

end OccurrenceInput

/-! ### The registry -/

/-- The bytes behind a handle and their full digest. -/
abbrev Registered := List Char × String

structure IdentityRegistry where
  handles : List (String × Registered)
  deriving DecidableEq, Repr

namespace IdentityRegistry

def empty : IdentityRegistry := ⟨[]⟩

end IdentityRegistry

section Registry

variable (sha : Sha256)

def registered (domain : String) (value : Value) : Registered :=
  (value.canonical, sha.digest domain value.canonical)

def handleOf (domain lead : String) (value : Value) : String :=
  lead ++ String.ofList ((sha.digest domain value.canonical).toList.take 32)

namespace IdentityRegistry

def register (r : IdentityRegistry) (domain : String) (value : Value) (lead : String) :
    Except String (String × IdentityRegistry) :=
  let handle := handleOf sha domain lead value
  match r.handles.lookup handle with
  | some prior => do
      ensure (prior = registered sha domain value) "native identity handle collision"
      pure (handle, r)
  | none => pure (handle, ⟨(handle, registered sha domain value) :: r.handles⟩)

def stable (r : IdentityRegistry) (input : StableInput) :
    Except String (String × IdentityRegistry) := do
  input.validate
  r.register sha "trellis.syntax.v1\x00" input.json "sid:v1:"

def occurrence (r : IdentityRegistry) (input : OccurrenceInput) :
    Except String (String × IdentityRegistry) := do
  input.validate
  r.register sha "trellis.occurrence.v2\x00" input.json "occ:v2:"

end IdentityRegistry

def stableId (input : StableInput) : String :=
  handleOf sha "trellis.syntax.v1\x00" "sid:v1:" input.json

def occurrenceId (input : OccurrenceInput) : String :=
  handleOf sha "trellis.occurrence.v2\x00" "occ:v2:" input.json

end Registry

/-! ### Inputs are told apart by their bytes -/

section Injective

open Value (sorted object_inj canonical_inj)

/-- `map` of a function that is injective is injective. -/
theorem map_inj {α β : Type} {f : α → β} {l l' : List α} (hf : ∀ a b, f a = f b → a = b)
    (h : l.map f = l'.map f) : l = l' :=
  List.map_injective_iff.mpr (fun a b => hf a b) h

theorem ofOption_inj {α : Type} {f : α → Value} {a b : Option α}
    (hf : ∀ a b, sorted (f a) = sorted (f b) → a = b) (hnull : ∀ a, sorted (f a) ≠ .null)
    (h : sorted (.ofOption f a) = sorted (.ofOption f b)) : a = b := by
  cases a with
  | none =>
      cases b with
      | none => rfl
      | some b =>
          rw [Value.ofOption, Value.sorted_null] at h
          exact absurd h.symm (hnull b)
  | some a =>
      cases b with
      | none =>
          rw [Value.ofOption, Value.ofOption, Value.sorted_null] at h
          exact absurd h (hnull a)
      | some b => rw [hf a b h]

theorem Signature.json_inj {a b : Signature} (h : sorted a.json = sorted b.json) : a = b := by
  have hvalues := object_inj ["parameterTypes", "typeParameterCount", "variadic"] (by decide)
    rfl rfl h
  simp only [List.map_cons, List.map_nil, Value.sorted_array, List.map_map, Value.sorted_number,
    Value.sorted_bool, List.cons.injEq, Value.array.injEq, Value.number.injEq, Value.bool.injEq,
    and_true] at hvalues
  obtain ⟨htypes, hcount, hvariadic⟩ := hvalues
  have htypes' : a.parameterTypes = b.parameterTypes :=
    map_inj (fun s t hst => by simpa using hst) htypes
  cases a
  cases b
  simp only at htypes' hcount hvariadic
  rw [htypes', hcount, hvariadic]

theorem Key.json_inj {a b : Key} (h : sorted a.json = sorted b.json) : a = b := by
  have hvalues := object_inj ["kind", "name", "signature", "ordinal"] (by decide) rfl rfl h
  simp only [List.map_cons, List.map_nil, Value.sorted_string, Value.sorted_number,
    List.cons.injEq, Value.string.injEq, Value.number.injEq, and_true] at hvalues
  obtain ⟨hkind, hname, hsignature, hordinal⟩ := hvalues
  have hname' : a.name = b.name :=
    ofOption_inj (fun s t hst => by simpa using hst) (fun s => by simp) hname
  have hsignature' : a.signature = b.signature :=
    ofOption_inj (fun s t hst => Signature.json_inj hst)
      (fun s => by rw [Signature.json, sorted]; exact Value.noConfusion) hsignature
  have hkind' := DeclarationKind.text_inj hkind
  cases a
  cases b
  simp only at hkind' hname' hsignature' hordinal
  rw [hkind', hname', hsignature', hordinal]

theorem DocumentKey.json_inj {a b : DocumentKey} (h : sorted a.json = sorted b.json) : a = b := by
  have hvalues := object_inj ["sourceSetId", "language", "path"] (by decide) rfl rfl h
  simp only [List.map_cons, List.map_nil, Value.sorted_string, List.cons.injEq,
    Value.string.injEq, and_true] at hvalues
  obtain ⟨hset, hlanguage, hpath⟩ := hvalues
  have hlanguage' := Language.text_inj hlanguage
  cases a
  cases b
  simp only at hset hlanguage' hpath
  rw [hset, hlanguage', hpath]

theorem keys_inj {ks ks' : List Key}
    (h : sorted (.array (ks.map Key.json)) = sorted (.array (ks'.map Key.json))) : ks = ks' := by
  rw [Value.sorted_array, Value.sorted_array, List.map_map, List.map_map,
    Value.array.injEq] at h
  exact map_inj (fun a b hab => Key.json_inj hab) h

theorem StableInput.json_inj {a b : StableInput} (h : a.json.canonical = b.json.canonical) :
    a = b := by
  have hvalues := object_inj ["sourceSet", "path", "language", "ancestors", "declaration"]
    (by decide) rfl rfl (canonical_inj h)
  simp only [List.map_cons, List.map_nil, Value.sorted_string, List.cons.injEq,
    Value.string.injEq, and_true] at hvalues
  obtain ⟨hset, hpath, hlanguage, hancestors, hdeclaration⟩ := hvalues
  have hlanguage' := Language.text_inj hlanguage
  have hancestors' := keys_inj hancestors
  have hdeclaration' := Key.json_inj hdeclaration
  cases a
  cases b
  simp only at hset hpath hlanguage' hancestors' hdeclaration'
  rw [hset, hpath, hlanguage', hancestors', hdeclaration']

theorem OccurrenceKind.text_inj {a b : OccurrenceKind} (h : a.text = b.text) : a = b := by
  cases a <;> cases b <;> first | rfl | exact absurd h (by decide)

theorem OccurrenceInput.json_inj {a b : OccurrenceInput}
    (h : a.json.canonical = b.json.canonical) : a = b := by
  have hvalues := object_inj ["contentHash", "extractionContext", "nativeProducerId",
    "nativeProducerVersion", "ownerSyntaxId", "kind", "ordinal"] (by decide) rfl rfl
    (canonical_inj h)
  simp only [List.map_cons, List.map_nil, Value.sorted_string, Value.sorted_number,
    List.cons.injEq, Value.string.injEq, Value.number.injEq, and_true] at hvalues
  obtain ⟨hhash, hcontext, hid, hversion, howner, hkind, hordinal⟩ := hvalues
  have hkind' := OccurrenceKind.text_inj hkind
  cases a
  cases b
  simp only at hhash hcontext hid hversion howner hkind' hordinal
  rw [hhash, hcontext, hid, hversion, howner, hkind', hordinal]

end Injective

/-! ### What a registry knows -/

namespace IdentityRegistry

/-- The registry gave out a handle for these bytes. -/
def Knows (r : IdentityRegistry) (handle : String) (entry : Registered) : Prop :=
  r.handles.lookup handle = some entry

/-- Whatever the one knows, the other knows. -/
def Within (r k : IdentityRegistry) : Prop :=
  ∀ handle entry, r.Knows handle entry → k.Knows handle entry

theorem Within.refl (r : IdentityRegistry) : r.Within r := fun _ _ h => h

theorem Within.trans {r s t : IdentityRegistry} (h : r.Within s) (h' : s.Within t) : r.Within t :=
  fun handle entry hknows => h' handle entry (h handle entry hknows)

theorem empty_within (k : IdentityRegistry) : empty.Within k := fun handle entry h => by cases h

section Register

variable {sha : Sha256} {r r' k : IdentityRegistry} {domain lead handle : String} {value : Value}

/-- **A registration that succeeds is remembered, and nothing is forgotten.** -/
theorem register_ok (h : r.register sha domain value lead = .ok (handle, r')) :
    handle = handleOf sha domain lead value ∧ r.Within r' ∧
      r'.Knows handle (registered sha domain value) := by
  unfold register at h
  cases hprior : r.handles.lookup (handleOf sha domain lead value) with
  | some prior =>
      simp only [hprior] at h
      obtain ⟨_, hsame, h⟩ := bind_eq_ok.mp h
      cases h
      refine ⟨rfl, .refl r, ?_⟩
      rw [← ensure_eq_ok.mp hsame]
      exact hprior
  | none =>
      simp only [hprior] at h
      cases h
      refine ⟨rfl, fun other entry hother => ?_, List.lookup_cons_self⟩
      have hne : (other == handleOf sha domain lead value) = false := by
        refine beq_false_of_ne fun heq => ?_
        rw [Knows, heq, hprior] at hother
        cases hother
      show List.lookup other (_ :: r.handles) = _
      rw [List.lookup_cons, hne]
      exact hother

/-- **Who registers only what another registry knows does not fail.** -/
theorem register_within (hwithin : r.Within k)
    (hknows : k.Knows (handleOf sha domain lead value) (registered sha domain value)) :
    ∃ r', r.register sha domain value lead = .ok (handleOf sha domain lead value, r') ∧
      r'.Within k := by
  unfold register
  cases hprior : r.handles.lookup (handleOf sha domain lead value) with
  | some prior =>
      have hsame : prior = registered sha domain value :=
        Option.some.inj ((hwithin _ _ hprior).symm.trans hknows)
      simp only [hprior]
      exact ⟨r, bind_eq_ok.mpr ⟨(), ensure_eq_ok.mpr hsame, rfl⟩, hwithin⟩
  | none =>
      simp only [hprior]
      refine ⟨_, rfl, fun other entry hother => ?_⟩
      unfold Knows at hother
      rw [List.lookup_cons] at hother
      cases heq : other == handleOf sha domain lead value with
      | true =>
          rw [heq] at hother
          cases hother
          rw [eq_of_beq heq]
          exact hknows
      | false => rw [heq] at hother; exact hwithin other entry hother

end Register

/-- The registry gave out the identity of this declaration. -/
structure HasStable (sha : Sha256) (k : IdentityRegistry) (input : StableInput) : Prop where
  valid : input.validate = .ok ()
  knows : k.Knows (stableId sha input) (registered sha "trellis.syntax.v1\x00" input.json)

/-- The registry gave out the identity of this occurrence. -/
structure HasOccurrence (sha : Sha256) (k : IdentityRegistry) (input : OccurrenceInput) :
    Prop where
  valid : input.validate = .ok ()
  knows : k.Knows (occurrenceId sha input)
    (registered sha "trellis.occurrence.v2\x00" input.json)

section Identities

variable {sha : Sha256} {r r' k : IdentityRegistry} {id : String}

theorem HasStable.mono {input : StableInput} (h : HasStable sha r input) (hk : r.Within k) :
    HasStable sha k input := ⟨h.valid, hk _ _ h.knows⟩

theorem HasOccurrence.mono {input : OccurrenceInput} (h : HasOccurrence sha r input)
    (hk : r.Within k) : HasOccurrence sha k input := ⟨h.valid, hk _ _ h.knows⟩

theorem stable_ok {input : StableInput} (h : r.stable sha input = .ok (id, r')) :
    id = stableId sha input ∧ r.Within r' ∧ HasStable sha r' input := by
  obtain ⟨_, hvalid, h⟩ := bind_eq_ok.mp h
  obtain ⟨rfl, hwithin, hknows⟩ := register_ok h
  exact ⟨rfl, hwithin, hvalid, hknows⟩

theorem occurrence_ok {input : OccurrenceInput} (h : r.occurrence sha input = .ok (id, r')) :
    id = occurrenceId sha input ∧ r.Within r' ∧ HasOccurrence sha r' input := by
  obtain ⟨_, hvalid, h⟩ := bind_eq_ok.mp h
  obtain ⟨rfl, hwithin, hknows⟩ := register_ok h
  exact ⟨rfl, hwithin, hvalid, hknows⟩

theorem stable_within {input : StableInput} (hr : r.Within k) (h : HasStable sha k input) :
    ∃ r', r.stable sha input = .ok (stableId sha input, r') ∧ r'.Within k := by
  obtain ⟨r', hregister, hwithin⟩ := register_within hr h.knows
  exact ⟨r', bind_eq_ok.mpr ⟨(), h.valid, hregister⟩, hwithin⟩

theorem occurrence_within {input : OccurrenceInput} (hr : r.Within k)
    (h : HasOccurrence sha k input) :
    ∃ r', r.occurrence sha input = .ok (occurrenceId sha input, r') ∧ r'.Within k := by
  obtain ⟨r', hregister, hwithin⟩ := register_within hr h.knows
  exact ⟨r', bind_eq_ok.mpr ⟨(), h.valid, hregister⟩, hwithin⟩

/-- **Two inputs of one registry with one identity are the same.** -/
theorem HasStable.inj {a b : StableInput} (ha : HasStable sha k a) (hb : HasStable sha k b)
    (h : stableId sha a = stableId sha b) : a = b := by
  have hentry := ha.knows.symm.trans (h ▸ hb.knows)
  exact StableInput.json_inj (congrArg Prod.fst (Option.some.inj hentry))

theorem HasOccurrence.inj {a b : OccurrenceInput} (ha : HasOccurrence sha k a)
    (hb : HasOccurrence sha k b) (h : occurrenceId sha a = occurrenceId sha b) : a = b := by
  have hentry := ha.knows.symm.trans (h ▸ hb.knows)
  exact OccurrenceInput.json_inj (congrArg Prod.fst (Option.some.inj hentry))

end Identities

end IdentityRegistry

/-! ### What a handle says -/

/-- The bytes of `canonical`. -/
def Value.bytes (v : Value) : ByteArray := (String.ofList v.canonical).toByteArray

theorem Value.bytes_inj {v w : Value} : v.bytes = w.bytes ↔ v.canonical = w.canonical := by
  unfold Value.bytes
  rw [String.toByteArray_inj]
  refine ⟨fun h => ?_, congrArg String.ofList⟩
  have hchars := congrArg String.toList h
  rwa [String.toList_ofList, String.toList_ofList] at hchars

/-- The bytes of two values differ, and the digests of these very bytes agree in the digits a
handle has. -/
def Collides (sha : Sha256) (domain : String) (v w : Value) : Prop :=
  v.bytes ≠ w.bytes ∧ (sha.digest domain v.canonical).toList.take 32 =
    (sha.digest domain w.canonical).toList.take 32

section Handles

variable {sha : Sha256} {domain lead : String}

theorem handleOf_eq_iff {v w : Value} : handleOf sha domain lead v = handleOf sha domain lead w ↔
    v.canonical = w.canonical ∨ Collides sha domain v w := by
  unfold handleOf
  constructor
  · intro h
    by_cases hbytes : v.canonical = w.canonical
    · exact .inl hbytes
    · have hchars := congrArg String.toList h
      rw [String.toList_append, String.toList_append, String.toList_ofList,
        String.toList_ofList] at hchars
      exact .inr ⟨fun hsame => hbytes (Value.bytes_inj.mp hsame), List.append_cancel_left hchars⟩
  · rintro (hbytes | ⟨-, hdigits⟩)
    · rw [hbytes]
    · rw [hdigits]

end Handles

/-- **The canonical encoding is injective**: two values without doubled keys have the same bytes
if and only if they are the same up to the order of members, and two identities share a handle
only if they are one, or their own bytes collide.  A declaration and an occurrence share none. -/
theorem canonical_injective (sha : Sha256) :
    (∀ v w : Value, v.Keyed → w.Keyed → (v.bytes = w.bytes ↔ v.Same w)) ∧
      (∀ a b : StableInput, stableId sha a = stableId sha b ↔
        a = b ∨ Collides sha "trellis.syntax.v1\x00" a.json b.json) ∧
      (∀ a b : OccurrenceInput, occurrenceId sha a = occurrenceId sha b ↔
        a = b ∨ Collides sha "trellis.occurrence.v2\x00" a.json b.json) ∧
      ∀ (a : StableInput) (b : OccurrenceInput), stableId sha a ≠ occurrenceId sha b := by
  refine ⟨fun v w hv _ => ?_, fun a b => ?_, fun a b => ?_, fun a b h => ?_⟩
  · rw [Value.bytes_inj, Value.canonical_eq_iff hv]
  · exact handleOf_eq_iff.trans
      (or_congr_left ⟨StableInput.json_inj, congrArg (Value.canonical ∘ StableInput.json)⟩)
  · exact handleOf_eq_iff.trans
      (or_congr_left ⟨OccurrenceInput.json_inj, congrArg (Value.canonical ∘ OccurrenceInput.json)⟩)
  · have hhead : ('s' : Char) = 'o' := by
      have hchars := congrArg String.toList h
      unfold stableId occurrenceId handleOf at hchars
      rw [String.toList_append, String.toList_append] at hchars
      exact List.head_eq_of_cons_eq hchars
    exact absurd hhead (by decide)

theorem canonical_injective_members :
    let sha : Sha256 := ⟨fun _ => "0000000000000000000000000000000000000000000000000000000000000000",
      fun _ _ => "0000000000000000000000000000000000000000000000000000000000000000",
      fun _ => by decide, fun _ _ => by decide⟩
    let v : Value := .object [("a", .number 1), ("b", .string "\n")]
    let w : Value := .object [("b", .string "\n"), ("a", .number 1)]
    let key : Key := ⟨.moduleItem, none, none, 0⟩
    v.bytes = w.bytes ∧ v.Same w ∧ (v.bytes = w.bytes ↔ v.Same w) ∧
      Collides sha "trellis.syntax.v1\x00" (StableInput.mk "s" "a.rs" .rust [] key).json
        (StableInput.mk "s" "b.rs" .rust [] key).json := by
  intro sha v w key
  have hkeyed : v.Keyed := .object _ (by decide) (by
    intro m hm
    rcases List.mem_cons.mp hm with rfl | hm
    · exact .number 1
    · rw [List.mem_singleton.mp hm]; exact .string _)
  have hkeyed' : w.Keyed := .object _ (by decide) (by
    intro m hm
    rcases List.mem_cons.mp hm with rfl | hm
    · exact .string _
    · rw [List.mem_singleton.mp hm]; exact .number 1)
  have hsame : v.Same w := by
    refine .object _ [("b", .string "\n"), ("a", .number 1)] _ (List.Perm.swap _ _ _) rfl ?_
    intro pair hpair
    rcases List.mem_cons.mp hpair with rfl | hpair
    · exact .string _
    · rw [List.mem_singleton.mp hpair]; exact .number 1
  have hall := canonical_injective sha
  have hiff := hall.1 v w hkeyed hkeyed'
  refine ⟨hiff.mpr hsame, hsame, hiff, ?_⟩
  have hcollides := (hall.2.1 ⟨"s", "a.rs", .rust, [], key⟩ ⟨"s", "b.rs", .rust, [], key⟩).mp rfl
  exact hcollides.resolve_left (by decide)

end Baleyg.Native
