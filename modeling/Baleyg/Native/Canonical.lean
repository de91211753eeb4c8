/-
The canonical bytes of a JSON value.

Every native identity is a digest of a JSON object, and two identities are told apart by
these bytes alone, so it matters that no two different objects have the same ones.  They do
not: the encoding is a prefix code.  What a value begins with says which kind of value it
is, a string and the two brackets are closed by a character that nothing inside them can
be taken for, and a number ends where the characters of a number end.

Members are written in the order of their keys.  `sorted` puts them in that order, at every
depth, and `emit` writes what it is given; the first forgets the order in which the members
came and the second forgets nothing.
-/
import Mathlib.Data.List.Perm.Basic
import Mathlib.Data.List.Sort

namespace Baleyg.Native

def isNumberChar (c : Char) : Bool :=
  c.isDigit || c == '-' || c == '+' || c == '.' || c == 'e' || c == 'E'

/-- A number other than a natural one, as its text, which is how `serde_json` keeps a number. -/
structure Literal where
  text : List Char
  chars : ∀ c ∈ text, isNumberChar c = true
  head : ∃ c rest, text = c :: rest ∧ (c.isDigit = true ∨ c = '-')
  other : ∃ c ∈ text, c.isDigit = false

/-- `serde_json::Value`; the numbers of an identity are natural ones. -/
inductive Value where
  | null
  | bool (b : Bool)
  | number (n : Nat)
  | literal (l : Literal)
  | string (text : String)
  | array (items : List Value)
  | object (members : List (String × Value))

namespace Value

def escape (c : Char) : List Char :=
  if c = '\x22' then ['\x5c', '\x22']
  else if c = '\x5c' then ['\x5c', '\x5c']
  else if c.toNat < 32 then
    ['\x5c', 'u', '0', '0', Nat.digitChar (c.toNat / 16), Nat.digitChar (c.toNat % 16)]
  else [c]

def quote (text : String) : List Char := '\x22' :: (text.toList.flatMap escape ++ ['\x22'])

/-- What stands before an item that is not the first one. -/
def comma (first : Bool) : List Char := if first then [] else [',']

mutual

/-- `emit`, of members that are in order. -/
def emit : Value → List Char
  | .null => ['n', 'u', 'l', 'l']
  | .bool true => ['t', 'r', 'u', 'e']
  | .bool false => ['f', 'a', 'l', 's', 'e']
  | .number n => Nat.toDigits 10 n
  | .literal l => l.text
  | .string text => quote text
  | .array items => '[' :: emitItems true items
  | .object members => '\x7b' :: emitMembers true members

def emitItems : Bool → List Value → List Char
  | _, [] => [']']
  | first, item :: items => comma first ++ emit item ++ emitItems false items

def emitMembers : Bool → List (String × Value) → List Char
  | _, [] => ['\x7d']
  | first, (key, value) :: members =>
      comma first ++ quote key ++ ':' :: (emit value ++ emitMembers false members)

end

/-- The keys of a map in the order of their bytes, which is that of their characters. -/
def byKey (a b : String × Value) : Bool := a.1 ≤ b.1

mutual

def sorted : Value → Value
  | .array items => .array (sortedItems items)
  | .object members => .object ((sortedMembers members).insertionSort fun a b => byKey a b)
  | .null => .null
  | .bool b => .bool b
  | .number n => .number n
  | .literal l => .literal l
  | .string text => .string text

def sortedItems : List Value → List Value
  | [] => []
  | item :: items => sorted item :: sortedItems items

def sortedMembers : List (String × Value) → List (String × Value)
  | [] => []
  | (key, value) :: members => (key, sorted value) :: sortedMembers members

end

/-- `canonical`, as the characters of its UTF-8 bytes. -/
def canonical (v : Value) : List Char := emit (sorted v)

/-! ### Strings -/

theorem digitChar_injective : ∀ a < 16, ∀ b < 16, Nat.digitChar a = Nat.digitChar b → a = b := by
  decide

theorem escape_cases (c : Char) :
    c = '\x22' ∧ escape c = ['\x5c', '\x22'] ∨ c = '\x5c' ∧ escape c = ['\x5c', '\x5c'] ∨
      c.toNat < 32 ∧ escape c = ['\x5c', 'u', '0', '0', Nat.digitChar (c.toNat / 16),
        Nat.digitChar (c.toNat % 16)] ∨
      c ≠ '\x22' ∧ c ≠ '\x5c' ∧ escape c = [c] := by
  unfold escape
  by_cases hquote : c = '\x22'
  · exact .inl ⟨hquote, if_pos hquote⟩
  by_cases hback : c = '\x5c'
  · refine .inr (.inl ⟨hback, ?_⟩)
    rw [if_neg hquote, if_pos hback]
  rw [if_neg hquote, if_neg hback]
  by_cases hcontrol : c.toNat < 32
  · exact .inr (.inr (.inl ⟨hcontrol, if_pos hcontrol⟩))
  · exact .inr (.inr (.inr ⟨hquote, hback, if_neg hcontrol⟩))

variable {r s : List Char} {v w : Value}

/-- **No code of a character begins another.** -/
theorem escape_inj {c d : Char} (h : escape c ++ r = escape d ++ s) : c = d ∧ r = s := by
  rcases escape_cases c with ⟨hc, hec⟩ | ⟨hc, hec⟩ | ⟨hc, hec⟩ | ⟨hc, hc', hec⟩ <;>
    rcases escape_cases d with ⟨hd, hed⟩ | ⟨hd, hed⟩ | ⟨hd, hed⟩ | ⟨hd, hd', hed⟩ <;>
    rw [hec, hed] at h <;> simp only [List.cons_append, List.nil_append, List.cons.injEq] at h
  case inr.inr.inl.inr.inr.inl =>
    obtain ⟨-, -, -, -, hhigh, hlow, hrest⟩ := h
    have hsixteens := digitChar_injective _ (by omega) _ (by omega) hhigh
    have hones := digitChar_injective _ (Nat.mod_lt _ (by decide)) _ (Nat.mod_lt _ (by decide)) hlow
    refine ⟨Char.toNat_inj.mp ?_, hrest⟩
    omega
  all_goals grind

theorem escape_head (c : Char) : ∃ first rest, escape c = first :: rest ∧ first ≠ '\x22' := by
  rcases escape_cases c with ⟨-, h⟩ | ⟨-, h⟩ | ⟨-, h⟩ | ⟨hquote, -, h⟩
  · exact ⟨_, _, h, by decide⟩
  · exact ⟨_, _, h, by decide⟩
  · exact ⟨_, _, h, by decide⟩
  · exact ⟨_, _, h, hquote⟩

theorem flatMap_escape_inj {cs ds : List Char}
    (h : cs.flatMap escape ++ '\x22' :: r = ds.flatMap escape ++ '\x22' :: s) :
    cs = ds ∧ r = s := by
  induction cs generalizing ds with
  | nil =>
      cases ds with
      | nil => exact ⟨rfl, List.tail_eq_of_cons_eq h⟩
      | cons d ds =>
          obtain ⟨first, rest, hescape, hne⟩ := escape_head d
          rw [List.flatMap_cons, hescape] at h
          exact absurd (List.head_eq_of_cons_eq h).symm hne
  | cons c cs ih =>
      cases ds with
      | nil =>
          obtain ⟨first, rest, hescape, hne⟩ := escape_head c
          rw [List.flatMap_cons, hescape] at h
          exact absurd (List.head_eq_of_cons_eq h) hne
      | cons d ds =>
          rw [List.flatMap_cons, List.flatMap_cons, List.append_assoc, List.append_assoc] at h
          obtain ⟨rfl, hrest⟩ := escape_inj h
          obtain ⟨rfl, htail⟩ := ih hrest
          exact ⟨rfl, htail⟩

theorem quote_inj {a b : String} (h : quote a ++ r = quote b ++ s) : a = b ∧ r = s := by
  unfold quote at h
  simp only [List.cons_append, List.append_assoc, List.cons.injEq, true_and, List.nil_append] at h
  obtain ⟨hchars, hrest⟩ := flatMap_escape_inj h
  exact ⟨String.toList_inj.mp hchars, hrest⟩

/-! ### Numbers -/

/-- What may stand behind a number. -/
def Stops (r : List Char) : Prop := ∀ c ∈ r.head?, isNumberChar c = false

theorem isNumberChar_of_isDigit {c : Char} (h : c.isDigit = true) : isNumberChar c = true := by
  unfold isNumberChar
  rw [h]
  rfl

theorem toDigits_chars (n : Nat) : ∀ c ∈ Nat.toDigits 10 n, isNumberChar c = true :=
  fun c hc => isNumberChar_of_isDigit (Nat.isDigit_of_mem_toDigits (by decide) (by decide) hc)

theorem takeWhile_number {text : List Char} (htext : ∀ c ∈ text, isNumberChar c = true)
    (h : Stops r) : (text ++ r).takeWhile isNumberChar = text := by
  rw [List.takeWhile_append_of_pos htext]
  cases r with
  | nil => simp
  | cons c r => rw [List.takeWhile_cons, h c rfl]; simp

theorem number_inj {text text' : List Char} (htext : ∀ c ∈ text, isNumberChar c = true)
    (htext' : ∀ c ∈ text', isNumberChar c = true) (hr : Stops r) (hs : Stops s)
    (h : text ++ r = text' ++ s) : text = text' ∧ r = s := by
  have hsame : text = text' := by
    rw [← takeWhile_number htext hr, h, takeWhile_number htext' hs]
  refine ⟨hsame, ?_⟩
  rw [hsame] at h
  exact List.append_cancel_left h

theorem toDigits_inj {n m : Nat} (hr : Stops r) (hs : Stops s)
    (h : Nat.toDigits 10 n ++ r = Nat.toDigits 10 m ++ s) : n = m ∧ r = s := by
  obtain ⟨hdigits, hrest⟩ := number_inj (toDigits_chars n) (toDigits_chars m) hr hs h
  refine ⟨?_, hrest⟩
  rw [← Nat.ofDigitChars_ten_toDigits (n := n), hdigits, Nat.ofDigitChars_ten_toDigits]

theorem literal_ne_toDigits (l : Literal) (n : Nat) : l.text ≠ Nat.toDigits 10 n := by
  obtain ⟨c, hc, hother⟩ := l.other
  intro h
  rw [h] at hc
  rw [Nat.isDigit_of_mem_toDigits (by decide) (by decide) hc] at hother
  cases hother

/-! ### Values -/

/-- The kind of value something begins. -/
def headKind (c : Char) : Nat :=
  if c.isDigit || c == '-' then 2
  else if c = 'n' then 0
  else if c = 't' ∨ c = 'f' then 1
  else if c = '\x22' then 3
  else if c = '[' then 4
  else if c = '\x7b' then 5
  else 6

def kind : Value → Nat
  | .null => 0
  | .bool _ => 1
  | .number _ => 2
  | .literal _ => 2
  | .string _ => 3
  | .array _ => 4
  | .object _ => 5

theorem emit_head (v : Value) : ∃ c rest, emit v = c :: rest ∧ headKind c = v.kind := by
  cases v with
  | null | string | array | object => exact ⟨_, _, rfl, rfl⟩
  | bool b => cases b <;> exact ⟨_, _, rfl, rfl⟩
  | number n =>
      obtain ⟨c, rest, hdigits⟩ := List.exists_cons_of_ne_nil (Nat.toDigits_ne_nil (n := n) (b := 10))
      have hc : c.isDigit = true := Nat.isDigit_of_mem_toDigits (b := 10) (n := n) (by decide)
        (by decide) (hdigits ▸ List.mem_cons_self)
      exact ⟨c, rest, hdigits, if_pos (by rw [hc]; rfl)⟩
  | literal l =>
      obtain ⟨c, rest, htext, hc⟩ := l.head
      refine ⟨c, rest, htext, if_pos ?_⟩
      rw [Bool.or_eq_true, beq_iff_eq]
      exact hc

theorem kind_eq (h : emit v ++ r = emit w ++ s) : v.kind = w.kind := by
  obtain ⟨c, rest, hv, hc⟩ := emit_head v
  obtain ⟨d, rest', hw, hd⟩ := emit_head w
  rw [hv, hw] at h
  rw [← hc, ← hd, List.head_eq_of_cons_eq h]

theorem emit_ne_bracket (v : Value) (r s : List Char) : emit v ++ r ≠ ']' :: s := by
  obtain ⟨c, rest, hv, hc⟩ := emit_head v
  rw [hv]
  intro h
  rw [List.head_eq_of_cons_eq h] at hc
  cases v <;> cases hc

theorem stops_items (items : List Value) (r : List Char) : Stops (emitItems false items ++ r) := by
  cases items <;>
  · rintro c hc
    cases hc
    rfl

theorem stops_members (members : List (String × Value)) (r : List Char) :
    Stops (emitMembers false members ++ r) := by
  cases members <;>
  · rintro c hc
    cases hc
    rfl

mutual

/-- **No value begins another.** -/
theorem emit_inj : ∀ (v w : Value) {r s : List Char}, Stops r → Stops s →
    emit v ++ r = emit w ++ s → v = w ∧ r = s
  | .null, w, r, s, _, _, h => by
      cases w with
      | null => exact ⟨rfl, List.append_cancel_left h⟩
      | _ => cases kind_eq h
  | .bool b, w, r, s, _, _, h => by
      cases w with
      | bool b' =>
          cases b <;> cases b'
          · exact ⟨rfl, List.append_cancel_left h⟩
          · cases List.head_eq_of_cons_eq h
          · cases List.head_eq_of_cons_eq h
          · exact ⟨rfl, List.append_cancel_left h⟩
      | _ => cases kind_eq h
  | .number n, w, r, s, hr, hs, h => by
      cases w with
      | number m =>
          obtain ⟨rfl, hrest⟩ := toDigits_inj hr hs h
          exact ⟨rfl, hrest⟩
      | literal l =>
          exact absurd (number_inj (toDigits_chars n) l.chars hr hs h).1.symm (literal_ne_toDigits l n)
      | _ => cases kind_eq h
  | .literal l, w, r, s, hr, hs, h => by
      cases w with
      | number m =>
          exact absurd (number_inj l.chars (toDigits_chars m) hr hs h).1 (literal_ne_toDigits l m)
      | literal l' =>
          obtain ⟨htext, hrest⟩ := number_inj l.chars l'.chars hr hs h
          refine ⟨?_, hrest⟩
          cases l
          cases l'
          cases htext
          rfl
      | _ => cases kind_eq h
  | .string text, w, r, s, _, _, h => by
      cases w with
      | string text' =>
          obtain ⟨rfl, hrest⟩ := quote_inj h
          exact ⟨rfl, hrest⟩
      | _ => cases kind_eq h
  | .array items, w, r, s, _, _, h => by
      cases w with
      | array items' =>
          obtain ⟨rfl, hrest⟩ := emitItems_inj items items' (List.tail_eq_of_cons_eq h)
          exact ⟨rfl, hrest⟩
      | _ => cases kind_eq h
  | .object members, w, r, s, _, _, h => by
      cases w with
      | object members' =>
          obtain ⟨rfl, hrest⟩ := emitMembers_inj members members' (List.tail_eq_of_cons_eq h)
          exact ⟨rfl, hrest⟩
      | _ => cases kind_eq h

theorem emitItems_inj : ∀ (items items' : List Value) {first : Bool} {r s : List Char},
    emitItems first items ++ r = emitItems first items' ++ s → items = items' ∧ r = s
  | [], items', first, r, s, h => by
      cases items' with
      | nil => exact ⟨rfl, List.append_cancel_left h⟩
      | cons item items' =>
          unfold emitItems at h
          cases first
          · cases List.head_eq_of_cons_eq h
          · rw [List.append_assoc, List.append_assoc] at h
            exact absurd h.symm (emit_ne_bracket item _ r)
  | item :: items, items', first, r, s, h => by
      cases items' with
      | nil =>
          unfold emitItems at h
          cases first
          · cases List.head_eq_of_cons_eq h
          · rw [List.append_assoc, List.append_assoc] at h
            exact absurd h (emit_ne_bracket item _ s)
      | cons item' items' =>
          unfold emitItems at h
          simp only [List.append_assoc] at h
          obtain ⟨rfl, hrest⟩ := emit_inj item item' (stops_items items r) (stops_items items' s)
            (List.append_cancel_left h)
          obtain ⟨rfl, htail⟩ := emitItems_inj items items' hrest
          exact ⟨rfl, htail⟩

theorem emitMembers_inj : ∀ (members members' : List (String × Value)) {first : Bool}
    {r s : List Char}, emitMembers first members ++ r = emitMembers first members' ++ s →
    members = members' ∧ r = s
  | [], members', first, r, s, h => by
      cases members' with
      | nil => exact ⟨rfl, List.append_cancel_left h⟩
      | cons member members' =>
          unfold emitMembers at h
          cases first <;> cases List.head_eq_of_cons_eq h
  | (key, value) :: members, members', first, r, s, h => by
      cases members' with
      | nil =>
          unfold emitMembers at h
          cases first <;> cases List.head_eq_of_cons_eq h
      | cons member members' =>
          obtain ⟨key', value'⟩ := member
          unfold emitMembers at h
          simp only [List.append_assoc, List.cons_append] at h
          obtain ⟨rfl, hrest⟩ := quote_inj (List.append_cancel_left h)
          obtain ⟨rfl, hmembers⟩ := emit_inj value value' (stops_members members r)
            (stops_members members' s) (List.tail_eq_of_cons_eq hrest)
          obtain ⟨rfl, htail⟩ := emitMembers_inj members members' hmembers
          exact ⟨rfl, htail⟩

end

/-- **Two values have the same canonical bytes only if they differ in the order of members.** -/
theorem canonical_inj (h : canonical v = canonical w) : sorted v = sorted w := by
  have hstops : Stops [] := fun c hc => by cases hc
  refine (emit_inj (sorted v) (sorted w) hstops hstops ?_).1
  rw [List.append_nil, List.append_nil]
  exact h

/-! ### The members of an object -/

@[simp] theorem sorted_string (text : String) : sorted (.string text) = .string text := by
  rw [sorted]

@[simp] theorem sorted_number (n : Nat) : sorted (.number n) = .number n := by
  rw [sorted]

@[simp] theorem sorted_bool (b : Bool) : sorted (.bool b) = .bool b := by
  rw [sorted]

@[simp] theorem sorted_null : sorted .null = .null := by
  rw [sorted]

theorem sortedItems_eq_map (items : List Value) : sortedItems items = items.map sorted := by
  induction items with
  | nil => rfl
  | cons item items ih => rw [sortedItems, ih, List.map_cons]

theorem sortedMembers_eq_map (members : List (String × Value)) :
    sortedMembers members = members.map fun m => (m.1, sorted m.2) := by
  induction members with
  | nil => rfl
  | cons member members ih => rw [sortedMembers, ih, List.map_cons]

@[simp] theorem sorted_array (items : List Value) :
    sorted (.array items) = .array (items.map sorted) := by
  rw [sorted, sortedItems_eq_map]

/-- Lists with the same keys, none of them twice, are the same if they have the same members. -/
theorem eq_of_perm_of_keys {α β : Type} {l l' : List (α × β)} (hperm : l.Perm l')
    (hkeys : l.map Prod.fst = l'.map Prod.fst) (hnodup : (l.map Prod.fst).Nodup) : l = l' := by
  induction l generalizing l' with
  | nil => exact hperm.nil_eq
  | cons a l ih =>
      cases l' with
      | nil => cases hkeys
      | cons a' l' =>
          rw [List.map_cons, List.map_cons, List.cons.injEq] at hkeys
          obtain ⟨hkey, hkeys⟩ := hkeys
          rw [List.map_cons, List.nodup_cons] at hnodup
          have ha : a = a' := by
            rcases List.mem_cons.mp (hperm.subset List.mem_cons_self) with ha | ha
            · exact ha
            · exact absurd (hkeys ▸ List.mem_map_of_mem ha) hnodup.1
          subst ha
          rw [ih hperm.cons_inv hkeys hnodup.2]

/-- **Objects of the same keys are told apart by their values.** -/
theorem object_inj {members members' : List (String × Value)} (keys : List String)
    (hnodup : keys.Nodup) (hkeys : members.map Prod.fst = keys)
    (hkeys' : members'.map Prod.fst = keys) (h : sorted (.object members) = sorted (.object members')) :
    members.map (fun m => sorted m.2) = members'.map fun m => sorted m.2 := by
  unfold sorted at h
  rw [Value.object.injEq, sortedMembers_eq_map, sortedMembers_eq_map] at h
  have hperm : (members.map fun m => (m.1, sorted m.2)).Perm
      (members'.map fun m => (m.1, sorted m.2)) :=
    (List.perm_insertionSort (fun a b => byKey a b = true) _).symm.trans
      (h ▸ List.perm_insertionSort _ _)
  have hfst : ∀ ms : List (String × Value),
      (ms.map fun m => (m.1, sorted m.2)).map Prod.fst = ms.map Prod.fst := fun ms => by
    rw [List.map_map]
    rfl
  have heq := eq_of_perm_of_keys hperm (by rw [hfst, hfst, hkeys, hkeys'])
    (by rwa [hfst, hkeys])
  have hsnd := congrArg (List.map Prod.snd) heq
  rwa [List.map_map, List.map_map] at hsnd

/-! ### The same value -/

/-- No object has two members of one key, as no map has. -/
inductive Keyed : Value → Prop where
  | null : Keyed .null
  | bool (b : Bool) : Keyed (.bool b)
  | number (n : Nat) : Keyed (.number n)
  | literal (l : Literal) : Keyed (.literal l)
  | string (text : String) : Keyed (.string text)
  | array (items : List Value) (h : ∀ item ∈ items, Keyed item) : Keyed (.array items)
  | object (members : List (String × Value)) (hkeys : (members.map Prod.fst).Nodup)
      (h : ∀ member ∈ members, Keyed member.2) : Keyed (.object members)

/-- **Equal up to the order of members**, at every depth. -/
inductive Same : Value → Value → Prop where
  | null : Same .null .null
  | bool (b : Bool) : Same (.bool b) (.bool b)
  | number (n : Nat) : Same (.number n) (.number n)
  | literal (l : Literal) : Same (.literal l) (.literal l)
  | string (text : String) : Same (.string text) (.string text)
  | array (items items' : List Value) (hlength : items.length = items'.length)
      (h : ∀ pair ∈ items.zip items', Same pair.1 pair.2) : Same (.array items) (.array items')
  | object (members mid members' : List (String × Value)) (hperm : members.Perm mid)
      (hkeys : mid.map Prod.fst = members'.map Prod.fst)
      (h : ∀ pair ∈ mid.zip members', Same pair.1.2 pair.2.2) :
      Same (.object members) (.object members')

@[simp] theorem sorted_literal (l : Literal) : sorted (.literal l) = .literal l := by
  rw [sorted]

theorem sorted_object (members : List (String × Value)) :
    sorted (.object members) =
      .object ((members.map fun m => (m.1, sorted m.2)).insertionSort fun a b => byKey a b) := by
  rw [sorted, sortedMembers_eq_map]

theorem induct {P : Value → Prop} (hnull : P .null) (hbool : ∀ b, P (.bool b))
    (hnumber : ∀ n, P (.number n)) (hliteral : ∀ l, P (.literal l))
    (hstring : ∀ text, P (.string text))
    (harray : ∀ items, (∀ item ∈ items, P item) → P (.array items))
    (hobject : ∀ members, (∀ m ∈ members, P m.2) → P (.object members)) (v : Value) : P v :=
  @Value.rec P (fun items => ∀ item ∈ items, P item) (fun members => ∀ m ∈ members, P m.2)
    (fun m => P m.2) hnull hbool hnumber hliteral hstring harray hobject
    (fun _ h => absurd h List.not_mem_nil)
    (fun _ _ hitem hitems => List.forall_mem_cons.mpr ⟨hitem, hitems⟩)
    (fun _ h => absurd h List.not_mem_nil)
    (fun _ _ hmember hmembers => List.forall_mem_cons.mpr ⟨hmember, hmembers⟩)
    (fun _ _ hvalue => hvalue) v

theorem map_eq_map_iff_zip {α β γ : Type} {f : α → γ} {g : β → γ} {l : List α} {l' : List β} :
    l.map f = l'.map g ↔ l.length = l'.length ∧ ∀ pair ∈ l.zip l', f pair.1 = g pair.2 := by
  rw [← List.forall₂_eq_eq_eq, List.forall₂_map_left_iff, List.forall₂_map_right_iff,
    List.forall₂_iff_zip]
  exact and_congr_right fun _ => ⟨fun h pair hpair => h hpair, fun h a b hab => h (a, b) hab⟩

/-- Members in the order of their keys, none of them twice, are known by what there is. -/
theorem insertionSort_eq_of_perm {members members' : List (String × Value)}
    (hperm : members.Perm members') (hkeys : (members.map Prod.fst).Nodup) :
    (members.insertionSort fun a b => byKey a b) =
      members'.insertionSort fun a b => byKey a b := by
  have hle : ∀ a b, byKey a b = true ↔ a.1 ≤ b.1 := fun a b => decide_eq_true_iff
  have _ : Std.Total fun a b : String × Value => byKey a b = true :=
    ⟨fun a b => by rw [hle, hle]; exact String.le_total a.1 b.1⟩
  have _ : IsTrans (String × Value) fun a b => byKey a b = true :=
    ⟨fun a b c hab hbc => by rw [hle] at hab hbc ⊢; exact String.le_trans hab hbc⟩
  refine List.Perm.eq_of_pairwise ?_ (List.pairwise_insertionSort _ members)
    (List.pairwise_insertionSort _ members')
    ((List.perm_insertionSort _ _).trans (hperm.trans (List.perm_insertionSort _ _).symm))
  intro a b ha hb hab hba
  have ha' : a ∈ members := (List.perm_insertionSort _ _).mem_iff.mp ha
  have hb' : b ∈ members := hperm.mem_iff.mpr ((List.perm_insertionSort _ _).mem_iff.mp hb)
  exact List.inj_on_of_nodup_map hkeys ha' hb'
    (String.le_antisymm ((hle a b).mp hab) ((hle b a).mp hba))

/-- **Values that are the same once sorted are the same up to the order of members.** -/
theorem same_of_sorted_eq (h : sorted v = sorted w) : Same v w := by
  induction v using induct generalizing w with
  | hnull =>
      cases w <;> simp [sorted_object] at h
      exact .null
  | hbool b =>
      cases w <;> simp [sorted_object] at h
      exact h ▸ .bool b
  | hnumber n =>
      cases w <;> simp [sorted_object] at h
      exact h ▸ .number n
  | hliteral l =>
      cases w <;> simp [sorted_object] at h
      exact h ▸ .literal l
  | hstring text =>
      cases w <;> simp [sorted_object] at h
      exact h ▸ .string text
  | harray items ih =>
      cases w with
      | array items' =>
          rw [sorted_array, sorted_array, Value.array.injEq, map_eq_map_iff_zip] at h
          exact .array items items' h.1 fun pair hpair =>
            ih pair.1 (List.of_mem_zip hpair).1 (h.2 pair hpair)
      | _ => simp [sorted_object] at h
  | hobject members ih =>
      cases w with
      | object members' =>
          rw [sorted_object, sorted_object, Value.object.injEq] at h
          have hperm : (members'.map fun m => (m.1, sorted m.2)).Perm
              (members.map fun m => (m.1, sorted m.2)) :=
            (List.perm_insertionSort (fun a b => byKey a b = true) _).symm.trans
              (h ▸ List.perm_insertionSort _ _)
          -- the members in the order of the others
          have hcomp : (Relation.Comp (· = List.map (fun m => (m.1, sorted m.2)) ·) List.Perm)
              (members'.map fun m => (m.1, sorted m.2)) members := by
            rw [List.eq_map_comp_perm]
            exact hperm
          obtain ⟨mid, hmid, hperm'⟩ := hcomp
          obtain ⟨hlength, hpairs⟩ := map_eq_map_iff_zip.mp hmid.symm
          refine .object members mid members' hperm'.symm
            (map_eq_map_iff_zip.mpr ⟨hlength, fun pair hpair => ?_⟩) fun pair hpair => ?_
          · exact (Prod.mk.inj (hpairs pair hpair)).1
          · exact ih pair.1 (hperm'.mem_iff.mp (List.of_mem_zip hpair).1)
              (Prod.mk.inj (hpairs pair hpair)).2
      | _ => simp [sorted_object] at h

theorem sorted_eq_of_same (hv : Keyed v) (h : Same v w) : sorted v = sorted w := by
  induction h with
  | null | bool | number | literal | string => rfl
  | array items items' hlength _ ih =>
      cases hv with
      | array _ hitems =>
          rw [sorted_array, sorted_array, Value.array.injEq, map_eq_map_iff_zip]
          exact ⟨hlength, fun pair hpair =>
            ih pair hpair (hitems pair.1 (List.of_mem_zip hpair).1)⟩
  | object members mid members' hperm hkeys _ ih =>
      cases hv with
      | object _ hnodup hvalues =>
          obtain ⟨hlength, hfst⟩ := map_eq_map_iff_zip.mp hkeys
          have hmid : (mid.map fun m => (m.1, sorted m.2)) =
              members'.map fun m => (m.1, sorted m.2) := by
            refine map_eq_map_iff_zip.mpr ⟨hlength, fun pair hpair => ?_⟩
            have hmem := hperm.mem_iff.mpr (List.of_mem_zip hpair).1
            rw [hfst pair hpair, ih pair hpair (hvalues pair.1 hmem)]
          rw [sorted_object, sorted_object, ← hmid, Value.object.injEq]
          refine insertionSort_eq_of_perm (hperm.map _) ?_
          rw [List.map_map]
          exact hnodup

/-- **The canonical bytes tell values apart up to the order of members, and no further.** -/
theorem canonical_eq_iff (hv : Keyed v) : canonical v = canonical w ↔ Same v w :=
  ⟨fun h => same_of_sorted_eq (canonical_inj h),
    fun h => congrArg emit (sorted_eq_of_same hv h)⟩

end Value

end Baleyg.Native
