/-
Values and how their JSON is read back.

A value is nested to some depth, its numbers are spelled as JSON spells them and no object names a
key twice.  What such a value is written as is read back by a reader that goes through the text
once and follows nested arrays and objects so many levels down; a value that is nested deeper is
refused.  The reader knows no blanks: it reads what is written, and nothing else has to be read.

The recursion of the reader is on the levels.  The items of an array and the members of an object
are read by one loop, which is told how to read one of them.
-/
import Baleyg.Lib.Hex
import Baleyg.Lib.Utf
import Baleyg.Mcp.Encoding

namespace Baleyg.Daemon.Socket

open Mcp (Json)
open Mcp.Json (emit escape quote)
open Utf (utf8)

abbrev Bytes := List UInt8

/-! ### Values -/

mutual

def depth : Json → Nat
  | .arr items => depthItems items + 1
  | .obj members => depthMembers members + 1
  | _ => 0

def depthItems : List Json → Nat
  | [] => 0
  | item :: items => max (depth item) (depthItems items)

def depthMembers : List (String × Json) → Nat
  | [] => 0
  | (_, value) :: members => max (depth value) (depthMembers members)

end

def Number (text : List Char) : Prop :=
  ∃ sign integer fraction exponent, text = sign ++ integer ++ fraction ++ exponent ∧
    (sign = [] ∨ sign = ['-']) ∧
    (integer = ['0'] ∨ ∃ d ds, integer = d :: ds ∧ d ≠ '0' ∧ Mcp.digits integer = true) ∧
    (fraction = [] ∨ ∃ ds, fraction = '.' :: ds ∧ ds ≠ [] ∧ Mcp.digits ds = true) ∧
    (exponent = [] ∨ ∃ e sign ds, exponent = e :: (sign ++ ds) ∧ (e = 'e' ∨ e = 'E') ∧
      (sign = [] ∨ sign = ['+'] ∨ sign = ['-']) ∧ ds ≠ [] ∧ Mcp.digits ds = true)

/-- The keys that stand for a number and for a raw text where an object opens with one. -/
def privateKeys : List String :=
  ["$serde_json::private::Number", "$serde_json::private::RawValue"]

/-- A `serde_json::Value`, its members in the order in which its map yields them. -/
inductive Plain : Json → Prop where
  | null : Plain .null
  | bool (b : Bool) : Plain (.bool b)
  | num {text : String} (h : Number text.toList) : Plain (.num text)
  | str (s : String) : Plain (.str s)
  | arr {items : List Json} (h : ∀ v ∈ items, Plain v) : Plain (.arr items)
  | obj {members : List (String × Json)} (hkeys : (members.map Prod.fst).Nodup)
      (hfirst : ∀ key ∈ (members.map Prod.fst).head?, key ∉ privateKeys)
      (h : ∀ m ∈ members, Plain m.2) : Plain (.obj members)

def toVec (v : Json) : Bytes := utf8 v.emit

theorem depthItems_le {n : Nat} {items : List Json} :
    depthItems items ≤ n ↔ ∀ v ∈ items, depth v ≤ n := by
  induction items with
  | nil => simp [depthItems]
  | cons item items ih => rw [depthItems, Nat.max_le, ih, List.forall_mem_cons]

theorem depthMembers_le {n : Nat} {members : List (String × Json)} :
    depthMembers members ≤ n ↔ ∀ m ∈ members, depth m.2 ≤ n := by
  induction members with
  | nil => simp [depthMembers]
  | cons m members ih =>
      obtain ⟨key, value⟩ := m
      rw [depthMembers, Nat.max_le, ih, List.forall_mem_cons]

/-! ### Texts -/

def shorthand (c : Char) : Option Char :=
  if c = '\x22' ∨ c = '\\' then some c
  else if c = 'b' then some '\x08'
  else if c = 't' then some '\t'
  else if c = 'n' then some '\n'
  else if c = 'f' then some '\x0c'
  else if c = 'r' then some '\r'
  else none

/-- The character four digits stand for, and what follows them. -/
def unicode : List Char → Option (Char × List Char)
  | a :: b :: c :: d :: rest => do
      let a ← Hex.value a
      let b ← Hex.value b
      let c ← Hex.value c
      let d ← Hex.value d
      return (Char.ofNat (((16 * a + b) * 16 + c) * 16 + d), rest)
  | _ => none

/-- The character of a text that begins with `c`. -/
def unescape (c : Char) (rest : List Char) : Option (Char × List Char) :=
  if c ≠ '\\' then some (c, rest)
  else
    match rest with
    | [] => none
    | d :: rest => if d = 'u' then unicode rest else (shorthand d).map (·, rest)

/-- The characters up to the closing quote, and what follows it. -/
def readText : Nat → List Char → Option (List Char × List Char)
  | 0, _ => none
  | _ + 1, [] => none
  | fuel + 1, c :: rest =>
      if c = '\x22' then some ([], rest)
      else do
        let (d, rest) ← unescape c rest
        let (text, rest) ← readText fuel rest
        return (d :: text, rest)

theorem unescape_escape (c : Char) : ∃ e more, escape c = e :: more ∧ e ≠ '\x22' ∧
    ∀ rest, unescape e (more ++ rest) = some (c, rest) := by
  unfold escape
  by_cases hquote : c = '\x22'
  · subst hquote; exact ⟨_, _, rfl, by decide, fun rest => rfl⟩
  by_cases hslash : c = '\\'
  · subst hslash; exact ⟨_, _, rfl, by decide, fun rest => rfl⟩
  by_cases hb : c = '\x08'
  · subst hb; exact ⟨_, _, rfl, by decide, fun rest => rfl⟩
  by_cases ht : c = '\t'
  · subst ht; exact ⟨_, _, rfl, by decide, fun rest => rfl⟩
  by_cases hn : c = '\n'
  · subst hn; exact ⟨_, _, rfl, by decide, fun rest => rfl⟩
  by_cases hf : c = '\x0c'
  · subst hf; exact ⟨_, _, rfl, by decide, fun rest => rfl⟩
  by_cases hr : c = '\r'
  · subst hr; exact ⟨_, _, rfl, by decide, fun rest => rfl⟩
  rw [if_neg hquote, if_neg hslash, if_neg hb, if_neg ht, if_neg hn, if_neg hf, if_neg hr]
  by_cases hcontrol : c.toNat ≤ 0x1f
  · rw [if_pos hcontrol]
    refine ⟨_, _, rfl, by decide, fun rest => ?_⟩
    have hzero : Hex.value '0' = some 0 := rfl
    have hhigh := Hex.value_digit (c.toNat / 16) (by omega)
    have hlow := Hex.value_digit (c.toNat % 16) (by omega)
    have hc : ((16 * 0 + 0) * 16 + c.toNat / 16) * 16 + c.toNat % 16 = c.toNat := by omega
    show unicode ('0' :: '0' :: Hex.digit (c.toNat / 16) :: Hex.digit (c.toNat % 16) :: rest) = _
    unfold unicode
    simp only [hzero, hhigh, hlow, Option.bind_eq_bind, Option.bind_some, hc, Char.ofNat_toNat]
    rfl
  · rw [if_neg hcontrol]
    refine ⟨c, [], rfl, hquote, fun rest => ?_⟩
    unfold unescape
    exact if_pos hslash

theorem readText_escape (rest : List Char) (text : List Char) : ∀ fuel, text.length < fuel →
    readText fuel (text.flatMap escape ++ '\x22' :: rest) = some (text, rest) := by
  induction text with
  | nil =>
      intro fuel hfuel
      obtain ⟨fuel, rfl⟩ := Nat.exists_eq_succ_of_ne_zero (Nat.ne_of_gt hfuel)
      rfl
  | cons c text ih =>
      intro fuel hfuel
      rw [List.length_cons] at hfuel
      obtain ⟨fuel, rfl⟩ : ∃ n, fuel = n + 1 := ⟨fuel - 1, by omega⟩
      obtain ⟨e, more, hescape, hquote, hunescape⟩ := unescape_escape c
      rw [List.flatMap_cons, hescape, List.append_assoc, List.cons_append, readText, if_neg hquote,
        hunescape]
      simp only [Option.bind_eq_bind, Option.bind_some, ih fuel (by omega)]
      rfl

theorem length_le_escape (text : List Char) : text.length ≤ (text.flatMap escape).length := by
  induction text with
  | nil => exact Nat.le_refl 0
  | cons c text ih =>
      obtain ⟨e, more, hescape, -⟩ := unescape_escape c
      rw [List.flatMap_cons, hescape, List.length_append, List.length_cons, List.length_cons]
      omega

/-! ### Series -/

section Series

variable {α : Type}

/-- Items with commas between them up to the closing sign, and what follows it. -/
def series (one : List Char → Option (α × List Char)) (close : Char) :
    Nat → List Char → Option (List α × List Char)
  | 0, _ => none
  | fuel + 1, text => do
      let (x, rest) ← one text
      match rest with
      | [] => none
      | c :: rest =>
          if c = close then return ([x], rest)
          else if c = ',' then do
            let (xs, rest) ← series one close fuel rest
            return (x :: xs, rest)
          else none

def spelled (spell : α → List Char) (close : Char) (xs : List α) : List Char :=
  xs.flatMap (fun x => ',' :: spell x) ++ [close]

theorem length_spelled (spell : α → List Char) (close : Char) (xs : List α) :
    xs.length < (spelled spell close xs).length := by
  unfold spelled
  induction xs with
  | nil => exact Nat.zero_lt_one
  | cons x xs ih =>
      rw [List.flatMap_cons, List.append_assoc, List.length_append, List.length_cons,
        List.length_cons]
      omega

/-- What may stand behind a value. -/
def Ends (rest : List Char) : Prop :=
  ∀ c ∈ rest.head?, c = ',' ∨ c = ']' ∨ c = '\x7d'

theorem ends_spelled {close : Char} (hclose : close = ']' ∨ close = '\x7d')
    (spell : α → List Char) (xs : List α) (rest : List Char) :
    Ends (spelled spell close xs ++ rest) := by
  intro c hc
  cases xs with
  | nil =>
      have heq : close = c := Option.some.inj hc
      exact .inr (heq ▸ hclose)
  | cons x xs =>
      have heq : ',' = c := Option.some.inj hc
      exact .inl heq.symm

/-- Where one item is read back if it is good, a series is read back if all of them are. -/
theorem series_spelled {one : List Char → Option (α × List Char)} {spell : α → List Char}
    {good : α → Prop} [DecidablePred good] {close : Char} (hclose : close = ']' ∨ close = '\x7d')
    (rest : List Char) {xs : List α} :
    ∀ {x : α} {fuel : Nat}, xs.length < fuel →
      (∀ y ∈ x :: xs, ∀ rest, Ends rest →
        one (spell y ++ rest) = if good y then some (y, rest) else none) →
      series one close fuel (spell x ++ (spelled spell close xs ++ rest)) =
        if ∀ y ∈ x :: xs, good y then some (x :: xs, rest) else none := by
  induction xs with
  | nil =>
      intro x fuel hfuel hone
      obtain ⟨fuel, rfl⟩ := Nat.exists_eq_succ_of_ne_zero (Nat.ne_of_gt hfuel)
      have hx := hone x List.mem_cons_self _ (ends_spelled hclose spell [] rest)
      have hall : (∀ y ∈ [x], good y) ↔ good x := List.forall_mem_singleton
      rw [series, hx, if_congr hall rfl rfl]
      by_cases hgood : good x
      · rw [if_pos hgood, if_pos hgood]
        simp only [Option.bind_eq_bind, Option.bind_some, spelled, List.flatMap_nil,
          List.nil_append, List.cons_append, if_true]
        rfl
      · rw [if_neg hgood, if_neg hgood]; rfl
  | cons z xs ih =>
      intro x fuel hfuel hone
      rw [List.length_cons] at hfuel
      obtain ⟨fuel, rfl⟩ : ∃ n, fuel = n + 1 := ⟨fuel - 1, by omega⟩
      have hx := hone x List.mem_cons_self _ (ends_spelled hclose spell (z :: xs) rest)
      have hshort : xs.length < fuel := by omega
      have htail := @ih z fuel hshort fun y hy => hone y (List.mem_cons_of_mem _ hy)
      have hcomma : ',' ≠ close := by
        rcases hclose with rfl | rfl
        · decide
        · decide
      have hsplit : spelled spell close (z :: xs) ++ rest =
          ',' :: (spell z ++ (spelled spell close xs ++ rest)) := by
        unfold spelled
        simp only [List.flatMap_cons, List.append_assoc, List.cons_append]
      rw [series, hx]
      by_cases hgood : good x
      · rw [if_pos hgood, hsplit]
        simp only [Option.bind_eq_bind, Option.bind_some, if_neg hcomma, if_true, htail]
        by_cases hrest : ∀ y ∈ z :: xs, good y
        · have hall : ∀ y ∈ x :: z :: xs, good y := List.forall_mem_cons.mpr ⟨hgood, hrest⟩
          rw [if_pos hrest, if_pos hall]
          rfl
        · have hall : ¬ ∀ y ∈ x :: z :: xs, good y :=
            fun h => hrest (List.forall_mem_cons.mp h).2
          rw [if_neg hrest, if_neg hall]
          rfl
      · have hall : ¬ ∀ y ∈ x :: z :: xs, good y := fun h => hgood (h x List.mem_cons_self)
        rw [if_neg hgood, if_neg hall]
        rfl

end Series

/-! ### Values -/

def numeric (c : Char) : Bool :=
  c.isDigit || c = '-' || c = '+' || c = '.' || c = 'e' || c = 'E'

def word (text : List Char) (v : Json) (rest : List Char) : Option (Json × List Char) :=
  if text.isPrefixOf rest then some (v, rest.drop text.length) else none

def readMember (one : List Char → Option (Json × List Char)) :
    List Char → Option ((String × Json) × List Char)
  | [] => none
  | c :: rest =>
      if c ≠ '\x22' then none
      else do
        let (key, rest) ← readText rest.length rest
        if rest.head? ≠ some ':' then none
        else do
          let (v, rest) ← one rest.tail
          return ((String.ofList key, v), rest)

def container {α : Type} (build : List α → Json) (one : List Char → Option (α × List Char))
    (close : Char) (rest : List Char) : Option (Json × List Char) :=
  if rest.head? = some close then some (build [], rest.tail)
  else (series one close rest.length rest).map fun (xs, rest) => (build xs, rest)

/-- A value, whose items and members are read by `inner` where they may be read at all. -/
def readWith (inner : Option (List Char → Option (Json × List Char))) :
    List Char → Option (Json × List Char)
  | [] => none
  | c :: rest =>
      if c = '\x22' then
        (readText rest.length rest).map fun (text, rest) => (.str (String.ofList text), rest)
      else if c = '[' then inner.bind fun inner => container .arr inner ']' rest
      else if c = '\x7b' then inner.bind fun inner => container .obj (readMember inner) '\x7d' rest
      else if c = 'n' then word ['u', 'l', 'l'] .null rest
      else if c = 't' then word ['r', 'u', 'e'] (.bool true) rest
      else if c = 'f' then word ['a', 'l', 's', 'e'] (.bool false) rest
      else if numeric c then
        some (.num (String.ofList ((c :: rest).takeWhile numeric)), (c :: rest).dropWhile numeric)
      else none

/-- A value that is nested no deeper than so many levels. -/
def readValue : Nat → List Char → Option (Json × List Char)
  | 0 => readWith none
  | levels + 1 => readWith (some (readValue levels))

def read (levels : Nat) (bytes : Bytes) : Option Json := do
  let text ← Utf.decode8 bytes
  let (v, rest) ← readValue levels text
  if rest = [] then some v else none

theorem numeric_of_digits {ds : List Char} (h : Mcp.digits ds = true) :
    ∀ c ∈ ds, numeric c = true := by
  intro c hc
  have hdigit : c.isDigit = true := List.all_eq_true.mp h c hc
  unfold numeric
  rw [hdigit, Bool.true_or]
  rfl

theorem Number.ne_nil {text : List Char} (h : Number text) : text ≠ [] := by
  obtain ⟨sign, integer, fraction, exponent, rfl, -, hinteger, -⟩ := h
  rcases hinteger with rfl | ⟨d, ds, rfl, -⟩
  · simp
  · simp

theorem Number.numeric {text : List Char} (h : Number text) : ∀ c ∈ text, numeric c = true := by
  obtain ⟨sign, integer, fraction, exponent, rfl, hsign, hinteger, hfraction, hexponent⟩ := h
  intro c hc
  simp only [List.mem_append] at hc
  rcases hc with ((hc | hc) | hc) | hc
  · rcases hsign with rfl | rfl
    · contradiction
    · rw [List.mem_singleton.mp hc]; decide
  · rcases hinteger with rfl | ⟨d, ds, rfl, -, hdigits⟩
    · rw [List.mem_singleton.mp hc]; decide
    · exact numeric_of_digits hdigits c hc
  · rcases hfraction with rfl | ⟨ds, rfl, -, hdigits⟩
    · contradiction
    · rcases List.mem_cons.mp hc with rfl | hc
      · decide
      · exact numeric_of_digits hdigits c hc
  · rcases hexponent with rfl | ⟨e, sign, ds, rfl, he, hsign, -, hdigits⟩
    · contradiction
    · rcases List.mem_cons.mp hc with rfl | hc
      · rcases he with rfl | rfl
        · decide
        · decide
      · rcases List.mem_append.mp hc with hc | hc
        · rcases hsign with rfl | rfl | rfl
          · contradiction
          · rw [List.mem_singleton.mp hc]; decide
          · rw [List.mem_singleton.mp hc]; decide
        · exact numeric_of_digits hdigits c hc

variable {rest : List Char} {v : Json}

theorem readWith_num {inner : Option (List Char → Option (Json × List Char))} {text : String}
    (h : Number text.toList) (hrest : Ends rest) :
    readWith inner (text.toList ++ rest) = some (.num text, rest) := by
  have hnumeric := h.numeric
  have hstop : ∀ c ∈ rest.head?, numeric c = false := by
    intro c hc
    rcases hrest c hc with rfl | rfl | rfl
    · decide
    · decide
    · decide
  have htake : (text.toList ++ rest).takeWhile numeric = text.toList := by
    rw [List.takeWhile_append_of_pos hnumeric]
    cases rest with
    | nil => rw [List.takeWhile_nil, List.append_nil]
    | cons c rest => rw [List.takeWhile_cons, hstop c rfl, if_neg Bool.false_ne_true, List.append_nil]
  have hdrop : (text.toList ++ rest).dropWhile numeric = rest := by
    rw [List.dropWhile_append_of_pos hnumeric]
    cases rest with
    | nil => rfl
    | cons c rest => rw [List.dropWhile_cons, hstop c rfl, if_neg Bool.false_ne_true]
  have hofList : String.ofList text.toList = text := String.ofList_toList
  cases hlist : text.toList with
  | nil => exact absurd hlist h.ne_nil
  | cons c more =>
      have hc : numeric c = true := hnumeric c (hlist ▸ List.mem_cons_self)
      have hother : ∀ d, numeric d = false → c ≠ d := by
        rintro d hd rfl
        rw [hc] at hd
        contradiction
      rw [hlist, List.cons_append] at htake hdrop
      rw [List.cons_append, readWith, if_neg (hother _ rfl), if_neg (hother _ rfl),
        if_neg (hother _ rfl), if_neg (hother _ rfl), if_neg (hother _ rfl), if_neg (hother _ rfl),
        if_pos hc, htake, hdrop, ← hlist, hofList]

theorem head_emit (h : Plain v) : ∃ c more, emit v = c :: more ∧ c ≠ ']' := by
  cases h with
  | null | str | arr _ | obj _ _ _ => exact ⟨_, _, rfl, by decide⟩
  | bool b =>
      cases b
      · exact ⟨_, _, rfl, by decide⟩
      · exact ⟨_, _, rfl, by decide⟩
  | @num text hnumber =>
      cases hlist : text.toList with
      | nil => exact absurd hlist hnumber.ne_nil
      | cons c more =>
          refine ⟨c, more, hlist, ?_⟩
          rintro rfl
          have hc := hnumber.numeric ']' (hlist ▸ List.mem_cons_self)
          contradiction

theorem emitItems_eq (items : List Json) :
    Json.emitItems false items = spelled emit ']' items := by
  induction items with
  | nil => rfl
  | cons v items ih =>
      rw [Json.emitItems, ih]
      unfold spelled
      simp only [Json.comma, Bool.false_eq_true, if_false, List.flatMap_cons, List.cons_append,
        List.nil_append, List.append_assoc]

def emitMember (m : String × Json) : List Char := quote m.1.toList ++ ':' :: emit m.2

theorem emitMembers_eq (members : List (String × Json)) :
    Json.emitMembers false members = spelled emitMember '\x7d' members := by
  induction members with
  | nil => rfl
  | cons m members ih =>
      obtain ⟨key, v⟩ := m
      rw [Json.emitMembers, ih]
      unfold spelled emitMember
      simp only [Json.comma, Bool.false_eq_true, if_false, List.flatMap_cons, List.cons_append,
        List.nil_append, List.append_assoc]

theorem readMember_emitMember {one : List Char → Option (Json × List Char)} {m : String × Json}
    {good : Prop} [Decidable good]
    (h : one (emit m.2 ++ rest) = if good then some (m.2, rest) else none) :
    readMember one (emitMember m ++ rest) = if good then some (m, rest) else none := by
  obtain ⟨key, v⟩ := m
  have hsplit : emitMember (key, v) ++ rest =
      '\x22' :: (key.toList.flatMap escape ++ '\x22' :: ':' :: (emit v ++ rest)) := by
    unfold emitMember quote
    simp only [List.cons_append, List.append_assoc, List.nil_append]
  have hfuel : key.toList.length <
      (key.toList.flatMap escape ++ '\x22' :: ':' :: (emit v ++ rest)).length := by
    have hle := length_le_escape key.toList
    rw [List.length_append, List.length_cons]
    omega
  have htext := readText_escape (':' :: (emit v ++ rest)) key.toList _ hfuel
  have hkey : String.ofList key.toList = key := String.ofList_toList
  have hquote : ¬ '\x22' ≠ '\x22' := not_not_intro rfl
  have hcolon : ¬ (':' :: (emit v ++ rest)).head? ≠ some ':' := not_not_intro rfl
  rw [hsplit, readMember, if_neg hquote, htext]
  simp only [Option.bind_eq_bind, Option.bind_some, if_neg hcolon, List.tail_cons]
  by_cases hgood : good
  · rw [if_pos hgood] at h ⊢
    rw [h, Option.bind_some, hkey]
    rfl
  · rw [if_neg hgood] at h ⊢
    rw [h, Option.bind_none]

theorem container_spelled {α : Type} {build : List α → Json}
    {one : List Char → Option (α × List Char)} {spell : α → List Char} {good : α → Prop}
    [DecidablePred good] {close : Char} (hclose : close = ']' ∨ close = '\x7d')
    {x : α} {xs : List α} (hhead : ∃ c more, spell x = c :: more ∧ c ≠ close)
    (hone : ∀ y ∈ x :: xs, ∀ rest, Ends rest →
      one (spell y ++ rest) = if good y then some (y, rest) else none) :
    container build one close (spell x ++ (spelled spell close xs ++ rest)) =
      if ∀ y ∈ x :: xs, good y then some (build (x :: xs), rest) else none := by
  obtain ⟨c, more, hspell, hne⟩ := hhead
  have hopen : (spell x ++ (spelled spell close xs ++ rest)).head? ≠ some close := by
    rw [hspell, List.cons_append, List.head?_cons]
    intro heq
    exact hne (Option.some.inj heq)
  have hfuel : xs.length < (spell x ++ (spelled spell close xs ++ rest)).length := by
    have hle := length_spelled spell close xs
    rw [List.length_append, List.length_append]
    omega
  unfold container
  rw [if_neg hopen, series_spelled hclose rest hfuel hone]
  by_cases hall : ∀ y ∈ x :: xs, good y
  · rw [if_pos hall, if_pos hall]; rfl
  · rw [if_neg hall, if_neg hall]; rfl

theorem readWith_str (inner : Option (List Char → Option (Json × List Char))) (s : String) :
    readWith inner (emit (.str s) ++ rest) = some (.str s, rest) := by
  have hfuel : s.toList.length < (s.toList.flatMap escape ++ '\x22' :: rest).length := by
    have hle := length_le_escape s.toList
    rw [List.length_append, List.length_cons]
    omega
  have hsplit : emit (.str s) ++ rest = '\x22' :: (s.toList.flatMap escape ++ '\x22' :: rest) := by
    rw [emit]
    unfold quote
    simp only [List.cons_append, List.append_assoc, List.nil_append]
  rw [hsplit, readWith, if_pos rfl, readText_escape rest s.toList _ hfuel]
  show some (Json.str (String.ofList s.toList), rest) = _
  rw [String.ofList_toList]

theorem emit_arr_cons (v : Json) (items : List Json) (rest : List Char) :
    emit (.arr (v :: items)) ++ rest = '[' :: (emit v ++ (spelled emit ']' items ++ rest)) := by
  rw [emit, Json.emitItems, emitItems_eq]
  simp only [Json.comma, if_true, List.nil_append, List.cons_append, List.append_assoc]

theorem emit_obj_cons (m : String × Json) (members : List (String × Json)) (rest : List Char) :
    emit (.obj (m :: members)) ++ rest =
      '\x7b' :: (emitMember m ++ (spelled emitMember '\x7d' members ++ rest)) := by
  obtain ⟨key, v⟩ := m
  rw [emit, Json.emitMembers, emitMembers_eq]
  unfold emitMember
  simp only [Json.comma, if_true, List.nil_append, List.cons_append, List.append_assoc]

/-- **A value is read back from what it is written as**, unless it is nested too deep. -/
theorem readValue_emit (h : Plain v) : ∀ (levels : Nat) (rest : List Char), Ends rest →
    readValue levels (emit v ++ rest) = if depth v ≤ levels then some (v, rest) else none := by
  induction h with
  | null =>
      intro levels rest _
      cases levels <;> rfl
  | bool b =>
      intro levels rest _
      cases levels <;> cases b <;> rfl
  | @num text hnumber =>
      intro levels rest hrest
      have hzero : depth (.num text) ≤ levels := Nat.zero_le _
      rw [if_pos hzero]
      cases levels with
      | zero | succ => exact readWith_num hnumber hrest
  | str s =>
      intro levels rest _
      have hzero : depth (.str s) ≤ levels := Nat.zero_le _
      rw [if_pos hzero]
      cases levels with
      | zero | succ => exact readWith_str _ s
  | @arr items hitems ih =>
      intro levels rest hrest
      cases levels with
      | zero =>
          have hdeep : ¬ depth (.arr items) ≤ 0 := by
            rw [depth]
            omega
          rw [if_neg hdeep]
          rfl
      | succ levels =>
          have hdepth : depth (.arr items) ≤ levels + 1 ↔ ∀ v ∈ items, depth v ≤ levels := by
            rw [depth, ← depthItems_le]
            omega
          rw [if_congr hdepth rfl rfl]
          cases items with
          | nil => rfl
          | cons v items =>
              rw [emit_arr_cons]
              exact container_spelled (.inl rfl) (head_emit (hitems v List.mem_cons_self))
                fun w hw rest hrest => ih w hw levels rest hrest
  | @obj members _ _ hmembers ih =>
      intro levels rest hrest
      cases levels with
      | zero =>
          have hdeep : ¬ depth (.obj members) ≤ 0 := by
            rw [depth]
            omega
          rw [if_neg hdeep]
          rfl
      | succ levels =>
          have hdepth : depth (.obj members) ≤ levels + 1 ↔
              ∀ m ∈ members, depth m.2 ≤ levels := by
            rw [depth, ← depthMembers_le]
            omega
          rw [if_congr hdepth rfl rfl]
          cases members with
          | nil => rfl
          | cons m members =>
              rw [emit_obj_cons]
              have hhead : ∃ c more, emitMember m = c :: more ∧ c ≠ '\x7d' :=
                ⟨'\x22', _, rfl, by decide⟩
              refine container_spelled (.inr rfl) hhead ?_
              intro m' hm' rest hrest
              exact readMember_emitMember (ih m' hm' levels rest hrest)

/-- **What a value is written as is read back**, unless it is nested too deep. -/
theorem read_toVec (h : Plain v) (levels : Nat) :
    read levels (toVec v) = if depth v ≤ levels then some v else none := by
  have hends : Ends [] := by
    intro c hc
    contradiction
  have hread := readValue_emit h levels [] hends
  rw [List.append_nil] at hread
  unfold read toVec
  rw [Utf.decode8_utf8]
  simp only [Option.bind_eq_bind, Option.bind_some, hread]
  by_cases hdeep : depth v ≤ levels
  · rw [if_pos hdeep, if_pos hdeep]; rfl
  · rw [if_neg hdeep, if_neg hdeep]; rfl

end Baleyg.Daemon.Socket
