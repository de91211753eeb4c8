/-
The grammar of RFC 8259, and the texts of it that the contract admits.

A derivation gives a tree, which keeps what the grammar leaves open: a number is its spelling,
an object may have several members of one key, and a string is whatever code units its escapes
stand for.  `Admissible` is what the contract asks beyond the grammar.  A text is a list of
UTF-16 code units here, so a character outside the basic plane is the two units of its pair,
both of which the grammar lets stand unescaped.
-/
import Baleyg.Contract.Parse

namespace Baleyg.Contract

/-! ### Tokens -/

def Ws (s : Units) : Prop := ∀ u ∈ s, u ∈ [unit ' ', unit '\t', unit '\n', unit '\r']

/-- A structural character and the white space around it. -/
def Structural (c : Char) (s : Units) : Prop := ∃ a b, Ws a ∧ Ws b ∧ s = a ++ unit c :: b

/-- `1*DIGIT`. -/
def Digits (s : Units) : Prop := s ≠ [] ∧ ∀ u ∈ s, isDigit u = true

/-- `int`. -/
def IsInt (s : Units) : Prop :=
  s = [unit '0'] ∨ ∃ d ds, s = d :: ds ∧ d ≠ unit '0' ∧ ∀ u ∈ s, isDigit u = true

/-- `[ frac ]`. -/
def IsFrac (s : Units) : Prop := s = [] ∨ ∃ ds, s = unit '.' :: ds ∧ Digits ds

/-- `[ exp ]`. -/
def IsExp (s : Units) : Prop :=
  s = [] ∨ ∃ e sign ds, s = e :: (sign ++ ds) ∧ (e = unit 'e' ∨ e = unit 'E') ∧
    (sign = [] ∨ sign = [unit '+'] ∨ sign = [unit '-']) ∧ Digits ds

/-- `number`. -/
def IsNumber (s : Units) : Prop :=
  ∃ sign int frac exp, s = sign ++ int ++ frac ++ exp ∧ (sign = [] ∨ sign = [unit '-']) ∧
    IsInt int ∧ IsFrac frac ∧ IsExp exp

/-- `*char`, and the string it spells. -/
inductive Chars : Units → Units → Prop where
  | nil : Chars [] []
  | unescaped {u : UInt16} {raw s : Units} (hu : 0x20 ≤ u.toNat) (hquote : u ≠ unit '\x22')
      (hback : u ≠ unit '\x5c') (h : Chars raw s) : Chars (u :: raw) (u :: s)
  | escaped {e u : UInt16} {raw s : Units} (he : (e, u) ∈ simpleEscapes) (h : Chars raw s) :
      Chars (unit '\x5c' :: e :: raw) (u :: s)
  | unicode {digits raw s : Units} {values : List Nat} (hlength : digits.length = 4)
      (hvalues : List.Forall₂ (fun d n => hexValue d = some n) digits values) (h : Chars raw s) :
      Chars (unit '\x5c' :: unit 'u' :: (digits ++ raw))
        (UInt16.ofNat (values.foldl (fun n d => 16 * n + d) 0) :: s)

/-- `string`. -/
def IsString (t s : Units) : Prop :=
  ∃ raw, t = unit '\x22' :: (raw ++ [unit '\x22']) ∧ Chars raw s

/-! ### Values -/

/-- What a derivation says of a value. -/
inductive Tree where
  | null
  | boolean (b : Bool)
  | number (text : Units)
  | string (s : Units)
  | array (items : List Tree)
  | object (members : List (Units × Tree))

mutual

/-- `value`. -/
inductive IsValue : Units → Tree → Prop where
  | null : IsValue ("null".toList.map unit) .null
  | yes : IsValue ("true".toList.map unit) (.boolean true)
  | no : IsValue ("false".toList.map unit) (.boolean false)
  | number {t : Units} (h : IsNumber t) : IsValue t (.number t)
  | string {t s : Units} (h : IsString t s) : IsValue t (.string s)
  | emptyArray {o c : Units} (ho : Structural '[' o) (hc : Structural ']' c) :
      IsValue (o ++ c) (.array [])
  | array {o t c : Units} {trees : List Tree} (ho : Structural '[' o) (h : IsItems t trees)
      (hc : Structural ']' c) : IsValue (o ++ (t ++ c)) (.array trees)
  | emptyObject {o c : Units} (ho : Structural '\x7b' o) (hc : Structural '\x7d' c) :
      IsValue (o ++ c) (.object [])
  | object {o t c : Units} {members : List (Units × Tree)} (ho : Structural '\x7b' o)
      (h : IsMembers t members) (hc : Structural '\x7d' c) :
      IsValue (o ++ (t ++ c)) (.object members)

/-- `value *( value-separator value )`. -/
inductive IsItems : Units → List Tree → Prop where
  | one {t : Units} {tree : Tree} (h : IsValue t tree) : IsItems t [tree]
  | more {t s t' : Units} {tree : Tree} {trees : List Tree} (h : IsValue t tree)
      (hs : Structural ',' s) (hrest : IsItems t' trees) : IsItems (t ++ (s ++ t')) (tree :: trees)

/-- `member *( value-separator member )`. -/
inductive IsMembers : Units → List (Units × Tree) → Prop where
  | one {k key s t : Units} {tree : Tree} (hk : IsString k key) (hs : Structural ':' s)
      (h : IsValue t tree) : IsMembers (k ++ (s ++ t)) [(key, tree)]
  | more {k key s t s' t' : Units} {tree : Tree} {members : List (Units × Tree)}
      (hk : IsString k key) (hs : Structural ':' s) (h : IsValue t tree) (hs' : Structural ',' s')
      (hrest : IsMembers t' members) :
      IsMembers (k ++ (s ++ (t ++ (s' ++ t')))) ((key, tree) :: members)

end

/-- `JSON-text`. -/
def IsJson (s : Units) (tree : Tree) : Prop :=
  ∃ a t b, Ws a ∧ Ws b ∧ s = a ++ (t ++ b) ∧ IsValue t tree

/-! ### What the contract asks beyond the grammar -/

namespace Tree

/-- Keys are unique once their escapes are read, numbers are safe integers without a sign, a
fraction or an exponent, and strings and keys are texts. -/
inductive Admissible : Tree → Prop where
  | null : Admissible .null
  | boolean (b : Bool) : Admissible (.boolean b)
  | number {text : Units} (hint : IsInt text) (hsafe : numeral text ≤ maxSafeInteger) :
      Admissible (.number text)
  | string {s : Units} (h : validString s = true) : Admissible (.string s)
  | array {items : List Tree} (h : ∀ item ∈ items, Admissible item) : Admissible (.array items)
  | object {members : List (Units × Tree)} (hkeys : (members.map Prod.fst).Nodup)
      (htexts : ∀ m ∈ members, validString m.1 = true) (h : ∀ m ∈ members, Admissible m.2) :
      Admissible (.object members)

mutual

def value : Tree → Value
  | .null => .null
  | .boolean b => .boolean b
  | .number text => .number (.natural (numeral text))
  | .string s => .string s
  | .array items => .array (values items)
  | .object members => .object (memberValues members)

def values : List Tree → List Value
  | [] => []
  | tree :: trees => tree.value :: values trees

def memberValues : List (Units × Tree) → List (Units × Value)
  | [] => []
  | (key, tree) :: members => (key, tree.value) :: memberValues members

end

end Tree

end Baleyg.Contract
