/-
The values of the contract's JSON and their canonical bytes.

The tools that check the contract are not written in the language of the indexer, and their
strings are UTF-16: a string may hold half of a surrogate pair, which no text has.  A number
is a float, and the encoder takes only those that are natural numbers small enough to be
exact.  What it cannot write, it refuses: a value of another kind, a hole in an array, a string
or a key that is no text.

`sorted` puts the members of every object in the order of the bytes of their keys, and `encode`
writes what it is given, as in `Native.Canonical`.
-/
import Mathlib.Data.List.Perm.Basic
import Mathlib.Data.List.Sort
import Baleyg.Lib.Fallible
import Baleyg.Lib.Utf

namespace Baleyg.Contract

open Fallible (ensure)

/-- A string, which is any sequence of UTF-16 code units. -/
abbrev Units := List UInt16

instance : LawfulBEq Units := inferInstance

/-- A number that is natural, or any other: a negative one, a fraction, `-0`, `NaN`. -/
inductive Number where
  | natural (n : Nat)
  | other
  deriving DecidableEq, Repr

inductive Value where
  | null
  | boolean (b : Bool)
  | number (x : Number)
  | string (s : Units)
  | array (items : List Value)
  | object (members : List (Units × Value))
  | hole
  /-- `undefined`, a function, an object with a prototype of its own. -/
  | foreign

/-- `Number.MAX_SAFE_INTEGER`. -/
def maxSafeInteger : Nat := 9007199254740991

/-- `validString`: no surrogate without its other half. -/
def validString (s : Units) : Bool := Utf.wellFormed s

/-- `Buffer.from`: a surrogate without its other half becomes U+FFFD. -/
def bufferFrom (s : Units) : List UInt8 := Utf.utf8 (Utf.decode s)

def unitsOf (text : String) : Units := Utf.utf16 text.toList

/-! ### Characters of the grammar -/

def unit (c : Char) : UInt16 := UInt16.ofNat c.toNat

def decimal (n : Nat) : Units := (Nat.toDigits 10 n).map unit

def escape (u : UInt16) : Units :=
  if u = unit '\x22' then [unit '\x5c', unit '\x22']
  else if u = unit '\x5c' then [unit '\x5c', unit '\x5c']
  else if u.toNat < 32 then
    [unit '\x5c', unit 'u', unit '0', unit '0', unit (Nat.digitChar (u.toNat / 16)),
      unit (Nat.digitChar (u.toNat % 16))]
  else [u]

def quote (s : Units) : Units := unit '\x22' :: (s.flatMap escape ++ [unit '\x22'])

def encodeString (s : Units) : Except String Units := do
  ensure (validString s = true) "JSON.CANONICAL non-scalar string"
  pure (quote s)

/-! ### Encoding -/

/-- `parts.join(",")`. -/
def join (parts : List Units) : Units := [unit ','].intercalate parts

mutual

/-- `encode`, of members that are in order. -/
def encode : Value → Except String Units
  | .null => pure ("null".toList.map unit)
  | .boolean true => pure ("true".toList.map unit)
  | .boolean false => pure ("false".toList.map unit)
  | .number (.natural n) => do
      ensure (n ≤ maxSafeInteger) "JSON.CANONICAL unsupported value"
      pure (decimal n)
  | .number .other => throw "JSON.CANONICAL unsupported value"
  | .string s => encodeString s
  | .array items => do
      let parts ← encodeItems 0 items
      pure (unit '[' :: (join parts ++ [unit ']']))
  | .object members => do
      let parts ← encodeMembers members
      pure (unit '\x7b' :: (join parts ++ [unit '\x7d']))
  | .hole => throw "JSON.CANONICAL unsupported value"
  | .foreign => throw "JSON.CANONICAL unsupported value"

def encodeItems : Nat → List Value → Except String (List Units)
  | _, [] => pure []
  | i, .hole :: _ => throw s!"JSON.CANONICAL sparse array at [{i}]"
  | i, item :: items => do
      let part ← encode item
      let parts ← encodeItems (i + 1) items
      pure (part :: parts)

def encodeMembers : List (Units × Value) → Except String (List Units)
  | [] => pure []
  | (key, value) :: members => do
      let name ← encodeString key
      let part ← encode value
      let parts ← encodeMembers members
      pure ((name ++ unit ':' :: part) :: parts)

end

def byKey (a b : Units × Value) : Bool := Utf.upTo (bufferFrom a.1) (bufferFrom b.1)

mutual

def sorted : Value → Value
  | .array items => .array (sortedItems items)
  | .object members => .object ((sortedMembers members).insertionSort fun a b => byKey a b)
  | .null => .null
  | .boolean b => .boolean b
  | .number x => .number x
  | .string s => .string s
  | .hole => .hole
  | .foreign => .foreign

def sortedItems : List Value → List Value
  | [] => []
  | item :: items => sorted item :: sortedItems items

def sortedMembers : List (Units × Value) → List (Units × Value)
  | [] => []
  | (key, value) :: members => (key, sorted value) :: sortedMembers members

end

def canonicalBytes (v : Value) : Except String (List UInt8) := do
  let s ← encode (sorted v)
  pure (bufferFrom s)

end Baleyg.Contract
