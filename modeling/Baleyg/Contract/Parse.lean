/-
The parser of the contract's JSON.

It reads a text from left to right with one cursor, and every text it refuses it refuses at an
offset.  The standard parser would accept more: it keeps the last of two members of one key, it
reads `-0` and `1e2` as numbers, and a string may hold half of a surrogate pair.  This one looks
at the spelling of a token before it hands a string to the standard parser, which then only has
to read its escapes.

A value is nested as deep as its text is long, so twice the length of the text is fuel enough.
-/
import Baleyg.Contract.Json

namespace Baleyg.Contract

open Fallible (ensure)

inductive ParseError where
  | leadingBom
  | undecodable
  | intake (offset : Nat) (message : String)
  | literal
  | exhausted
  deriving DecidableEq, Repr

namespace ParseError

def text : ParseError → Option String
  | leadingBom => some "JSON.INTAKE leading BOM"
  | intake offset message => some s!"JSON.INTAKE at offset {offset}: {message}"
  | undecodable => none
  | literal => none
  | exhausted => none

end ParseError

/-- What the parser takes: bytes, or a string. -/
inductive Input where
  | bytes (bytes : List UInt8)
  | string (source : Units)
  deriving DecidableEq, Repr

/-- Where the parser is in its source, and what is left of it. -/
structure Cursor where
  offset : Nat
  rest : Units
  deriving DecidableEq, Repr

/-- Blank, tab, line feed, carriage return. -/
def isSpace (u : UInt16) : Bool :=
  u == unit ' ' || u == unit '\t' || u == unit '\n' || u == unit '\r'

namespace Cursor

def skip (c : Cursor) (n : Nat) : Cursor := ⟨c.offset + n, c.rest.drop n⟩

def peek (c : Cursor) : Option UInt16 := c.rest.head?

def error (c : Cursor) (message : String) : ParseError := .intake c.offset message

def space (c : Cursor) : Cursor := c.skip (c.rest.takeWhile isSpace).length

end Cursor

/-! ### Strings -/

def simpleEscapes : List (UInt16 × UInt16) :=
  [(unit '\x22', unit '\x22'), (unit '\x5c', unit '\x5c'), (unit '/', unit '/'),
    (unit 'b', 8), (unit 'f', 12), (unit 'n', 10), (unit 'r', 13), (unit 't', 9)]

def isDigit (u : UInt16) : Bool := unit '0' ≤ u && u ≤ unit '9'

def hexValue (u : UInt16) : Option Nat :=
  if isDigit u then some (u.toNat - 48)
  else if unit 'a' ≤ u && u ≤ unit 'f' then some (u.toNat - 87)
  else if unit 'A' ≤ u && u ≤ unit 'F' then some (u.toNat - 55)
  else none

/-- `[a-fA-F0-9]`. -/
def isHex (u : UInt16) : Bool := (hexValue u).isSome

/-- The loop of `string`: what stands before the closing quote, and what is left behind it. -/
def scan : Nat → Units → Except ParseError (Units × Cursor)
  | i, [] => throw (.intake i "unterminated string")
  | i, c :: rest =>
      if c = unit '\x22' then pure ([], ⟨i + 1, rest⟩)
      else if c = unit '\x5c' then
        match rest with
        | [] => throw (.intake (i + 2) "unterminated string")
        | e :: rest =>
            if e = unit 'u' then
              match rest with
              | h₁ :: h₂ :: h₃ :: h₄ :: rest =>
                  if [h₁, h₂, h₃, h₄].all isHex then do
                    let (raw, next) ← scan (i + 6) rest
                    pure (c :: e :: h₁ :: h₂ :: h₃ :: h₄ :: raw, next)
                  else throw (.intake (i + 2) "invalid Unicode escape")
              | _ => throw (.intake (i + 2) "invalid Unicode escape")
            else if (simpleEscapes.lookup e).isSome then do
              let (raw, next) ← scan (i + 2) rest
              pure (c :: e :: raw, next)
            else throw (.intake (i + 2) "invalid escape")
      else if c.toNat < 32 then throw (.intake (i + 1) "unescaped control")
      else do
        let (raw, next) ← scan (i + 1) rest
        pure (c :: raw, next)

/-- The code unit of four hexadecimal digits. -/
def hexUnit (digits : Units) : Option UInt16 := do
  let values ← digits.mapM hexValue
  pure (UInt16.ofNat (values.foldl (fun n d => 16 * n + d) 0))

/-- `JSON.parse`, of what stands between the quotes of a string. -/
def unescape : Units → Option Units
  | [] => some []
  | c :: rest =>
      if c = unit '\x5c' then
        match rest with
        | [] => none
        | e :: rest =>
            if e = unit 'u' then
              match rest with
              | h₁ :: h₂ :: h₃ :: h₄ :: rest => do
                  let u ← hexUnit [h₁, h₂, h₃, h₄]
                  let s ← unescape rest
                  pure (u :: s)
              | _ => none
            else do
              let u ← simpleEscapes.lookup e
              let s ← unescape rest
              pure (u :: s)
      else if c = unit '\x22' ∨ c.toNat < 32 then none
      else do
        let s ← unescape rest
        pure (c :: s)

def string (c : Cursor) : Except ParseError (Units × Cursor) := do
  ensure (c.peek = some (unit '\x22')) ((c.skip 1).error "expected string")
  let (raw, next) ← scan (c.offset + 1) (c.rest.drop 1)
  match unescape raw with
  | none => throw .literal
  | some s => do
      ensure (validString s = true) (next.error "non-scalar string")
      pure (s, next)

/-! ### Numbers -/

/-- `-?`. -/
def signPart (s : Units) : Units := s.take (if s.head? = some (unit '-') then 1 else 0)

/-- `0|[1-9][0-9]*`. -/
def integerPart (s : Units) : Units :=
  s.take (if s.head? = some (unit '0') then 1 else (s.takeWhile isDigit).length)

/-- `(?:\.[0-9]+)?`. -/
def fractionPart (s : Units) : Units :=
  let digits := (s.drop 1).takeWhile isDigit
  if s.head? = some (unit '.') ∧ digits ≠ [] then unit '.' :: digits else []

/-- `(?:[eE][+-]?[0-9]+)?`. -/
def exponentPart (s : Units) : Units :=
  let sign := (s.drop 1).take
    (if (s.drop 1).head? = some (unit '+') ∨ (s.drop 1).head? = some (unit '-') then 1 else 0)
  let digits := ((s.drop 1).drop sign.length).takeWhile isDigit
  if (s.head? = some (unit 'e') ∨ s.head? = some (unit 'E')) ∧ digits ≠ [] then
    s.take 1 ++ sign ++ digits
  else []

def numberToken (s : Units) : Option Units :=
  let sign := signPart s
  let integer := integerPart (s.drop sign.length)
  if integer = [] then none
  else
    let s := (s.drop sign.length).drop integer.length
    let fraction := fractionPart s
    some (sign ++ integer ++ fraction ++ exponentPart (s.drop fraction.length))

/-- `^(?:0|[1-9][0-9]*)$`. -/
def isNatural (token : Units) : Bool := integerPart token == token && token != []

/-- `Number(token)`, of digits. -/
def numeral (token : Units) : Nat := token.foldl (fun n d => 10 * n + (d.toNat - 48)) 0

def number (c : Cursor) : Except ParseError (Value × Cursor) :=
  match numberToken c.rest with
  | none => throw (c.error "invalid number")
  | some token => do
      let next := c.skip token.length
      ensure (isNatural token = true ∧ numeral token ≤ maxSafeInteger)
        (next.error "expected safe unsigned integer")
      pure (.number (.natural (numeral token)), next)

/-! ### Values -/

def words : List (Units × Value) :=
  [("true".toList.map unit, .boolean true), ("false".toList.map unit, .boolean false),
    ("null".toList.map unit, .null)]

/-- A value that is no string and has no parts. -/
def scalar (c : Cursor) : Except ParseError (Value × Cursor) :=
  match words.find? fun word => word.1.isPrefixOf c.rest with
  | some (word, v) => pure (v, c.skip word.length)
  | none =>
      if c.peek = some (unit '-') ∨ (c.peek.any isDigit) = true then number c
      else throw (c.error "invalid value")

mutual

def value : Nat → Cursor → Except ParseError (Value × Cursor)
  | 0, _ => throw .exhausted
  | fuel + 1, c => do
      let c := c.space
      if c.peek = some (unit '\x22') then
        let (s, c) ← string c
        pure (.string s, c)
      else if c.peek = some (unit '\x7b') then
        let c := (c.skip 1).space
        if c.peek = some (unit '\x7d') then pure (.object [], c.skip 1)
        else
          let (ms, c) ← members fuel [] c
          pure (.object ms, c)
      else if c.peek = some (unit '[') then
        let c := (c.skip 1).space
        if c.peek = some (unit ']') then pure (.array [], c.skip 1)
        else
          let (vs, c) ← items fuel c
          pure (.array vs, c)
      else scalar c

/-- The loop over the members of an object; `seen` are the keys so far. -/
def members : Nat → List Units → Cursor → Except ParseError (List (Units × Value) × Cursor)
  | 0, _, _ => throw .exhausted
  | fuel + 1, seen, c => do
      let c := c.space
      ensure (c.peek = some (unit '\x22')) (c.error "expected object key")
      let (key, c) ← string c
      ensure (key ∉ seen) (c.error ("duplicate key " ++ String.ofList (Utf.decode key)))
      let c := c.space
      ensure (c.peek = some (unit ':')) ((c.skip 1).error "expected colon")
      let (v, c) ← value fuel (c.skip 1)
      let c := c.space
      if c.peek = some (unit '\x7d') then pure ([(key, v)], c.skip 1)
      else
        ensure (c.peek = some (unit ',')) ((c.skip 1).error "expected comma")
        let (ms, c) ← members fuel (key :: seen) (c.skip 1)
        pure ((key, v) :: ms, c)

def items : Nat → Cursor → Except ParseError (List Value × Cursor)
  | 0, _ => throw .exhausted
  | fuel + 1, c => do
      let (v, c) ← value fuel c
      let c := c.space
      if c.peek = some (unit ']') then pure ([v], c.skip 1)
      else
        ensure (c.peek = some (unit ',')) ((c.skip 1).error "expected comma")
        let (vs, c) ← items fuel (c.skip 1)
        pure (v :: vs, c)

end

def source : Input → Except ParseError Units
  | .string source => pure source
  | .bytes bytes => do
      ensure (bytes.take 3 ≠ [0xEF, 0xBB, 0xBF]) ParseError.leadingBom
      match Utf.decode8 bytes with
      | none => throw .undecodable
      | some cs => pure (Utf.utf16 cs)

def parseText (s : Units) : Except ParseError Value := do
  ensure (s.head? ≠ some 0xFEFF) ParseError.leadingBom
  let (v, c) ← value (2 * s.length + 2) ⟨0, s⟩
  ensure (c.space.rest = []) (c.space.error "trailing input")
  pure v

def parseJson (input : Input) : Except ParseError Value := do
  let s ← source input
  parseText s

end Baleyg.Contract
