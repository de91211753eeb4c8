/-
Framing and decoding of protocol messages.

A frame is a line of input, or a line that was too long, or the end of the input.  A line
is parsed as JSON and admitted as a request when it has the shape of one; its identifier,
when it has one, is a string or an integer that is exact, and two spellings of one
identifier have one key.
-/
import Mathlib.Algebra.BigOperators.Group.List.Basic
import Mathlib.Algebra.Order.Ring.Int
import Mathlib.Algebra.Order.Ring.Nat
import Baleyg.Lib.Fallible

namespace Baleyg.Mcp

open Fallible (ensure)

/-- A JSON value; a number is the text it was written with. -/
inductive Json where
  | null
  | bool (b : Bool)
  | num (text : String)
  | str (s : String)
  | arr (items : List Json)
  | obj (fields : List (String × Json))

namespace Json

abbrev Fields := List (String × Json)

def asObject? : Json → Option Fields
  | obj fields => some fields
  | _ => none

def asStr? : Json → Option String
  | str s => some s
  | _ => none

def asArray? : Json → Option (List Json)
  | arr items => some items
  | _ => none

def isObject (v : Json) : Bool := v.asObject?.isSome
def isString (v : Json) : Bool := v.asStr?.isSome
def isArray (v : Json) : Bool := v.asArray?.isSome

def isBoolean : Json → Bool
  | bool _ => true
  | _ => false

def get (fields : Fields) (k : String) : Option Json := (fields.find? fun f => f.1 = k).map Prod.snd

/-- `value["..."] = ...` of an object. -/
def set (value : Json) (k : String) (v : Json) : Json :=
  match value with
  | obj fields =>
      if fields.any (fun f => f.1 = k) then
        obj (fields.map fun f => if f.1 = k then (k, v) else f)
      else obj (fields ++ [(k, v)])
  | other => other

def id? (v : Json) : Option Json := v.asObject?.bind fun fields => get fields "id"

end Json

def requestBytes : Nat := 16384
def safeInteger : Nat := 9007199254740991

inductive Frame where
  | line (bytes : List UInt8)
  | oversized
  | eof

/-! ### Numbers -/

def digits (text : List Char) : Bool := text.all Char.isDigit

def number (text : List Char) : Nat :=
  text.foldl (fun n c => 10 * n + (c.toNat - '0'.toNat)) 0

/-- `split_once`; the second part is empty text when there is no separator. -/
def splitOnce (separator : Char → Bool) (text missing : List Char) : List Char × List Char :=
  match text.dropWhile fun c => !separator c with
  | [] => (text, missing)
  | _ :: rest => (text.takeWhile fun c => !separator c, rest)

/-- `parse` of a signed integer of so many bits. -/
def parseInteger (bits : Nat) (text : List Char) : Option Int :=
  let (negative, ds) := match text with
    | '-' :: ds => (true, ds)
    | '+' :: ds => (false, ds)
    | ds => (false, ds)
  if ds = [] ∨ digits ds = false then none
  else
    let value : Int := if negative then -number ds else number ds
    if -2 ^ (bits - 1) ≤ value ∧ value < 2 ^ (bits - 1) then some value else none

/-- The parts of a decimal number: its sign, its digits without leading zeros, how many of
them are fractional, and its exponent. -/
def decimalParts (raw : String) : Option (Bool × List Char × Nat × List Char) :=
  let (negative, text) := match raw.toList with
    | '-' :: text => (true, text)
    | text => (false, text)
  let (mantissa, exponent) := splitOnce (fun c => c = 'e' ∨ c = 'E') text ['0']
  let (integer, fraction) := splitOnce (fun c => c = '.') mantissa []
  if integer = [] ∨ digits integer = false ∨ digits fraction = false then none
  else some (negative, (integer ++ fraction).dropWhile (· = '0'), fraction.length, exponent)

def trailingZeros (significant : List Char) : Nat := (significant.reverse.takeWhile (· = '0')).length

/-- Exact integral spellings in the safe range, never through floating point. -/
def exactSafeInteger (raw : String) : Option Int := do
  let (negative, significant, fraction, exponent) ← decimalParts raw
  if significant = [] then return 0
  let scale := (← parseInteger 64 exponent) - fraction
  if scale < 0 ∧ trailingZeros significant < (-scale).toNat then none
  else
    let significant := significant.take (significant.length - (-scale).toNat)
    if 16 < significant.length + scale.toNat then none
    else
      let value := number significant * 10 ^ scale.toNat
      if value ≤ safeInteger then some (if negative then -value else value) else none

def exactJsonInteger (raw : String) : Bool :=
  match decimalParts raw with
  | none => false
  | some (_, significant, fraction, exponent) =>
      if significant = [] then true
      else
        match parseInteger 128 exponent with
        | none => exponent.head? ≠ some '-'
        | some exp => fraction ≤ exp + trailingZeros significant

/-! ### Identifiers -/

inductive IdKey where
  | string (s : String)
  | integer (n : Int)
  deriving DecidableEq, Repr

def IdKey.value : IdKey → Json
  | string s => .str s
  | integer n => .num (toString n)

/-- How long the compact spelling of a character is. -/
def compactCharLen (c : Char) : Nat :=
  if c ∈ ['\x22', '\\', '\x08', '\t', '\n', '\x0c', '\r'] then 2
  else if c.toNat ≤ 0x1f then 6
  else c.utf8Size

def compactStringTokenLen (s : String) : Nat := 2 + (s.toList.map compactCharLen).sum

/-! ### Requests -/

structure Request where
  id : Option Json
  key : Option IdKey
  method : String
  params : Option Json

structure ProtocolError where
  code : Int
  message : String
  id : Json
  data : Option Json

def ProtocolError.new (code : Int) (id : Json) : ProtocolError :=
  let message := match code with
    | -32700 => "Parse error"
    | -32600 => "Invalid Request"
    | -32601 => "Method not found"
    | -32602 => "Invalid params"
    | -32603 => "Internal error"
    | -32022 => "Unsupported protocol version"
    | _ => "Internal error"
  ⟨code, message, id, none⟩

def ProtocolError.response (e : ProtocolError) : Json :=
  let error := [("code", .num (toString e.code)), ("message", .str e.message)]
  let error := match e.data with
    | none => error
    | some data => error ++ [("data", data)]
  .obj [("jsonrpc", .str "2.0"), ("id", e.id), ("error", .obj error)]

/-- The identifier of a message and its key. -/
def decodeId (fields : Json.Fields) : Except ProtocolError (Option Json × Option IdKey) :=
  match Json.get fields "id" with
  | none => .ok (none, none)
  | some (.str s) =>
      if compactStringTokenLen s ≤ 256 then .ok (some (.str s), some (.string s))
      else .error (.new (-32600) .null)
  | some (.num text) =>
      match exactSafeInteger text with
      | none => .error (.new (-32600) .null)
      | some number => .ok (some (.num (toString number)), some (.integer number))
  | some _ => .error (.new (-32600) .null)

def decodeObject (fields : Json.Fields) : Except ProtocolError Request := do
  let (id, key) ← decodeId fields
  let invalid := ProtocolError.new (-32600) (id.getD .null)
  ensure ((Json.get fields "jsonrpc").bind Json.asStr? = some "2.0") invalid
  match (Json.get fields "method").bind Json.asStr? with
  | none => throw invalid
  | some method =>
      ensure ((Json.get fields "params").all (fun p => p.isObject || p.isArray) = true) invalid
      ensure (Json.get fields "result" matches none) invalid
      ensure (Json.get fields "error" matches none) invalid
      pure ⟨id, key, method, Json.get fields "params"⟩

/-- A line that was parsed, or could not be. -/
def decodeValue : Option Json → Except ProtocolError Request
  | none => .error (.new (-32700) .null)
  | some (.obj fields) => decodeObject fields
  | some _ => .error (.new (-32600) .null)

/-- `parse` is the JSON parser. -/
def decode (parse : List UInt8 → Option Json) : Frame → Except ProtocolError (Option Request)
  | .eof => .ok none
  | .oversized => .error (.new (-32600) .null)
  | .line bytes => (decodeValue (parse bytes)).map some

end Baleyg.Mcp
