/-
The formats of the contract.

A format is data: what a value must be, written down once, and `walk` follows it through a value
and stops at the first thing that is not as it says, naming the path it went.  The formats here
are the inputs of the digests and what they are made of.
-/
import Baleyg.Contract.Parse
import Baleyg.Native.Identity

namespace Baleyg.Contract

open Fallible (ensure)

inductive Spec where
  | text
  | uint
  | boolean
  | hash
  | syntaxId
  | path
  | nullable (spec : Spec)
  | enum (values : List String)
  | array (item : Spec)
  | object (fields : List (String × Spec))

structure FormatError where
  field : Units
  message : String
  deriving DecidableEq, Repr

/-! ### Scalars -/

/-- `[a-f0-9]`. -/
def isLowerHex (u : UInt16) : Bool :=
  (unit '0' ≤ u && u ≤ unit '9') || (unit 'a' ≤ u && u ≤ unit 'f')

/-- `scalar`: a text that is not empty. -/
def isText (s : Units) : Bool := !s.isEmpty && validString s

/-- `^[a-f0-9]{64}$`. -/
def isHash (s : Units) : Bool := s.length == 64 && s.all isLowerHex

/-- `^sid:v1:[a-f0-9]{32}$`. -/
def isSyntaxId (s : Units) : Bool :=
  s.take 7 == unitsOf "sid:v1:" && (s.drop 7).length == 32 && (s.drop 7).all isLowerHex

def IsPath (s : Units) : Prop :=
  isText s = true ∧ unit '\x5c' ∉ s ∧ unit '\x00' ∉ s ∧ s.head? ≠ some (unit '/') ∧
    ∀ part ∈ s.splitOn (unit '/'),
      part ≠ [] ∧ part ≠ [unit '.'] ∧ part ≠ [unit '.', unit '.']

instance (s : Units) : Decidable (IsPath s) := by
  unfold IsPath
  infer_instance

/-! ### Walking a value -/

def atKey (path key : Units) : Units := path ++ unit '.' :: key

def atIndex (path : Units) (i : Nat) : Units := path ++ unit '[' :: (decimal i ++ [unit ']'])

def fail {α : Type} (path : Units) (message : String) : Except FormatError α :=
  throw ⟨path, message⟩

def walkItems (walk : Value → Units → Except FormatError Unit) (path : Units) :
    Nat → List Value → Except FormatError Unit
  | _, [] => pure ()
  | i, .hole :: _ => fail (atIndex path i) "sparse array element"
  | i, item :: items => do
      walk item (atIndex path i)
      walkItems walk path (i + 1) items

mutual

def walk : Spec → Value → Units → Except FormatError Unit
  | .text, v, path =>
      match v with
      | .string s => ensure (isText s = true) (FormatError.mk path "expected text")
      | _ => fail path "expected text"
  | .uint, v, path =>
      match v with
      | .number (.natural n) => ensure (n ≤ maxSafeInteger) (FormatError.mk path "expected uint")
      | _ => fail path "expected uint"
  | .boolean, v, path =>
      match v with
      | .boolean _ => pure ()
      | _ => fail path "expected boolean"
  | .hash, v, path =>
      match v with
      | .string s => ensure (isHash s = true) (FormatError.mk path "expected hash")
      | _ => fail path "expected hash"
  | .syntaxId, v, path =>
      match v with
      | .string s => ensure (isSyntaxId s = true) (FormatError.mk path "expected syntaxId")
      | _ => fail path "expected syntaxId"
  | .path, v, path =>
      match v with
      | .string s => ensure (IsPath s) (FormatError.mk path "expected path")
      | _ => fail path "expected path"
  | .nullable spec, v, path =>
      match v with
      | .null => pure ()
      | v => walk spec v path
  | .enum values, v, path =>
      match v with
      | .string s =>
          ensure (s ∈ values.map unitsOf) (FormatError.mk path ("expected one of " ++ ", ".intercalate values))
      | _ => fail path ("expected one of " ++ ", ".intercalate values)
  | .array item, v, path =>
      match v with
      | .array items => walkItems (walk item) path 0 items
      | _ => fail path "expected array"
  | .object fields, v, path =>
      match v with
      | .object members => do
          (fields.map Prod.fst).forM fun key =>
            ensure ((members.lookup (unitsOf key)).isSome = true)
              (FormatError.mk (atKey path (unitsOf key)) "missing required field")
          members.forM fun m =>
            ensure (m.1 ∈ fields.map fun field => unitsOf field.1)
              (FormatError.mk (atKey path m.1) "unknown field")
          walkFields fields members path
      | _ => fail path "expected object"

def walkFields : List (String × Spec) → List (Units × Value) → Units → Except FormatError Unit
  | [], _, _ => pure ()
  | (key, spec) :: fields, members, path => do
      walk spec ((members.lookup (unitsOf key)).getD .foreign) (atKey path (unitsOf key))
      walkFields fields members path

end

/-! ### The inputs of the digests -/

def languageFormat : Spec := .enum ["java", "rust", "python", "javascript"]

def kindFormat : Spec := .enum
  ["module", "namespace", "type", "implementation", "function", "method", "constructor", "field",
    "variable", "parameter", "typeParameter", "alias", "anonymousFunction"]

/-- `Signature`. -/
def signatureFormat : Spec := .object
  [("parameterTypes", .array .text), ("typeParameterCount", .uint), ("variadic", .boolean)]

/-- `Key`. -/
def keyFormat : Spec := .object
  [("kind", kindFormat), ("name", .nullable .text), ("signature", .nullable signatureFormat),
    ("ordinal", .uint)]

def syntaxDigestInput : Spec := .object
  [("sourceSet", .text), ("path", .path), ("language", languageFormat),
    ("ancestors", .array keyFormat), ("declaration", keyFormat)]

/-- `ExtractionContextComponent`. -/
def componentFormat : Spec := .object [("name", .text), ("hash", .hash)]

def extractionContextInput : Spec := .object
  [("language", languageFormat), ("components", .array componentFormat)]

def occurrenceDigestInput : Spec := .object
  [("contentHash", .hash), ("extractionContext", .hash), ("nativeProducerId", .text),
    ("nativeProducerVersion", .text), ("ownerSyntaxId", .syntaxId),
    ("kind", .enum ["call", "reference", "control"]), ("ordinal", .uint)]

/-! ### Digests -/

/-- SHA-256 of bytes, in hex. -/
structure Hasher where
  hex : List UInt8 → String
  hex_valid : ∀ bytes, Native.validHash (hex bytes) = true

inductive DigestError where
  | format (error : FormatError)
  | components
  | canonical (message : String)
  deriving DecidableEq, Repr

inductive DigestKind where
  | ofDeclaration
  | ofOccurrence
  | ofExtractionContext
  deriving DecidableEq, Repr

namespace DigestKind

/-- `domains`. -/
def domain : DigestKind → String
  | ofDeclaration => "trellis.syntax.v1\x00"
  | ofOccurrence => "trellis.occurrence.v2\x00"
  | ofExtractionContext => "trellis.extraction-context.v1\x00"

/-- `shapes`. -/
def shape : DigestKind → Spec
  | ofDeclaration => syntaxDigestInput
  | ofOccurrence => occurrenceDigestInput
  | ofExtractionContext => extractionContextInput

def shapeName : DigestKind → String
  | ofDeclaration => "SyntaxDigestInput"
  | ofOccurrence => "OccurrenceDigestInput"
  | ofExtractionContext => "ExtractionContextInput"

end DigestKind

/-- `value[key]`, of a value that has it. -/
def property (v : Value) (key : String) : Value :=
  match v with
  | .object members => (members.lookup (unitsOf key)).getD .foreign
  | _ => .foreign

def stringBytes : Value → List UInt8
  | .string s => bufferFrom s
  | _ => []

/-- `order < 0`, of two components. -/
def componentBefore (a b : Value) : Bool :=
  let name := fun v => stringBytes (property v "name")
  let hash := fun v => stringBytes (property v "hash")
  !Utf.upTo (name b) (name a) || (name a == name b && !Utf.upTo (hash b) (hash a))

def checkComponents (components : Value) : Except DigestError Unit :=
  match components with
  | .array items =>
      ensure (∀ pair ∈ items.zip (items.drop 1), componentBefore pair.1 pair.2 = true)
        DigestError.components
  | _ => pure ()

def digest (sha : Hasher) (kind : DigestKind) (input : Value) : Except DigestError String := do
  (walk kind.shape input (unitsOf kind.shapeName)).mapError DigestError.format
  if kind = .ofExtractionContext then checkComponents (property input "components")
  let bytes ← (canonicalBytes input).mapError DigestError.canonical
  pure (sha.hex (Utf.utf8 kind.domain.toList ++ bytes))

def shortened (lead hash : String) : String := lead ++ String.ofList (hash.toList.take 32)

def syntaxId (sha : Hasher) (input : Value) : Except DigestError String :=
  (digest sha .ofDeclaration input).map (shortened "sid:v1:")

def occurrenceId (sha : Hasher) (input : Value) : Except DigestError String :=
  (digest sha .ofOccurrence input).map (shortened "occ:v2:")

def extractionContext (sha : Hasher) (input : Value) : Except DigestError String :=
  digest sha .ofExtractionContext input

end Baleyg.Contract
