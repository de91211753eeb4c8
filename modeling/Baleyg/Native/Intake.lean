/-
Identity inputs as they arrive: as JSON.

The registry takes any JSON value for an input and looks at it before it registers it.  Every
object must have exactly the fields of its kind, and what the fields hold is read by a derived
reader.  `Native.Identity` has the same checks of inputs that have their fields already; the two
agree on the JSON of such an input.
-/
import Baleyg.Lib.Lookup
import Baleyg.Lib.Utf
import Baleyg.Native.Identity

namespace Baleyg.Native

open Fallible (ensure bind_eq_ok ensure_eq_ok ensure_bind_eq_ok)

/-! ### Reading JSON -/

namespace Value

/-- `value[key]`, which is `null` where there is none. -/
def get (v : Value) (key : String) : Value :=
  match v with
  | .object members => (members.lookup key).getD .null
  | _ => .null

end Value

def exactKeys (v : Value) (expected : List String) : Except String Unit :=
  match v with
  | .object members =>
      ensure (members.length = expected.length ∧ ∀ key ∈ expected, (members.lookup key).isSome = true)
        "missing or unknown native ID input field"
  | _ => throw "native ID input is not an object"

def invalidType : String := "invalid type"

/-- `u64::MAX`. -/
def maxU64 : Nat := 18446744073709551615

def readString : Value → Except String String
  | .string s => pure s
  | _ => throw invalidType

def readBool : Value → Except String Bool
  | .bool b => pure b
  | _ => throw invalidType

def readU64 : Value → Except String Nat
  | .number n => do
      ensure (n ≤ maxU64) invalidType
      pure n
  | _ => throw invalidType

def readOption {α : Type} (read : Value → Except String α) : Value → Except String (Option α)
  | .null => pure none
  | v => do
      let a ← read v
      pure (some a)

def readList {α : Type} (read : Value → Except String α) : Value → Except String (List α)
  | .array items => items.mapM read
  | _ => throw invalidType

/-! ### Stable inputs -/

/-- `StableKey`, whose kind is any text. -/
structure StableKey where
  kind : String
  name : Option String
  signature : Option Signature
  ordinal : Nat
  deriving DecidableEq, Repr

/-- What `from_value` makes of an input of a declaration. -/
structure StableFields where
  sourceSet : String
  path : String
  language : String
  ancestors : List StableKey
  declaration : StableKey
  deriving DecidableEq, Repr

def readSignature (v : Value) : Except String Signature := do
  let parameterTypes ← readList readString (v.get "parameterTypes")
  let typeParameterCount ← readU64 (v.get "typeParameterCount")
  let variadic ← readBool (v.get "variadic")
  pure ⟨parameterTypes, typeParameterCount, variadic⟩

def readKey (v : Value) : Except String StableKey := do
  let kind ← readString (v.get "kind")
  let name ← readOption readString (v.get "name")
  let signature ← readOption readSignature (v.get "signature")
  let ordinal ← readU64 (v.get "ordinal")
  pure ⟨kind, name, signature, ordinal⟩

def readStable (v : Value) : Except String StableFields := do
  let sourceSet ← readString (v.get "sourceSet")
  let path ← readString (v.get "path")
  let language ← readString (v.get "language")
  let ancestors ← readList readKey (v.get "ancestors")
  let declaration ← readKey (v.get "declaration")
  pure ⟨sourceSet, path, language, ancestors, declaration⟩

def nativeKinds : List String :=
  ["module", "namespace", "type", "implementation", "function", "method", "constructor", "field",
    "variable", "parameter", "typeParameter", "alias", "anonymousFunction"]

def nativeLanguages : List String := ["java", "rust", "python", "javascript"]

def checkName : Option String → Except String Unit
  | some name => checkText name
  | none => pure ()

/-- `check_key`. -/
def StableKey.check (key : StableKey) (language : String) : Except String Unit := do
  ensure (key.kind ∈ nativeKinds) "unknown native kind"
  checkName key.name
  ensure (key.ordinal ≤ maxUInt) "native ordinal exceeds UInt"
  match key.signature with
  | some signature => do
      ensure (language = "java" ∧ key.kind ∈ ["method", "constructor"] ∧
        signature.typeParameterCount ≤ maxUInt) "invalid native Java signature"
      signature.parameterTypes.forM checkText
  | none =>
      ensure (language ≠ "java" ∨ key.kind ∉ ["method", "constructor"])
        "missing native Java signature"

def exactKey (key : Value) : Except String Unit := do
  exactKeys key ["kind", "name", "signature", "ordinal"]
  match key.get "signature" with
  | .null => pure ()
  | signature => exactKeys signature ["parameterTypes", "typeParameterCount", "variadic"]

/-- The loop over the ancestors and the declaration. -/
def exactKeysOf (ancestors declaration : Value) : Except String Unit :=
  match ancestors with
  | .array ancestors => (ancestors ++ [declaration]).forM exactKey
  | _ => throw "ancestors not an array"

def IdentityPath (path : List Char) : Prop :=
  path.head? ≠ some '/' ∧ '\x5c' ∉ path ∧ '\x00' ∉ path ∧
    ∀ part ∈ path.splitOn '/', part ≠ [] ∧ part ≠ ['.'] ∧ part ≠ ['.', '.']

instance (path : List Char) : Decidable (IdentityPath path) := by
  unfold IdentityPath
  infer_instance

def validateStable (v : Value) : Except String Unit := do
  exactKeys v ["sourceSet", "path", "language", "ancestors", "declaration"]
  exactKeysOf (v.get "ancestors") (v.get "declaration")
  let input ← readStable v
  checkText input.sourceSet
  ensure (IdentityPath input.path.toList) "invalid native identity path"
  ensure (input.language ∈ nativeLanguages) "invalid native identity language"
  (input.ancestors ++ [input.declaration]).forM fun key => key.check input.language

/-! ### Occurrence inputs -/

/-- What `from_value` makes of an input of an occurrence. -/
structure OccurrenceFields where
  contentHash : String
  extractionContext : String
  nativeProducerId : String
  nativeProducerVersion : String
  ownerSyntaxId : String
  kind : String
  ordinal : Nat
  deriving DecidableEq, Repr

def readOccurrence (v : Value) : Except String OccurrenceFields := do
  let contentHash ← readString (v.get "contentHash")
  let extractionContext ← readString (v.get "extractionContext")
  let nativeProducerId ← readString (v.get "nativeProducerId")
  let nativeProducerVersion ← readString (v.get "nativeProducerVersion")
  let ownerSyntaxId ← readString (v.get "ownerSyntaxId")
  let kind ← readString (v.get "kind")
  let ordinal ← readU64 (v.get "ordinal")
  pure ⟨contentHash, extractionContext, nativeProducerId, nativeProducerVersion, ownerSyntaxId,
    kind, ordinal⟩

def validateOccurrence (v : Value) : Except String Unit := do
  exactKeys v ["contentHash", "extractionContext", "nativeProducerId", "nativeProducerVersion",
    "ownerSyntaxId", "kind", "ordinal"]
  let input ← readOccurrence v
  checkHash input.contentHash
  checkHash input.extractionContext
  checkText input.nativeProducerId
  checkText input.nativeProducerVersion
  ensure (validSyntaxId input.ownerSyntaxId = true) "invalid occurrence owner SyntaxId"
  ensure (input.kind ∈ ["call", "control", "reference"] ∧ input.ordinal ≤ maxUInt)
    "invalid native occurrence input"

/-! ### The registry, of JSON -/

section Registry

variable (sha : Sha256)

namespace IdentityRegistry

/-- `stable`, of any JSON value. -/
def stableValue (r : IdentityRegistry) (input : Value) : Except String (String × IdentityRegistry) := do
  validateStable input
  r.register sha "trellis.syntax.v1\x00" input "sid:v1:"

/-- `occurrence`, of any JSON value. -/
def occurrenceValue (r : IdentityRegistry) (input : Value) :
    Except String (String × IdentityRegistry) := do
  validateOccurrence input
  r.register sha "trellis.occurrence.v2\x00" input "occ:v2:"

end IdentityRegistry

/-! ### The extraction context -/

/-- `a < b`, of the bytes of two components. -/
def componentLess (a b : String × String) : Bool :=
  !Utf.upTo (Utf.utf8 b.1.toList) (Utf.utf8 a.1.toList) ||
    (Utf.utf8 a.1.toList == Utf.utf8 b.1.toList &&
      !Utf.upTo (Utf.utf8 b.2.toList) (Utf.utf8 a.2.toList))

def contextInput (language : String) (components : List (String × String)) : Value :=
  .object [("language", .string language), ("components", .array (components.map fun c =>
    .object [("name", .string c.1), ("hash", .string c.2)]))]

/-- `extraction_context`. -/
def extractionContextOf (language : String) (components : List (String × String)) :
    Except String String := do
  ensure (language ∈ nativeLanguages) "invalid extraction-context language"
  components.forM fun c => do
    checkText c.1
    checkHash c.2
  ensure (∀ pair ∈ components.zip (components.drop 1), componentLess pair.1 pair.2 = true)
    "unsorted or duplicate extraction-context components"
  pure (sha.digest "trellis.extraction-context.v1\x00" (contextInput language components).canonical)

end Registry

end Baleyg.Native
