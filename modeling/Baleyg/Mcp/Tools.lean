/-
The tools, as far as the protocol goes.

A tool call is refused for its arguments before the workspace is looked at.  What is left is
answered from what is known of the workspace without its index: a description, or a failure.  Every
answer is an envelope, and a result holds its envelope twice, as a value and as the text of it.
-/
import Baleyg.Mcp.Encoding
import Baleyg.Mcp.Session

namespace Baleyg.Mcp

open Fallible (ensure)
open Json (Fields)

def utf8Length (s : String) : Nat := Json.weigh Char.utf8Size s.toList

/-! ### Failures -/

inductive Code where
  | invalidRequest
  | rangeTooLarge
  | unsupportedEncoding
  | revisionConflict
  | indexNotReady
  | notFound
  | tooManyRequests
  | deadlineExceeded
  | rootChanged
  | storeUnavailable
  | checkoutCapacity
  | daemonUnavailable
  | outcomeUnknown
  | workspaceSelectionFailed
  | registrationConflict
  deriving DecidableEq, Repr

def Code.text : Code → String
  | invalidRequest => "invalid_request"
  | rangeTooLarge => "range_too_large"
  | unsupportedEncoding => "unsupported_encoding"
  | revisionConflict => "revision_conflict"
  | indexNotReady => "index_not_ready"
  | notFound => "not_found"
  | tooManyRequests => "too_many_requests"
  | deadlineExceeded => "deadline_exceeded"
  | rootChanged => "root_changed"
  | storeUnavailable => "store_unavailable"
  | checkoutCapacity => "checkout_capacity"
  | daemonUnavailable => "daemon_unavailable"
  | outcomeUnknown => "outcome_unknown"
  | workspaceSelectionFailed => "workspace_selection_failed"
  | registrationConflict => "registration_conflict"

/-- `details`: the message of a code, and whether it may be tried again. -/
def details : Code → String × Bool
  | .invalidRequest => ("Invalid tool arguments", false)
  | .rangeTooLarge => ("Requested range is too large", false)
  | .unsupportedEncoding => ("Unsupported source encoding", false)
  | .revisionConflict => ("Revision conflict", false)
  | .indexNotReady => ("Index is not ready", true)
  | .notFound => ("Not found", false)
  | .tooManyRequests => ("Too many requests", true)
  | .deadlineExceeded => ("Deadline exceeded", true)
  | .rootChanged => ("Workspace root changed", false)
  | .storeUnavailable => ("Store is unavailable", false)
  | .checkoutCapacity => ("Checkout capacity reached", true)
  | .daemonUnavailable => ("Daemon is unavailable", true)
  | .outcomeUnknown => ("Outcome unknown; inspect request status", false)
  | .workspaceSelectionFailed | .registrationConflict => ("Store is unavailable", false)

inductive SelectionError where
  | notAbsolute
  | notCheckout
  | differentRepository
  | identityChanged
  | unavailable
  | checkoutCapacity
  | registrationConflict
  deriving DecidableEq, Repr

namespace SelectionError

def code : SelectionError → Code
  | checkoutCapacity => .checkoutCapacity
  | registrationConflict => .registrationConflict
  | _ => .workspaceSelectionFailed

def reason : SelectionError → String
  | notAbsolute => "not_absolute"
  | notCheckout => "not_checkout"
  | differentRepository => "different_repository"
  | identityChanged => "identity_changed"
  | unavailable => "unavailable"
  | checkoutCapacity => "checkout_capacity"
  | registrationConflict => "registration_conflict"

def retryable : SelectionError → Bool
  | unavailable | checkoutCapacity => true
  | _ => false

end SelectionError

/-! ### Arguments -/

def bytesOf (s : String) : List UInt8 := s.toUTF8.toList

def isLowerHexByte (x : UInt8) : Bool := (48 ≤ x && x ≤ 57) || (97 ≤ x && x ≤ 102)

def closed (o : Fields) (fields required : List String) : Bool :=
  only o fields && required.all fun k => (Json.get o k).isSome

/-- `string` of a field. -/
def stringField (o : Fields) (k : String) : Option String := (Json.get o k).bind Json.asStr?

def uint : Json → Option Nat
  | .num text => (exactSafeInteger text).bind fun n => if 0 ≤ n then some n.toNat else none
  | _ => none

def validUuid (s : String) : Bool :=
  let b := bytesOf s
  let dashes := [8, 13, 18, 23]
  b.length == 36 && (dashes.all fun i => b.getD i 0 == 45) &&
    (b.zipIdx.all fun x => dashes.contains x.2 || isLowerHexByte x.1) &&
    b.zipIdx.any fun x => !dashes.contains x.2 && x.1 != 48

/-- `hash`. -/
def validHashText (s : String) : Bool := utf8Length s == 64 && (bytesOf s).all isLowerHexByte

def basis (v : Json) : Bool :=
  v.asObject?.any fun o =>
    closed o ["indexGeneration", "indexRevision"] ["indexGeneration", "indexRevision"] &&
      (stringField o "indexGeneration").any validUuid &&
      ((Json.get o "indexRevision").bind uint).isSome

def expectedBasis (o : Fields) : Bool := (Json.get o "expectedBasis").all basis

/-- `limit`. -/
def limitField (o : Fields) : Except Code Unit :=
  match Json.get o "limit" with
  | none => .ok ()
  | some v =>
      match uint v with
      | none => .error .invalidRequest
      | some n => if 1 ≤ n ∧ n ≤ 50 then .ok () else .error .rangeTooLarge

def validPath (s : String) : Bool :=
  s.toList != [] && utf8Length s ≤ 4096 && s.toList.head? != some '/' &&
    (s.toList.all fun c => c ∉ ['\\', ':', '\x00']) &&
    (s.toList.splitOn '/').all fun part =>
      !(part == [] || part == ['.'] || part == ['.', '.'])

def fieldsOf (name : String) : List String × List String :=
  if name = "trellis_workspace_describe" then (["schemaVersion", "workspace"], ["schemaVersion"])
  else if name = "trellis_find_symbols" then
    (["schemaVersion", "query", "limit", "expectedBasis", "workspace"], ["schemaVersion", "query"])
  else if name = "trellis_inspect" then
    (["schemaVersion", "symbolId", "view", "limit", "expectedBasis", "workspace"],
      ["schemaVersion", "symbolId", "view"])
  else
    (["schemaVersion", "path", "startLine", "endLine", "expectedBasis", "expectedContentHash",
        "workspace"],
      ["schemaVersion", "path", "startLine", "endLine"])

/-- The arguments of `trellis_find_symbols`. -/
def validateFind (o : Fields) : Except Code Unit := do
  match stringField o "query" with
  | none => throw .invalidRequest
  | some q =>
      ensure (q.toList ≠ [] ∧ utf8Length q ≤ 256) Code.invalidRequest
      limitField o

/-- The arguments of `trellis_inspect`. -/
def validateInspect (o : Fields) : Except Code Unit := do
  match stringField o "symbolId" with
  | none => throw .invalidRequest
  | some sid =>
      ensure (utf8Length sid ≤ 8192 ∧ utf8Length sid = 39 ∧
        sid.toList.take 7 = "sid:v1:".toList ∧
        ((bytesOf sid).drop 7).all isLowerHexByte = true) Code.invalidRequest
      match stringField o "view" with
      | some "declaration" =>
          ensure ((Json.get o "limit").isNone = true) Code.invalidRequest
      | some "outgoing_calls" => limitField o
      | _ => throw .invalidRequest

/-- The arguments of `trellis_read_source`. -/
def validateRead (o : Fields) : Except Code Unit := do
  match stringField o "path" with
  | none => throw .invalidRequest
  | some path =>
      ensure (validPath path = true ∧
        (Json.get o "expectedContentHash").all (fun v => v.asStr?.any validHashText) = true)
        Code.invalidRequest
      match (Json.get o "startLine").bind uint, (Json.get o "endLine").bind uint with
      | some first, some last =>
          ensure (first ≠ 0 ∧ last ≠ 0 ∧ first ≤ last) Code.invalidRequest
          ensure (last - first < 200) Code.rangeTooLarge
      | _, _ => throw .invalidRequest

/-- A `workspace` that is no path, or too long for one. -/
def workspaceInvalid (v : Json) : Bool := v.asStr?.all fun path => 4096 < utf8Length path

/-- `validate`. -/
def validateTool (name : String) (args : Option Json) : Except Code Unit := do
  ensure (known name = true) Code.invalidRequest
  match args.bind Json.asObject? with
  | none => throw .invalidRequest
  | some o =>
      ensure (closed o (fieldsOf name).1 (fieldsOf name).2 = true ∧
        (Json.get o "schemaVersion").bind uint = some 1 ∧ expectedBasis o = true)
        Code.invalidRequest
      if name = "trellis_workspace_describe" then pure ()
      else if name = "trellis_find_symbols" then validateFind o
      else if name = "trellis_inspect" then validateInspect o
      else validateRead o
      ensure ((Json.get o "workspace").any workspaceInvalid = false) Code.invalidRequest

/-! ### Envelopes -/

def failure (id : Json) (code : Code) : Json :=
  .obj [("schemaVersion", .num "1"), ("requestId", id),
    ("error", .obj [("code", .str code.text), ("message", .str (details code).1),
      ("retryable", .bool (details code).2), ("currentBasis", .null),
      ("currentContentHash", .null)])]

def describe (id : Json) (label : String) : Json :=
  .obj [("schemaVersion", .num "1"), ("requestId", id), ("evidenceBasis", .null),
    ("data", .obj [("workspaceLabel", .str label), ("indexState", .str "unavailable"),
      ("progress", .null), ("watcherDegraded", .bool false), ("languages", .arr []),
      ("toolVersion", .num "1"), ("schemaVersion", .num "1"),
      ("limits", .obj [("requestBytes", .num "16384"), ("responseBytes", .num "65536"),
        ("sourceBytes", .num "16384"), ("sourceLines", .num "200"), ("defaultLimit", .num "20"),
        ("maxLimit", .num "50"), ("calleeTextBytes", .num "1024"), ("hintWorkMs", .num "1000"),
        ("deadlineMs", .num "5000"), ("concurrency", .num "4")])]),
    ("warnings", .arr []), ("partial", .bool true), ("truncated", .bool false),
    ("truncationReason", .null)]

/-- The longest beginning of a text that has at most so many bytes. -/
def clip : Nat → List Char → List Char
  | _, [] => []
  | room, c :: rest => if c.utf8Size ≤ room then c :: clip (room - c.utf8Size) rest else []

def jsonType : Json → String
  | .null => "null"
  | .bool _ => "boolean"
  | .num _ => "number"
  | .arr _ => "array"
  | .obj _ => "object"
  | .str _ => "string"

def attempted (value : Json) : Json :=
  match value with
  | .str path =>
      let kept := String.ofList (clip 256 path.toList)
      .obj [("kind", .str "path"), ("value", .str kept),
        ("utf8Bytes", .num (toString (utf8Length path))),
        ("truncated", .bool (utf8Length kept < utf8Length path))]
  | other => .obj [("kind", .str "invalid_type"), ("jsonType", .str (jsonType other))]

/-- `envelope["error"][k] = v`. -/
def setError (envelope : Json) (k : String) (v : Json) : Json :=
  match envelope.asObject?.bind fun fields => Json.get fields "error" with
  | some error => envelope.set "error" (error.set k v)
  | none => envelope

def selectionFailure (id : Json) (error : SelectionError) (value : Json) : Json :=
  let envelope := failure id error.code
  let envelope := setError envelope "message" (.str "Workspace selection failed")
  let envelope := setError envelope "retryable" (.bool error.retryable)
  let envelope := setError envelope "reason" (.str error.reason)
  setError envelope "attemptedWorkspace" (attempted value)

def attributedRoot (envelope : Json) (root : String) (catchingUp : Bool) : Json :=
  (envelope.set "workspace" (.str root)).set "catchingUp" (.bool catchingUp)

/-- `result`. -/
def toolResult (envelope : Json) (modern : Bool) : Json :=
  let failed := (envelope.asObject?.bind fun fields => Json.get fields "error").isSome
  let value : Json := .obj [("isError", .bool failed), ("structuredContent", envelope),
    ("content", .arr [.obj [("type", .str "text"),
      ("text", .str (String.ofList envelope.encode))]])]
  if modern then value.set "resultType" (.str "complete") else value

def resolvedRootChanged (id : Json) (root : String) (catchingUp modern : Bool) : Json :=
  toolResult (attributedRoot (failure id .rootChanged) root catchingUp) modern

/-! ### A call -/

/-- A workspace that was opened: its root is a path the tools admit, and its label the name of a
directory. -/
structure OpenedWorkspace where
  root : String
  label : String
  root_fits : utf8Length root ≤ 4096
  label_fits : utf8Length label ≤ 255

inductive IdentityError where
  | rootChanged
  | storeUnavailable

/-- `identity_error`. -/
def IdentityError.code : IdentityError → Code
  | rootChanged => .rootChanged
  | storeUnavailable => .storeUnavailable

structure PreparedTool where
  response : Json
  validArguments : Bool
  id : Json
  modern : Bool
  answered : Bool

/-- The `workspace` that made otherwise valid arguments invalid. -/
def invalidWorkspace (name : String) (args : Option Json) : Option Json := do
  let object ← args.bind Json.asObject?
  let value ← Json.get object "workspace"
  if workspaceInvalid value then
    match validateTool name (some (.obj (object.filter fun f => f.1 ≠ "workspace"))) with
    | .ok _ => some value
    | .error _ => none
  else none

def refusal (name : String) (args : Option Json) (id : Json) (code : Code) : Json :=
  match invalidWorkspace name args with
  | some value => setError (failure id code) "attemptedWorkspace" (attempted value)
  | none => failure id code

/-- The envelope of a valid call; `check` is the last look at the workspace. -/
def answer (name : String) (id : Json) (workspace : OpenedWorkspace)
    (check : Except IdentityError Unit) : Json :=
  attributedRoot
    (match check with
      | .error e => failure id e.code
      | .ok _ =>
          if name = "trellis_workspace_describe" then describe id workspace.label
          else failure id .indexNotReady)
    workspace.root false

/-- `prepare`. -/
def prepareTool (name : String) (args : Option Json) (id : Json) (modern : Bool)
    (workspace : OpenedWorkspace) (check : Except IdentityError Unit) : PreparedTool :=
  match validateTool name args with
  | .error code => ⟨toolResult (refusal name args id code) modern, false, id, modern, false⟩
  | .ok _ => ⟨toolResult (answer name id workspace check) modern, true, id, modern, true⟩

/-! ### The catalog -/

def discover (version : String) : Json :=
  .obj [("resultType", .str "complete"), ("ttlMs", .num "0"), ("cacheScope", .str "private"),
    ("supportedVersions", .arr [.str "2026-07-28", .str "2025-11-25"]),
    ("capabilities", .obj [("tools", .obj [])]),
    ("_meta", .obj [("io.modelcontextprotocol/serverInfo",
      .obj [("name", .str "trellis"), ("version", .str version)])])]

/-- `initialize`. -/
def initialized (version : String) : Json :=
  .obj [("protocolVersion", .str "2025-11-25"), ("capabilities", .obj [("tools", .obj [])]),
    ("serverInfo", .obj [("name", .str "trellis"), ("version", .str version)])]

/-- `list`; `entries` is the static catalog. -/
def listTools (entries : List Json) (modern : Bool) : Json :=
  if modern then
    .obj [("resultType", .str "complete"), ("ttlMs", .num "0"), ("cacheScope", .str "private"),
      ("tools", .arr entries)]
  else .obj [("tools", .arr entries)]

end Baleyg.Mcp
