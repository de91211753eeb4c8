/-
The reducer of one connection.

A session knows in which mode the connection is, which requests it has admitted and not
answered yet, and the last token it gave out.  A request is admitted under its key and
gets a token of its own, and only the token finishes it: a completion is prepared and
committed by token, whatever requests have used the same identifier since.  Validation
comes first, so only a request that is admitted changes the mode.
-/
import Baleyg.Lib.Register
import Baleyg.Mcp.Wire

namespace Baleyg.Mcp

open Fallible (ensure)
open Json (Fields)

inductive Mode where
  | unselected
  | modern
  | legacyAwaitInitialized
  | legacyReady
  deriving DecidableEq, Repr

/-- What a request asks for; `call` is a tool call. -/
inductive Action where
  | discover
  | initialization
  | list
  | call (name : String) (arguments : Option Json)
  | unknown

structure Admission where
  token : Nat
  id : Json
  action : Action

structure Prepared where
  token : Nat
  response : Json

inductive Event where
  | ignore
  | error (e : ProtocolError)
  | admitted (a : Admission)

/-- A pending request and the key it is looked up by. -/
structure Pending where
  key : IdKey
  admission : Admission

structure Session where
  mode : Mode
  nextToken : Nat
  pending : List Pending

/-! ### Validation of parameters -/

section Validation

-- `isUrl` is the URL parser, asked whether it accepts a text
variable (isUrl : String → Bool)

abbrev FieldValidator := String × (Json → Bool)

def only (fields : Fields) (keys : List String) : Bool := fields.all fun f => f.1 ∈ keys

/-- Every field that is recognized passes its check. -/
def recognized (fields : Fields) (keys : List FieldValidator) : Bool :=
  fields.all fun f => (keys.find? fun k => f.1 = k.1).all fun k => k.2 f.2

def objectWith (keys : List FieldValidator) (v : Json) : Bool :=
  v.asObject?.any fun fields => recognized fields keys

def objectValues (v : Json) : Bool :=
  v.asObject?.any fun fields => fields.all fun f => f.2.isObject

def rootsLegacy : Json → Bool := objectWith [("listChanged", Json.isBoolean)]

def sampling : Json → Bool := objectWith [("context", Json.isObject), ("tools", Json.isObject)]

def elicitation : Json → Bool := objectWith [("form", Json.isObject), ("url", Json.isObject)]

def taskElicitation : Json → Bool := objectWith [("create", Json.isObject)]

def taskSampling : Json → Bool := objectWith [("createMessage", Json.isObject)]

def taskRequests : Json → Bool :=
  objectWith [("elicitation", taskElicitation), ("sampling", taskSampling)]

def tasks : Json → Bool :=
  objectWith [("cancel", Json.isObject), ("list", Json.isObject), ("requests", taskRequests)]

def capabilities (modern : Bool) (v : Json) : Bool :=
  let fields : List FieldValidator :=
    [("elicitation", elicitation), ("experimental", objectValues), ("sampling", sampling)]
  objectWith
    (fields ++ if modern then [("roots", Json.isObject), ("extensions", objectValues)]
      else [("roots", rootsLegacy), ("tasks", tasks)]) v

def uri (v : Json) : Bool := v.asStr?.any isUrl

def strArray (v : Json) : Bool := v.asArray?.any fun items => items.all Json.isString

def theme (v : Json) : Bool := v.asStr?.any fun s => s = "dark" ∨ s = "light"

def icon (v : Json) : Bool :=
  v.asObject?.any fun fields =>
    (Json.get fields "src").any (uri isUrl) &&
      recognized fields [("src", uri isUrl), ("mimeType", Json.isString), ("sizes", strArray),
        ("theme", theme)]

def icons (v : Json) : Bool := v.asArray?.any fun items => items.all (icon isUrl)

def clientInfo (v : Json) : Bool :=
  v.asObject?.any fun fields =>
    (Json.get fields "name").any Json.isString && (Json.get fields "version").any Json.isString &&
      recognized fields [("name", Json.isString), ("version", Json.isString),
        ("title", Json.isString), ("description", Json.isString), ("websiteUrl", uri isUrl),
        ("icons", icons isUrl)]

def legacyMeta : Json → Bool :=
  objectWith [("progressToken", fun
    | .str _ => true
    | .num text => exactJsonInteger text
    | _ => false)]

def legacyInitialize (params : Option Json) : Bool :=
  (params.bind Json.asObject?).any fun fields =>
    (Json.get fields "protocolVersion").any Json.isString &&
      (Json.get fields "capabilities").any (capabilities false) &&
      (Json.get fields "clientInfo").any (clientInfo isUrl) &&
      recognized fields [("protocolVersion", Json.isString), ("capabilities", capabilities false),
        ("clientInfo", clientInfo isUrl), ("_meta", legacyMeta)]

/-- `.error (some version)` is a well-typed but unsupported revision. -/
def modernMetadata (params : Option Json) : Except (Option String) Unit :=
  match (params.bind Json.asObject?).bind fun fields =>
      (Json.get fields "_meta").bind Json.asObject? with
  | none => .error none
  | some metadata =>
      match (Json.get metadata "io.modelcontextprotocol/protocolVersion").bind Json.asStr? with
      | none => .error none
      | some version =>
          if ¬ (Json.get metadata "io.modelcontextprotocol/clientCapabilities").any
                (capabilities true) = true ∨
              ¬ (Json.get metadata "io.modelcontextprotocol/clientInfo").all
                (clientInfo isUrl) = true then
            .error none
          else if version ≠ "2026-07-28" then .error (some version)
          else .ok ()

end Validation

def known (name : String) : Bool :=
  name ∈ ["trellis_workspace_describe", "trellis_find_symbols", "trellis_inspect",
    "trellis_read_source"]

def keyFor : Json → Option IdKey
  | .str s => if compactStringTokenLen s ≤ 256 then some (.string s) else none
  | .num text => (exactSafeInteger text).map .integer
  | _ => none

namespace Session

def new : Session := ⟨.unselected, 0, []⟩

def pendingOf (s : Session) (token : Nat) : Option Pending :=
  s.pending.find? fun p => p.admission.token = token

def eof (s : Session) : Session := { s with pending := [] }

def cancel (s : Session) (id : Json) : Session :=
  match keyFor id with
  | none => s
  | some key => { s with pending := Register.remove Pending.key key s.pending }

variable (isUrl : String → Bool)

/-- The metadata of a request outside legacy mode. -/
def checkModern (params : Option Json) (id : Json) : Except ProtocolError Unit :=
  match modernMetadata isUrl params with
  | .ok _ => .ok ()
  | .error none => .error (.new (-32602) id)
  | .error (some requested) =>
      .error { ProtocolError.new (-32022) id with
        data := some (.obj [("supported", .arr [.str "2026-07-28", .str "2025-11-25"]),
          ("requested", .str requested)]) }

/-- A tool call, in the parameters it may have. -/
def checkCall (modern : Bool) (params : Option Json) (id : Json) : Except ProtocolError Action := do
  match params.bind Json.asObject? with
  | none => throw (.new (-32602) id)
  | some fields =>
      let allowed := if modern then ["name", "arguments", "_meta"] else ["name", "arguments"]
      ensure (only fields allowed = true) (ProtocolError.new (-32602) id)
      match (Json.get fields "name").bind Json.asStr? with
      | none => throw (.new (-32602) id)
      | some name =>
          ensure (known name = true) (ProtocolError.new (-32602) id)
          pure (.call name (Json.get fields "arguments"))

def actionOf (modern : Bool) (method : String) (params : Option Json) (id : Json) :
    Except ProtocolError Action :=
  let metaOnly := (params.bind Json.asObject?).any fun fields => only fields ["_meta"]
  let empty := params.all fun p => p.asObject?.any List.isEmpty
  if method = "server/discover" ∧ modern = true ∧ metaOnly = true then .ok .discover
  else if method = "tools/list" ∧ modern = true ∧ metaOnly = true then .ok .list
  else if method = "tools/list" ∧ modern = false ∧ empty = true then .ok .list
  else if method = "tools/call" then checkCall modern params id
  else if method = "server/discover" ∨ method = "tools/list" then .error (.new (-32602) id)
  else .ok .unknown

def validate (s : Session) (method : String) (params : Option Json) (id : Json) :
    Except ProtocolError (Mode × Action) := do
  if method = "initialize" then
    ensure (s.mode = .unselected) (ProtocolError.new (-32600) id)
    ensure (legacyInitialize isUrl params = true) (ProtocolError.new (-32602) id)
    pure (.legacyAwaitInitialized, .initialization)
  else
    ensure (s.mode ≠ .legacyAwaitInitialized) (ProtocolError.new (-32600) id)
    if s.mode ≠ .legacyReady then
      checkModern isUrl params id
      let action ← actionOf true method params id
      pure (.modern, action)
    else
      ensure (¬ (method = "server/discover" ∨
          (params.bind Json.asObject?).any (fun fields => (Json.get fields "_meta").isSome) = true))
        (ProtocolError.new (-32600) id)
      let action ← actionOf false method params id
      pure (.legacyReady, action)

def notify (s : Session) (method : String) (params : Option Json) : Session :=
  if method = "notifications/cancelled" then
    match params.bind Json.asObject? with
    | none => s
    | some fields =>
        if only fields ["requestId", "reason"] = true ∧
            (Json.get fields "reason").all Json.isString = true then
          match Json.get fields "requestId" with
          | none => s
          | some id => s.cancel id
        else s
  else if method = "notifications/initialized" ∧ s.mode = .legacyAwaitInitialized ∧
      params.all (fun p => p.asObject?.any List.isEmpty) = true then
    { s with mode := .legacyReady }
  else s

/-- A request that has a key, whose identifier is `id`. -/
def request (s : Session) (key : IdKey) (id : Json) (method : String) (params : Option Json) :
    Event × Session :=
  if s.pending.any (fun p => p.key = key) then (.error (.new (-32600) id), s)
  else
    match s.validate isUrl method params id with
    | .error e => (.error e, s)
    | .ok (target, action) =>
        -- tokens are 64-bit numbers
        if 2 ^ 64 ≤ s.nextToken + 1 then (.error (.new (-32603) id), s)
        else
          let admission : Admission := ⟨s.nextToken + 1, id, action⟩
          (.admitted admission, ⟨target, s.nextToken + 1, s.pending ++ [⟨key, admission⟩]⟩)

/-- Only a fully admitted request can select a mode. -/
def accept (s : Session) (r : Request) : Event × Session :=
  match r.key with
  | none => (.ignore, s.notify r.method r.params)
  | some key => s.request isUrl key (r.id.getD .null) r.method r.params

/-- The immutable token is checked, never merely the identifier. -/
def prepare (s : Session) (token : Nat) (response : Json) : Option Prepared :=
  (s.pendingOf token).map fun _ => ⟨token, response⟩

def commit (s : Session) (p : Prepared) : Option Json × Session :=
  match s.pendingOf p.token with
  | none => (none, s)
  | some row => (some p.response, { s with pending := Register.remove Pending.key row.key s.pending })

end Session

end Baleyg.Mcp
