/-
What becomes an answer.

The collector of the runner sees every event of the agent in the order in which they come: how the
account stands, updates of a session, requests for a permission, and the calls `begin` and
`finish` of the runner itself.  An event that must not occur makes it invalid for good, and
`finish` gives an answer only where it is not.  So what is known of a run that ends in an answer is
an invariant of the states that are not invalid, and it speaks of the events alone: which of them
there were, and in which order.

A string is a sequence of UTF-16 code units, as the agent may send half of a surrogate pair.
-/
import Mathlib.Algebra.BigOperators.Group.List.Basic
import Mathlib.Algebra.Order.Ring.Nat
import Mathlib.Algebra.Order.Ring.Unbundled.Rat
import Mathlib.Data.List.Induction
import Baleyg.Contract.Json

namespace Baleyg.Answer

open Contract (Units unitsOf bufferFrom)
open Fallible (ensure)

/-! ### Values -/

/-- A number that JSON spells, as a float. -/
inductive Number where
  | finite (q : Rat)
  | infinite

inductive Value where
  | null
  | bool (b : Bool)
  | num (x : Number)
  | str (s : Units)
  | arr (items : List Value)
  | obj (members : List (Units × Value))

/-- `v?.key`; `none` is `undefined`. -/
def get (v : Option Value) (key : String) : Option Value :=
  match v with
  | some (.obj members) => (members.find? fun m => m.1 = unitsOf key).map Prod.snd
  | _ => none

def string? : Option Value → Option Units
  | some (.str s) => some s
  | _ => none

/-- `v === text`. -/
def isText (v : Option Value) (text : String) : Bool := string? v == some (unitsOf text)

def truthy : Option Value → Bool
  | none => false
  | some .null => false
  | some (.bool b) => b
  | some (.num (.finite q)) => q ≠ 0
  | some (.str s) => !s.isEmpty
  | some _ => true

/-- `Buffer.byteLength`. -/
def byteLength (s : Units) : Nat := (bufferFrom s).length

/-- A blank, or the end of a line. -/
def isSpace (u : UInt16) : Bool :=
  (9 ≤ u && u ≤ 13) || u == 0x20 || u == 0xA0 || u == 0x1680 || (0x2000 ≤ u && u ≤ 0x200A) ||
    u == 0x2028 || u == 0x2029 || u == 0x202F || u == 0x205F || u == 0x3000 || u == 0xFEFF

/-- `String.prototype.trim`. -/
def trim (s : Units) : Units := ((s.dropWhile isSpace).reverse.dropWhile isSpace).reverse

def lowerAscii (u : UInt16) : UInt16 := if 65 ≤ u && u ≤ 90 then u + 32 else u

/-- What the language brings along: `JSON.parse`, which may throw, and the letters of Unicode. -/
structure Engine where
  parse : Units → Option Value
  toLowerCase : Units → Units

/-! ### The answer -/

/-- `LIMITS.answer`. -/
def answerLimit : Nat := 48 * 1024

/-- `exact`: an object of these keys and no others. -/
def exact (v : Value) (keys : List String) : Except String Unit :=
  match v with
  | .obj members =>
      ensure (members.length = keys.length ∧
        ∀ key ∈ keys, (get (some (.obj members)) key).isSome = true) "runtime_failed"
  | _ => throw "runtime_failed"

/-- `str`: a string that is not blank and not too long. -/
def str (v : Option Value) (most : Nat) : Bool :=
  match string? v with
  | some s => !(trim s).isEmpty && byteLength s ≤ most
  | none => false

def items (v : Option Value) (least most : Nat) : Except String (List Value) :=
  match v with
  | some (.arr items) => do
      ensure (least ≤ items.length ∧ items.length ≤ most) "runtime_failed"
      return items
  | _ => throw "runtime_failed"

/-- `Number.isInteger`, and the integer. -/
def integer? : Option Value → Option Int
  | some (.num (.finite q)) => if q.den = 1 then some q.num else none
  | _ => none

def checkCitation (citation : Value) : Except String Unit := do
  exact citation ["path", "startLine", "endLine", "quote"]
  ensure (str (get (some citation) "path") answerLimit = true ∧
    str (get (some citation) "quote") answerLimit = true) "runtime_failed"
  match integer? (get (some citation) "startLine"), integer? (get (some citation) "endLine") with
  | some startLine, some endLine =>
      ensure (1 ≤ startLine ∧ startLine ≤ endLine ∧ endLine ≤ 4294967295 ∧
        endLine - startLine < 12) "runtime_failed"
  | _, _ => throw "runtime_failed"

def checkClaim (claim : Value) : Except String Unit := do
  exact claim ["text", "citations"]
  ensure (str (get (some claim) "text") 1200 = true) "runtime_failed"
  let citations ← items (get (some claim) "citations") 1 4
  citations.forM checkCitation

def parseAnswer (js : Engine) (text packetId : Units) : Except String Value := do
  ensure (byteLength text ≤ answerLimit) "runtime_failed"
  match js.parse text with
  | none => throw "SyntaxError"
  | some answer => do
      exact answer ["packetId", "summary", "branches", "limitations"]
      ensure (string? (get (some answer) "packetId") = some packetId) "runtime_failed"
      let summary ← items (get (some answer) "summary") 1 4
      summary.forM checkClaim
      let branches ← items (get (some answer) "branches") 0 6
      branches.forM checkClaim
      let limitations ← items (get (some answer) "limitations") 0 6
      ensure (∀ v ∈ limitations, str (some v) 1200 = true) "runtime_failed"
      return answer

/-! ### The collector -/

structure State where
  auth : Bool
  prompting : Bool
  text : Units
  bytes : Nat
  cost : Option Rat
  invalid : Bool
  invalidReason : Option String
  sessionId : Option Units

def collector : State := ⟨false, false, [], 0, none, false, none, none⟩

/-- The first reason is kept. -/
def invalidate (reason : String) (s : State) : State :=
  if s.invalid then s else { s with invalid := true, invalidReason := some reason }

/-- The name of a plan without the name of the product before it. -/
def planName (js : Engine) (plan : Units) : Units :=
  let plan := trim plan
  let rest := plan.drop 6
  js.toLowerCase <|
    if (plan.take 6).map lowerAscii = unitsOf "claude" ∧ rest.head?.any isSpace = true then
      rest.dropWhile isSpace
    else plan

/-- The account may be asked. -/
def eligible (js : Engine) (params : Option Value) : Bool :=
  let status := get params "authStatus"
  let plan := (string? (get (get status "account") "plan")).elim [] (planName js)
  isText (get status "kind") "account" &&
    ["pro", "max", "team", "enterprise"].any fun name => plan = unitsOf name

def auth (js : Engine) (params : Option Value) (s : State) : State :=
  let s := { s with auth := eligible js params }
  if s.prompting && !s.auth then invalidate "auth_changed" s else s

def permission (s : State) : State := invalidate "tool_attempt" s

def «begin» (id : Option Value) (s : State) : Except String State := do
  ensure (s.auth = true) "auth_required"
  match string? id with
  | none => throw "runtime_failed"
  | some id =>
      ensure (s.invalid = false ∧ id ≠ []) "runtime_failed"
      return { s with sessionId := some id, prompting := true }

/-- `configOptions?.find(c => c.id === 'model')`, which throws where there is nothing to search or
to look into. -/
def findModel : List Value → Except String (Option Value)
  | [] => return none
  | .null :: _ => throw "TypeError"
  | c :: rest => if isText (get (some c) "id") "model" then return some c else findModel rest

def modelOption : Option Value → Except String (Option Value)
  | none => return none
  | some .null => return none
  | some (.arr items) => findModel items
  | some _ => throw "TypeError"

def modelChanged (u : Option Value) : Except String Bool :=
  if isText (get u "sessionUpdate") "current_model_update" then
    return !isText (get u "currentModelId") "sonnet"
  else if isText (get u "sessionUpdate") "config_option_update" then do
    let model ← modelOption (get u "configOptions")
    return model.any fun model => !isText (get (some model) "currentValue") "sonnet"
  else return false

def toolCall (u : Option Value) : Bool :=
  isText (get u "sessionUpdate") "tool_call" || isText (get u "sessionUpdate") "tool_call_update"

def isChunk (u : Option Value) : Bool := isText (get u "sessionUpdate") "agent_message_chunk"

def chunkText (u : Option Value) : Option Units :=
  if isText (get (get u "content") "type") "text" then string? (get (get u "content") "text")
  else none

def receive (u : Option Value) (s : State) : State :=
  match if s.prompting then chunkText u else none with
  | none => invalidate "nontext" s
  | some text =>
      let s := { s with bytes := s.bytes + byteLength text }
      if answerLimit < s.bytes then invalidate "oversize" s
      else { s with text := s.text ++ text }

def usage (u : Option Value) : Option Rat :=
  if isText (get u "sessionUpdate") "usage_update" &&
      isText (get (get u "cost") "currency") "USD" then
    match get (get u "cost") "amount" with
    | some (.num (.finite q)) => if 0 ≤ q then some q else none
    | _ => none
  else none

/-- During a prompt it is asked whether another model answers. -/
def noticed (u : Option Value) (s : State) : Except String Bool :=
  if s.prompting then modelChanged u else return false

def apply (u : Option Value) (changed : Bool) (s : State) : State :=
  let s := if changed then invalidate "model_changed" s else s
  let s := if toolCall u then invalidate "tool_attempt" s else s
  let s := if isChunk u then receive u s else s
  match usage u with
  | none => s
  | some amount => { s with cost := some (max (s.cost.getD 0) amount) }

def update (params : Option Value) (s : State) : Except String State :=
  let u := get params "update"
  if truthy u = false then return invalidate "runtime_failed" s
  else if s.prompting = true ∧ string? (get params "sessionId") ≠ s.sessionId then
    return invalidate "wrong_session" s
  else do
    let changed ← noticed u s
    return apply u changed s

/-! ### Finishing -/

def strip (lead : String) (s : Units) : Units :=
  if (unitsOf lead).isPrefixOf s then s.drop (unitsOf lead).length else s

def wordUnit (u : UInt16) : Bool :=
  (48 ≤ u && u ≤ 57) || (65 ≤ u && u ≤ 90) || (97 ≤ u && u ≤ 122) || u == 95

/-- A word stands in a text by itself, in whatever case. -/
def hasWord (w : Units) : Bool → Units → Bool
  | _, [] => false
  | after, u :: s =>
      (!after && (((u :: s).take w.length).map lowerAscii == w) &&
        !((u :: s).drop w.length).head?.any wordUnit) || hasWord w (wordUnit u) s

/-- `sdkErrorCategory` of a message, as far as it tells that the account was refused. -/
def authError (message : Units) : Option String :=
  let rest := strip "Failed to authenticate. " (strip "Internal error: " message)
  let lead := unitsOf "API Error: 401"
  if lead.isPrefixOf rest && (rest.drop lead.length).head?.all isSpace then
    if hasWord (unitsOf "oauth") false message && hasWord (unitsOf "revoked") false message then
      some "auth_required"
    else some "authentication_failed"
  else none

def finish (js : Engine) (response : Option Value) (packetId : Units) (s : State) :
    Except String (Value × Option Rat) := do
  if let some category := authError s.text then throw category
  ensure (s.auth = true) "auth_required"
  ensure (s.invalid = false) (s.invalidReason.getD "runtime_failed")
  ensure (s.prompting = true ∧ isText (get response "stopReason") "end_turn") "incomplete_turn"
  match parseAnswer js s.text packetId with
  | .error _ => throw "invalid_answer"
  | .ok answer => return (answer, s.cost)

/-! ### Runs -/

inductive Event where
  | auth (params : Option Value)
  | update (params : Option Value)
  | permission
  | «begin» (id : Option Value)
  | finish (response : Option Value) (packetId : Units)

def step (js : Engine) (s : State) : Event → State
  | .auth params => auth js params s
  | .update params => (update params s).toOption.getD s
  | .permission => permission s
  | .begin id => («begin» id s).toOption.getD s
  | .finish _ _ => s

def run (js : Engine) (events : List Event) : State := events.foldl (step js) collector

/-! ### What events say -/

def sessionOf (params : Option Value) : Option Units := string? (get params "sessionId")

def stand (js : Engine) (before : Bool) : Event → Bool
  | .auth params => eligible js params
  | _ => before

/-- The account stands as the last event about it says. -/
def standing (js : Engine) (events : List Event) : Bool := events.foldl (stand js) false

def select (current : Units) : Event → Units
  | .begin v => ((string? v).filter fun id => id ≠ []).getD current
  | _ => current

/-- The session that is selected, after `id` was, by the last `begin` that names one. -/
def selected (id : Units) (events : List Event) : Units := events.foldl select id

def textOf : Event → List Units
  | .update params =>
      if isChunk (get params "update") then (chunkText (get params "update")).toList else []
  | _ => []

def texts (events : List Event) : List Units := events.flatMap textOf

def clean : Event → Bool
  | .permission => false
  | .update params =>
      !toolCall (get params "update") &&
        (!isChunk (get params "update") || (chunkText (get params "update")).isSome)
  | _ => true

/-- `begin` selects a session after these events: the account stands, and one is named. -/
def Selects (js : Engine) (events : List Event) (v : Option Value) : Prop :=
  standing js events = true ∧ ∃ id, v = some (.str id) ∧ id ≠ []

/-- No `begin` of these has selected a session. -/
def Unselected (js : Engine) (events : List Event) : Prop :=
  ∀ first v last, events = first ++ .begin v :: last → ¬ Selects js first v

/-- **A prompt**: the events before the first `begin` that selects a session, and those after. -/
structure Prompted (js : Engine) (before : List Event) (id : Units) (after : List Event) :
    Prop where
  standing : standing js before = true
  named : id ≠ []
  first : Unselected js before
  quiet : ∀ params, .update params ∈ before → isChunk (get params "update") = false
  auths : ∀ params, .auth params ∈ after → eligible js params = true
  own : ∀ first params last, after = first ++ .update params :: last →
    sessionOf params = some (selected id first)
  model : ∀ params, .update params ∈ after → modelChanged (get params "update") ≠ .ok true

/-- **What is known while nothing was wrong.** -/
structure Kept (js : Engine) (events : List Event) (s : State) : Prop where
  account : s.auth = standing js events
  spotless : ∀ e ∈ events, clean e = true
  text : s.text = (texts events).flatten
  bytes : s.bytes = ((texts events).map byteLength).sum
  small : s.bytes ≤ answerLimit
  held : s.prompting = true → s.auth = true
  idle : s.prompting = false → Unselected js events ∧
    ∀ params, .update params ∈ events → isChunk (get params "update") = false
  prompted : s.prompting = true → ∃ before id after,
    events = before ++ .begin (some (.str id)) :: after ∧ Prompted js before id after ∧
      s.sessionId = some (selected id after)

theorem standing_append (js : Engine) (events : List Event) (e : Event) :
    standing js (events ++ [e]) = stand js (standing js events) e := by
  unfold standing
  rw [List.foldl_append]
  rfl

theorem selected_append (id : Units) (events : List Event) (e : Event) :
    selected id (events ++ [e]) = select (selected id events) e := by
  unfold selected
  rw [List.foldl_append]
  rfl

theorem texts_append (events : List Event) (e : Event) :
    texts (events ++ [e]) = texts events ++ textOf e := by
  unfold texts
  rw [List.flatMap_append, List.flatMap_singleton]

theorem clean_update (params : Option Value) :
    clean (.update params) = (!toolCall (get params "update") &&
      (!isChunk (get params "update") || (chunkText (get params "update")).isSome)) := rfl

theorem textOf_update (params : Option Value) :
    textOf (.update params) =
      if isChunk (get params "update") then (chunkText (get params "update")).toList else [] := rfl

/-- Where a list with one more item is split, the split is one of the list or at the item. -/
theorem append_singleton_eq {events first last : List Event} {e e' : Event}
    (h : events ++ [e] = first ++ e' :: last) :
    (∃ last', events = first ++ e' :: last') ∨ (events = first ∧ e = e') := by
  rcases List.eq_nil_or_concat last with rfl | ⟨last', x, rfl⟩
  · obtain ⟨hfirst, hitem⟩ := List.append_inj' h rfl
    exact .inr ⟨hfirst, List.singleton_inj.mp hitem⟩
  · left
    refine ⟨last', ?_⟩
    rw [List.concat_eq_append, ← List.cons_append, ← List.append_assoc] at h
    exact (List.append_inj' h rfl).1

/-! ### What an update does -/

@[simp] theorem invalidate_invalid (reason : String) (s : State) :
    (invalidate reason s).invalid = true := by
  unfold invalidate
  by_cases h : s.invalid = true
  · rw [if_pos h, h]
  · rw [if_neg h]

/-- What an update did that left the collector valid. -/
structure Passed (params : Option Value) (s s' : State) : Prop where
  valid : s.invalid = false
  auth : s'.auth = s.auth
  prompting : s'.prompting = s.prompting
  sessionId : s'.sessionId = s.sessionId
  own : s.prompting = true → sessionOf params = s.sessionId
  model : s.prompting = true → modelChanged (get params "update") ≠ .ok true
  tool : toolCall (get params "update") = false
  received : (isChunk (get params "update") = false ∧ s'.text = s.text ∧ s'.bytes = s.bytes) ∨
    (isChunk (get params "update") = true ∧ s.prompting = true ∧
      ∃ text, chunkText (get params "update") = some text ∧ s'.text = s.text ++ text ∧
        s'.bytes = s.bytes + byteLength text ∧ s'.bytes ≤ answerLimit)

theorem isText_inj {v : Option Value} {a b : String} (ha : isText v a = true)
    (hb : isText v b = true) : unitsOf a = unitsOf b := by
  unfold isText at ha hb
  rw [beq_iff_eq] at ha hb
  rw [ha] at hb
  exact Option.some.inj hb

variable {u : Option Value} {s : State}

theorem isText_of_error {e : String} (h : modelChanged u = .error e) :
    isText (get u "sessionUpdate") "config_option_update" = true := by
  unfold modelChanged at h
  by_cases hcurrent : isText (get u "sessionUpdate") "current_model_update" = true
  · rw [if_pos hcurrent] at h; contradiction
  · rw [if_neg hcurrent] at h
    by_cases hoption : isText (get u "sessionUpdate") "config_option_update" = true
    · exact hoption
    · rw [if_neg hoption] at h; contradiction

theorem config_ne : unitsOf "config_option_update" ≠ unitsOf "tool_call" ∧
    unitsOf "config_option_update" ≠ unitsOf "tool_call_update" ∧
    unitsOf "config_option_update" ≠ unitsOf "agent_message_chunk" := by
  decide +kernel

theorem receive_valid (h : (receive u s).invalid = false) :
    s.invalid = false ∧ s.prompting = true ∧ ∃ text, chunkText u = some text ∧
      s.bytes + byteLength text ≤ answerLimit ∧
      receive u s = { s with bytes := s.bytes + byteLength text, text := s.text ++ text } := by
  unfold receive at h ⊢
  by_cases hprompting : s.prompting = true
  · rw [if_pos hprompting] at h ⊢
    cases htext : chunkText u with
    | none =>
        simp only [htext, invalidate_invalid] at h
        contradiction
    | some text =>
        simp only [htext] at h ⊢
        by_cases hlarge : answerLimit < s.bytes + byteLength text
        · rw [if_pos hlarge, invalidate_invalid] at h; contradiction
        · rw [if_neg hlarge] at h ⊢
          exact ⟨h, hprompting, text, rfl, Nat.le_of_not_lt hlarge, rfl⟩
  · rw [if_neg hprompting] at h
    simp only [invalidate_invalid] at h
    contradiction

/-- An update that left the collector valid told of no change and of no tool. -/
theorem apply_valid {changed : Bool} (h : (apply u changed s).invalid = false) :
    changed = false ∧ toolCall u = false ∧ s.invalid = false ∧
      ∃ t cost, apply u changed s = { t with cost := cost } ∧
        t = if isChunk u then receive u s else s := by
  have hcost : ∃ cost, apply u changed s =
      { (if isChunk u then
          receive u (if toolCall u then
            invalidate "tool_attempt" (if changed then invalidate "model_changed" s else s)
          else if changed then invalidate "model_changed" s else s)
        else if toolCall u then
            invalidate "tool_attempt" (if changed then invalidate "model_changed" s else s)
          else if changed then invalidate "model_changed" s else s) with cost := cost } := by
    unfold apply
    cases usage u with
    | none | some => exact ⟨_, rfl⟩
  obtain ⟨cost, hcost⟩ := hcost
  have hinvalid : ∀ t : State, t.invalid = true →
      (if isChunk u then receive u t else t).invalid = true := by
    intro t ht
    by_cases hchunk : isChunk u = true
    · rw [if_pos hchunk]
      by_contra hvalid
      have hcontra := (receive_valid (Bool.eq_false_of_not_eq_true hvalid)).1
      rw [ht] at hcontra
      contradiction
    · rw [if_neg hchunk, ht]
  rw [hcost] at h
  have hvalid : ∀ t : State, ({ t with cost := cost } : State).invalid = t.invalid := fun _ => rfl
  rw [hvalid] at h
  by_cases htool : toolCall u = true
  · rw [if_pos htool, hinvalid _ (invalidate_invalid _ _)] at h; contradiction
  rw [if_neg htool] at h hcost
  by_cases hchanged : changed = true
  · rw [if_pos hchanged, hinvalid _ (invalidate_invalid _ _)] at h; contradiction
  rw [if_neg hchanged] at h hcost
  have hs : s.invalid = false := by
    by_contra hs
    rw [hinvalid s (Bool.eq_true_of_not_eq_false hs)] at h
    contradiction
  exact ⟨Bool.eq_false_of_not_eq_true hchanged, Bool.eq_false_of_not_eq_true htool, hs, _, cost,
    hcost, rfl⟩

theorem passed_of_update {params : Option Value}
    (h : ((update params s).toOption.getD s).invalid = false) :
    Passed params s ((update params s).toOption.getD s) := by
  unfold update at h ⊢
  by_cases htruthy : truthy (get params "update") = false
  · simp only [if_pos htruthy] at h
    have hinvalid : (invalidate "runtime_failed" s).invalid = false := h
    rw [invalidate_invalid] at hinvalid
    contradiction
  by_cases hown : s.prompting = true ∧ string? (get params "sessionId") ≠ s.sessionId
  · simp only [if_neg htruthy, if_pos hown] at h
    have hinvalid : (invalidate "wrong_session" s).invalid = false := h
    rw [invalidate_invalid] at hinvalid
    contradiction
  have hsession : s.prompting = true → sessionOf params = s.sessionId := by
    intro hprompting
    by_contra hne
    exact hown ⟨hprompting, hne⟩
  simp only [if_neg htruthy, if_neg hown] at h ⊢
  cases hnoticed : noticed (get params "update") s with
  | error e =>
      -- what throws tells of options, and of nothing else
      rw [hnoticed] at h
      have hvalid : s.invalid = false := h
      have hchanged : s.prompting = true → modelChanged (get params "update") = .error e := by
        intro hprompting
        rw [← hnoticed]
        unfold noticed
        rw [if_pos hprompting]
      have hprompting : s.prompting = true := by
        by_contra hidle
        unfold noticed at hnoticed
        rw [if_neg hidle] at hnoticed
        contradiction
      have hkind := isText_of_error (hchanged hprompting)
      have hother : ∀ kind, unitsOf "config_option_update" ≠ unitsOf kind →
          isText (get (get params "update") "sessionUpdate") kind = false := by
        intro kind hne
        by_contra htext
        exact hne (isText_inj hkind (Bool.eq_true_of_not_eq_false htext))
      obtain ⟨hcall, hupdate, hchunk⟩ := config_ne
      refine ⟨hvalid, rfl, rfl, rfl, hsession, ?_, ?_, .inl ⟨hother _ hchunk, rfl, rfl⟩⟩
      · intro hp heq
        rw [hchanged hp] at heq
        contradiction
      · unfold toolCall
        rw [hother _ hcall, hother _ hupdate]
        rfl
  | ok changed =>
      rw [hnoticed] at h
      have happly : (apply (get params "update") changed s).invalid = false := h
      obtain ⟨hchanged, htool, hvalid, t, cost, heq, ht⟩ := apply_valid happly
      have hmodel : s.prompting = true → modelChanged (get params "update") ≠ .ok true := by
        intro hprompting hmodel
        unfold noticed at hnoticed
        rw [if_pos hprompting, hmodel, hchanged] at hnoticed
        contradiction
      show Passed params s (apply (get params "update") changed s)
      rw [heq] at happly ⊢
      have htvalid : t.invalid = false := happly
      by_cases hchunk : isChunk (get params "update") = true
      · rw [if_pos hchunk] at ht
        rw [ht] at htvalid
        obtain ⟨-, hprompting, text, htext, hsmall, hreceive⟩ := receive_valid htvalid
        rw [ht, hreceive]
        exact ⟨hvalid, rfl, rfl, rfl, hsession, hmodel, htool,
          .inr ⟨hchunk, hprompting, text, htext, rfl, rfl, hsmall⟩⟩
      · rw [if_neg hchunk] at ht
        rw [ht]
        exact ⟨hvalid, rfl, rfl, rfl, hsession, hmodel, htool,
          .inl ⟨Bool.eq_false_of_not_eq_true hchunk, rfl, rfl⟩⟩

/-! ### Runs -/

section Runs

variable {js : Engine} {events before after : List Event} {id : Units} {s s' : State} {e : Event}

theorem Prompted.snoc (h : Prompted js before id after)
    (hauth : ∀ params, e = .auth params → eligible js params = true)
    (hupdate : ∀ params, e = .update params → sessionOf params = some (selected id after) ∧
      modelChanged (get params "update") ≠ .ok true) :
    Prompted js before id (after ++ [e]) := by
  refine ⟨h.standing, h.named, h.first, h.quiet, ?_, ?_, ?_⟩
  · intro params hmem
    rcases List.mem_append.mp hmem with hmem | hmem
    · exact h.auths params hmem
    · exact hauth params (List.mem_singleton.mp hmem).symm
  · intro first params last hsplit
    rcases append_singleton_eq hsplit with ⟨last', hafter⟩ | ⟨rfl, he⟩
    · exact h.own first params last' hafter
    · exact (hupdate params he).1
  · intro params hmem
    rcases List.mem_append.mp hmem with hmem | hmem
    · exact h.model params hmem
    · exact (hupdate params (List.mem_singleton.mp hmem).symm).2

theorem Unselected.snoc (h : Unselected js events)
    (he : ∀ v, e = .begin v → ¬ Selects js events v) : Unselected js (events ++ [e]) := by
  intro first v last hsplit
  rcases append_singleton_eq hsplit with ⟨last', hevents⟩ | ⟨rfl, hbegin⟩
  · exact h first v last' hevents
  · exact he v hbegin

theorem Kept.snoc (h : Kept js events s) (hauth : s'.auth = stand js s.auth e)
    (hclean : clean e = true) (htext : s'.text = s.text ++ (textOf e).flatten)
    (hbytes : s'.bytes = s.bytes + ((textOf e).map byteLength).sum)
    (hsmall : s'.bytes ≤ answerLimit) (hheld : s'.prompting = true → s'.auth = true)
    (hidle : s'.prompting = false → s.prompting = false ∧
      (∀ v, e = .begin v → ¬ Selects js events v) ∧
      ∀ params, e = .update params → isChunk (get params "update") = false)
    (hprompted : s'.prompting = true → ∃ before id after,
      events ++ [e] = before ++ .begin (some (.str id)) :: after ∧ Prompted js before id after ∧
        s'.sessionId = some (selected id after)) :
    Kept js (events ++ [e]) s' := by
  refine ⟨?_, ?_, ?_, ?_, hsmall, hheld, ?_, hprompted⟩
  · rw [hauth, h.account, standing_append]
  · intro e' he'
    rcases List.mem_append.mp he' with hmem | hmem
    · exact h.spotless e' hmem
    · rw [List.mem_singleton.mp hmem]; exact hclean
  · rw [htext, h.text, texts_append, List.flatten_append]
  · rw [hbytes, h.bytes, texts_append, List.map_append, List.sum_append]
  · intro hprompting
    obtain ⟨hbefore, hbegin, he⟩ := hidle hprompting
    obtain ⟨hfirst, hquiet⟩ := h.idle hbefore
    refine ⟨hfirst.snoc hbegin, fun params hmem => ?_⟩
    rcases List.mem_append.mp hmem with hmem | hmem
    · exact hquiet params hmem
    · exact he params (List.mem_singleton.mp hmem).symm

theorem Kept.goes_on (h : Kept js events s) (hselect : ∀ current, select current e = current)
    (hprompting : s.prompting = true)
    (hauth : ∀ params, e = .auth params → eligible js params = true)
    (hupdate : ∀ params, e = .update params → sessionOf params = s.sessionId ∧
      modelChanged (get params "update") ≠ .ok true) :
    ∃ before id after, events ++ [e] = before ++ .begin (some (.str id)) :: after ∧
      Prompted js before id after ∧ s.sessionId = some (selected id after) := by
  obtain ⟨before, id, after, hevents, hprompted, hsession⟩ := h.prompted hprompting
  refine ⟨before, id, after ++ [e], ?_, hprompted.snoc hauth ?_, ?_⟩
  · rw [hevents, List.append_assoc, List.cons_append]
  · intro params he
    rw [← hsession]
    exact hupdate params he
  · rw [selected_append, hselect, hsession]

theorem Kept.auth_step {params : Option Value} (h : Kept js events s)
    (hvalid : (auth js params s).invalid = false) :
    Kept js (events ++ [.auth params]) (auth js params s) := by
  have hok : s.prompting = true → eligible js params = true := by
    intro hprompting
    by_contra hno
    unfold auth at hvalid
    simp only [hprompting, Bool.eq_false_of_not_eq_true hno, Bool.not_false, Bool.and_true, if_true,
      invalidate_invalid] at hvalid
    contradiction
  have hstate : auth js params s = { s with auth := eligible js params } := by
    unfold auth
    refine if_neg ?_
    rw [Bool.and_eq_true, Bool.not_eq_true']
    rintro ⟨hprompting, hno⟩
    rw [show eligible js params = false from hno] at hok
    exact Bool.false_ne_true (hok hprompting)
  rw [hstate]
  refine h.snoc rfl rfl (List.append_nil _).symm rfl h.small hok ?_ ?_
  · intro hidle
    refine ⟨hidle, ?_, ?_⟩
    · intro v he; contradiction
    · intro params he; contradiction
  · intro hprompting
    refine h.goes_on (fun _ => rfl) hprompting ?_ ?_
    · intro params' he
      cases he
      exact hok hprompting
    · intro params' he; contradiction

theorem Kept.update_step {params : Option Value} (h : Kept js events s)
    (hpassed : Passed params s s') : Kept js (events ++ [.update params]) s' := by
  have hcontinue : s'.prompting = true → ∃ before id after,
      events ++ [.update params] = before ++ .begin (some (.str id)) :: after ∧
        Prompted js before id after ∧ s'.sessionId = some (selected id after) := by
    intro hprompting
    rw [hpassed.prompting] at hprompting
    rw [hpassed.sessionId]
    refine h.goes_on (fun _ => rfl) hprompting ?_ ?_
    · intro params' he; contradiction
    · intro params' he
      cases he
      exact ⟨hpassed.own hprompting, hpassed.model hprompting⟩
  have hheld : s'.prompting = true → s'.auth = true := by
    intro hprompting
    rw [hpassed.prompting] at hprompting
    rw [hpassed.auth]
    exact h.held hprompting
  rcases hpassed.received with ⟨hchunk, htext, hbytes⟩ |
    ⟨hchunk, hprompting, text, hpiece, htext, hbytes, hsmall⟩
  · have hnone : textOf (.update params) = [] := by
      rw [textOf_update, hchunk]
      rfl
    refine h.snoc hpassed.auth ?_ ?_ ?_ ?_ hheld ?_ hcontinue
    · rw [clean_update, hpassed.tool, hchunk]; rfl
    · rw [hnone, htext]; exact (List.append_nil _).symm
    · rw [hnone, hbytes]; rfl
    · rw [hbytes]; exact h.small
    · intro hidle
      rw [hpassed.prompting] at hidle
      refine ⟨hidle, ?_, ?_⟩
      · intro v he; contradiction
      · intro params' he
        cases he
        exact hchunk
  · have hone : textOf (.update params) = [text] := by
      rw [textOf_update, if_pos hchunk, hpiece]
      rfl
    refine h.snoc hpassed.auth ?_ ?_ ?_ hsmall hheld ?_ hcontinue
    · rw [clean_update, hpassed.tool, hpiece]; simp
    · rw [hone, htext]; simp
    · rw [hone, hbytes]; simp
    · intro hidle
      rw [hpassed.prompting, hprompting] at hidle
      contradiction

/-- `begin` selects a session, or nothing changes. -/
theorem begin_cases (v : Option Value) (s : State) :
    (∃ id, v = some (.str id) ∧ id ≠ [] ∧ s.auth = true ∧ s.invalid = false ∧
      («begin» v s).toOption.getD s = { s with sessionId := some id, prompting := true }) ∨
    ((«begin» v s).toOption.getD s = s ∧
      (s.auth = true → s.invalid = false → ∀ id, string? v = some id → id = [])) := by
  by_cases hauth : s.auth = true
  · cases hv : string? v with
    | none =>
        right
        have hthrow : «begin» v s = .error "runtime_failed" := by
          unfold «begin»
          simp only [ensure, hauth, hv, if_true]
          rfl
        refine ⟨by rw [hthrow]; rfl, ?_⟩
        intro _ _ id hid
        contradiction
    | some id =>
        by_cases hid : s.invalid = false ∧ id ≠ []
        · left
          have hsome : v = some (.str id) := by
            unfold string? at hv
            split at hv
            · cases hv; rfl
            · contradiction
          have hok : «begin» v s = .ok { s with sessionId := some id, prompting := true } := by
            unfold «begin»
            simp only [ensure, hauth, hv, if_true, if_pos hid]
            rfl
          exact ⟨id, hsome, hid.2, hauth, hid.1, by rw [hok]; rfl⟩
        · right
          have hthrow : «begin» v s = .error "runtime_failed" := by
            unfold «begin»
            simp only [ensure, hauth, hv, if_true, if_neg hid]
            rfl
          refine ⟨by rw [hthrow]; rfl, ?_⟩
          intro _ hvalid id' hid'
          cases hid'
          by_contra hne
          exact hid ⟨hvalid, hne⟩
  · right
    have hthrow : «begin» v s = .error "auth_required" := by
      unfold «begin»
      simp only [ensure, if_neg hauth]
      rfl
    refine ⟨by rw [hthrow]; rfl, ?_⟩
    intro hyes
    exact absurd hyes hauth

theorem Kept.begin_step {v : Option Value} (h : Kept js events s) (hvalid : s.invalid = false) :
    Kept js (events ++ [.begin v]) ((«begin» v s).toOption.getD s) := by
  have hother : ∀ params, Event.begin v = .update params →
      isChunk (get params "update") = false := by
    intro params he
    contradiction
  rcases begin_cases v s with ⟨id, rfl, hid, hauth, -, hstate⟩ | ⟨hstate, hnone⟩
  · rw [hstate]
    refine h.snoc rfl rfl (List.append_nil _).symm rfl h.small (fun _ => hauth) ?_ ?_
    · intro hidle; contradiction
    · intro _
      have hselect : ∀ current, select current (.begin (some (.str id))) = id := by
        intro current
        show ((some id).filter fun id => id ≠ []).getD current = id
        rw [Option.filter_some, if_pos (decide_eq_true hid)]
        rfl
      by_cases hprompting : s.prompting = true
      · obtain ⟨before, first, after, hevents, hprompted, -⟩ := h.prompted hprompting
        refine ⟨before, first, after ++ [.begin (some (.str id))], ?_, hprompted.snoc ?_ ?_, ?_⟩
        · rw [hevents, List.append_assoc, List.cons_append]
        · intro params he; contradiction
        · intro params he; contradiction
        · rw [selected_append, hselect]
      · have hidle := h.idle (Bool.eq_false_of_not_eq_true hprompting)
        refine ⟨events, id, [], rfl, ⟨?_, hid, hidle.1, hidle.2, ?_, ?_, ?_⟩, rfl⟩
        · rw [← h.account, hauth]
        · intro params hmem; contradiction
        · intro first params last hsplit; exact absurd hsplit.symm (by simp)
        · intro params hmem; contradiction
  · rw [hstate]
    refine h.snoc rfl rfl (List.append_nil _).symm rfl h.small h.held ?_ ?_
    · intro hidle
      refine ⟨hidle, ?_, hother⟩
      rintro v' he ⟨hstands, id, hid, hne⟩
      cases he
      rw [hid] at hnone
      exact hne (hnone (h.account.trans hstands) hvalid id rfl)
    intro hprompting
    have hselect : ∀ current, select current (.begin v) = current := by
      intro current
      show ((string? v).filter fun id => id ≠ []).getD current = current
      cases hv : string? v with
      | none => rfl
      | some id =>
          have hnil := hnone (h.held hprompting) hvalid id hv
          rw [hnil]
          rfl
    refine h.goes_on hselect hprompting ?_ ?_
    · intro params he; contradiction
    · intro params he; contradiction

theorem run_append (js : Engine) (events : List Event) (e : Event) :
    run js (events ++ [e]) = step js (run js events) e := by
  unfold run
  rw [List.foldl_append]
  rfl

theorem valid_of_step (h : (step js s e).invalid = false) : s.invalid = false := by
  cases e with
  | auth params =>
      by_contra hinvalid
      have hs : s.invalid = true := Bool.eq_true_of_not_eq_false hinvalid
      have hstep : (auth js params s).invalid = true := by
        unfold auth
        simp only
        split
        · exact invalidate_invalid _ _
        · exact hs
      have hfalse : (auth js params s).invalid = false := h
      rw [hstep] at hfalse
      contradiction
  | update params => exact (passed_of_update h).valid
  | permission =>
      have hfalse : (invalidate "tool_attempt" s).invalid = false := h
      rw [invalidate_invalid] at hfalse
      contradiction
  | «begin» v =>
      rcases begin_cases v s with ⟨id, -, -, -, hvalid, -⟩ | ⟨hstate, -⟩
      · exact hvalid
      · have hfalse : ((«begin» v s).toOption.getD s).invalid = false := h
        rw [hstate] at hfalse
        exact hfalse
  | finish response packetId => exact h

/-- **One event keeps what is known.** -/
theorem Kept.step (h : Kept js events s) (hvalid : (step js s e).invalid = false) :
    Kept js (events ++ [e]) (step js s e) := by
  cases e with
  | auth params => exact h.auth_step hvalid
  | update params => exact h.update_step (passed_of_update hvalid)
  | permission =>
      have hfalse : (invalidate "tool_attempt" s).invalid = false := hvalid
      rw [invalidate_invalid] at hfalse
      contradiction
  | «begin» v => exact h.begin_step (valid_of_step hvalid)
  | finish response packetId =>
      refine h.snoc rfl rfl (List.append_nil _).symm rfl h.small h.held ?_ ?_
      · intro hidle
        refine ⟨hidle, ?_, ?_⟩
        · intro v he; contradiction
        · intro params he; contradiction
      · intro hprompting
        refine h.goes_on (fun _ => rfl) hprompting ?_ ?_
        · intro params he; contradiction
        · intro params he; contradiction

/-- **Every run keeps it**, as long as it is valid. -/
theorem kept_run (js : Engine) (events : List Event) :
    (run js events).invalid = false → Kept js events (run js events) := by
  induction events using List.reverseRecOn with
  | nil =>
      intro _
      refine ⟨rfl, ?_, rfl, rfl, Nat.zero_le _, ?_, ?_, ?_⟩
      · intro e he; contradiction
      · intro hprompting; contradiction
      · intro _
        refine ⟨fun first v last hsplit => absurd hsplit.symm (by simp), ?_⟩
        intro params hmem
        contradiction
      · intro hprompting; contradiction
  | append_singleton events e ih =>
      intro hvalid
      rw [run_append] at hvalid ⊢
      exact (ih (valid_of_step hvalid)).step hvalid

theorem finish_eq_ok {response : Option Value} {packetId : Units} {answer : Value}
    {cost : Option Rat} (h : finish js response packetId s = .ok (answer, cost)) :
    s.invalid = false ∧ s.prompting = true ∧ parseAnswer js s.text packetId = .ok answer := by
  unfold finish at h
  cases hauthError : authError s.text with
  | some category =>
      simp only [hauthError] at h
      contradiction
  | none =>
      simp only [hauthError, ensure] at h
      by_cases hauth : s.auth = true
      · by_cases hinvalid : s.invalid = false
        · by_cases hprompting : s.prompting = true ∧ isText (get response "stopReason") "end_turn"
          · rw [if_pos hauth, if_pos hinvalid, if_pos hprompting] at h
            cases hparse : parseAnswer js s.text packetId with
            | error e => rw [hparse] at h; contradiction
            | ok answer' =>
                rw [hparse] at h
                cases h
                exact ⟨hinvalid, hprompting.1, rfl⟩
          · rw [if_pos hauth, if_pos hinvalid, if_neg hprompting] at h; contradiction
        · rw [if_pos hauth, if_neg hinvalid] at h; contradiction
      · rw [if_neg hauth] at h; contradiction

end Runs

/-- **Only clean text of the session becomes an answer.**  Where `finish` gives one, nothing
occurred that must not occur, the account was eligible when `begin` first selected a session and
stayed so, every update since was of the session selected then and told of no other model, no
piece of a message came before, and the answer is what all pieces together spell. -/
theorem finish_clean {js : Engine} {events : List Event} {response : Option Value}
    {packetId : Units} {answer : Value} {cost : Option Rat}
    (h : finish js response packetId (run js events) = .ok (answer, cost)) :
    (∀ e ∈ events, clean e = true) ∧
    (∃ before id after, events = before ++ .begin (some (.str id)) :: after ∧
      Prompted js before id after) ∧
    ((texts events).map byteLength).sum ≤ answerLimit ∧
    parseAnswer js (texts events).flatten packetId = .ok answer := by
  obtain ⟨hvalid, hprompting, hparse⟩ := finish_eq_ok h
  have hkept := kept_run js events hvalid
  obtain ⟨before, id, after, hevents, hprompted, -⟩ := hkept.prompted hprompting
  refine ⟨hkept.spotless, ⟨before, id, after, hevents, hprompted⟩, ?_, ?_⟩
  · rw [← hkept.bytes]; exact hkept.small
  · rw [← hkept.text]; exact hparse

/-! ### An answer, and one of two sessions -/

def object (members : List (String × Value)) : Value :=
  .obj (members.map fun m => (unitsOf m.1, m.2))

def text (s : String) : Value := .str (unitsOf s)

/-- The answer of the packet `p`. -/
def sampleAnswer : Value :=
  object [("packetId", text "p"), ("summary", .arr [object [("text", text "A claim"),
    ("citations", .arr [object [("path", text "a.rs"), ("startLine", .num (.finite 1)),
      ("endLine", .num (.finite 1)), ("quote", text "fn a")]])]]),
    ("branches", .arr []), ("limitations", .arr [])]

def sampleText : Units := unitsOf
  ("\x7b\"packetId\":\"p\",\"summary\":[\x7b\"text\":\"A claim\",\"citations\":[\x7b\"path\":" ++
    "\"a.rs\",\"startLine\":1,\"endLine\":1,\"quote\":\"fn a\"\x7d]\x7d],\"branches\":[]," ++
    "\"limitations\":[]\x7d")

/-- `JSON.parse` and `toLowerCase` on what the samples give them. -/
def sampleEngine : Engine where
  parse s := if s = sampleText then some sampleAnswer else none
  toLowerCase s := s

def account : Event := .auth (some (object [("authStatus",
  object [("kind", text "account"), ("account", object [("plan", text "max")])])]))

def piece (session : String) : Option Value :=
  some (object [("sessionId", text session), ("update",
    object [("sessionUpdate", text "agent_message_chunk"),
      ("content", object [("type", text "text"), ("text", .str sampleText)])])])

def endTurn : Option Value := some (object [("stopReason", text "end_turn")])

def oneSession : List Event := [account, .begin (some (text "s")), .update (piece "s")]

/-- Another session is selected after the first one has answered. -/
def twoSessions : List Event := oneSession ++ [.begin (some (text "t"))]

theorem finish_clean_oneSession :
    ∃ answer cost, finish sampleEngine endTurn (unitsOf "p") (run sampleEngine oneSession) =
      .ok (answer, cost) ∧
    parseAnswer sampleEngine (texts oneSession).flatten (unitsOf "p") = .ok answer := by
  have hsome : (finish sampleEngine endTurn (unitsOf "p")
      (run sampleEngine oneSession)).toOption.isSome = true := by
    decide +kernel
  cases hfinish : finish sampleEngine endTurn (unitsOf "p") (run sampleEngine oneSession) with
  | error e => rw [hfinish] at hsome; contradiction
  | ok found => exact ⟨found.1, found.2, rfl, (finish_clean hfinish).2.2.2⟩

/-- The text of a session that is not the selected one any more is answered with. -/
theorem finish_twoSessions :
    ∃ answer cost, finish sampleEngine endTurn (unitsOf "p") (run sampleEngine twoSessions) =
      .ok (answer, cost) ∧ .update (piece "s") ∈ twoSessions ∧
      textOf (.update (piece "s")) = [sampleText] ∧
      sessionOf (piece "s") ≠ (run sampleEngine twoSessions).sessionId := by
  have hsome : (finish sampleEngine endTurn (unitsOf "p")
      (run sampleEngine twoSessions)).toOption.isSome = true := by
    decide +kernel
  cases hfinish : finish sampleEngine endTurn (unitsOf "p") (run sampleEngine twoSessions) with
  | error e => rw [hfinish] at hsome; contradiction
  | ok found =>
      refine ⟨found.1, found.2, rfl, by simp [twoSessions, oneSession], ?_, ?_⟩
      · decide +kernel
      · decide +kernel

end Baleyg.Answer
