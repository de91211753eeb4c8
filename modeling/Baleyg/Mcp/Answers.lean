/-
Every answer fits the wire.

What an answer is made of besides fixed text is the identifier of its request, the root and the
label of a workspace, and the beginning of a path that was asked for.  Each is bounded where it
comes in: the identifier by its token, a root by the longest path the tools take, a label by the
longest name of a directory, and of a path that was asked for only so much is given back.  A
character of a root may be written as six bytes in the value and as seven more in the text; that
is the worst there is, and it fits.
-/
import Baleyg.Mcp.Changes
import Baleyg.Mcp.Tools

namespace Baleyg.Mcp

open Fallible (bind_eq_ok ensure_bind_eq_ok)
open Json (bothLen weight weigh quote weight_arr weight_obj weight_str weigh_emitItems_nil weigh_emitItems_cons
  weigh_emitMembers_nil weigh_emitMembers_cons)

def responseBytes : Nat := 65536

/-- `write_response`, as what it writes. -/
def writeResponse (response : Json) : Except String (List Char) :=
  if responseBytes < weigh Char.utf8Size response.encode + 1 then .error "response too large"
  else .ok (response.encode ++ ['\n'])

/-! ### What may be answered -/

/-- The results a tool call may come to, whatever the daemon and the file system say. -/
inductive CallResult (id : Json) (name : String) (args : Option Json) (modern : Bool) : Json → Prop
  | refused (launch : OpenedWorkspace) (check : Except IdentityError Unit)
      (invalid : (prepareTool name args id modern launch check).validArguments = false) :
      CallResult id name args modern (prepareTool name args id modern launch check).response
  /-- The workspace that answers, with how far its index is. -/
  | answered (answering : OpenedWorkspace) (check : Except IdentityError Unit) (catchingUp : Bool) :
      CallResult id name args modern
        (toolResult ((answer name id answering check).set "catchingUp" (.bool catchingUp)) modern)
  /-- The root of the workspace is not the one that was resolved, now or at the last look. -/
  | rootChanged (selected : OpenedWorkspace) (catchingUp : Bool) :
      CallResult id name args modern (resolvedRootChanged id selected.root catchingUp modern)
  | capacity (selected : OpenedWorkspace) (catchingUp : Bool) :
      CallResult id name args modern
        (toolResult (attributedRoot (failure id .checkoutCapacity) selected.root catchingUp) modern)
  /-- The workspace that was asked for cannot be selected. -/
  | selection (error : SelectionError) (path : String)
      (asked : (args.bind Json.asObject?).bind (stringField · "workspace") = some path ∨
        ∃ launch : OpenedWorkspace, path = launch.root) :
      CallResult id name args modern (toolResult (selectionFailure id error (.str path)) modern)

/-- The responses to an admitted request; `entries` is the catalog of tools. -/
inductive Answers (entries : List Json) (a : Admission) : Json → Prop
  | discover (action : a.action = .discover) :
      Answers entries a (responseTo a (discover "0.1.0"))
  | initialization (action : a.action = .initialization) :
      Answers entries a (responseTo a (initialized "0.1.0"))
  | list (action : a.action = .list) (modern : Bool) :
      Answers entries a (responseTo a (listTools entries modern))
  | unknown (action : a.action = .unknown) (result : Json) :
      Answers entries a (responseTo a result)
  | call {name : String} {args : Option Json} (action : a.action = .call name args)
      (modern : Bool) {result : Json} (called : CallResult a.id name args modern result) :
      Answers entries a (responseTo a result)

/-! ### Weights of envelopes -/

section Weights

variable (w : Char → Nat) (id : Json)

theorem weight_failure (code : Code) :
    weight w (failure id code) + weight w .null = weight w (failure .null code) + weight w id := by
  unfold failure
  simp only [weight_obj, weigh_emitMembers_cons, weigh_emitMembers_nil]
  omega

theorem weight_describe (label : String) :
    weight w (describe id label) + weight w .null + weight w (.str "") =
      weight w (describe .null "") + weight w id + weight w (.str label) := by
  unfold describe
  simp only [weight_obj, weigh_emitMembers_cons, weigh_emitMembers_nil]
  omega

theorem weight_attempted_failure (code : Code) (value : Json) :
    weight w (setError (failure id code) "attemptedWorkspace" value) + 2 * weight w .null =
      weight w (setError (failure .null code) "attemptedWorkspace" .null) + weight w id +
        weight w value := by
  have hset : ∀ id value : Json, setError (failure id code) "attemptedWorkspace" value =
      .obj [("schemaVersion", .num "1"), ("requestId", id),
        ("error", .obj [("code", .str code.text), ("message", .str (details code).1),
          ("retryable", .bool (details code).2), ("currentBasis", .null),
          ("currentContentHash", .null), ("attemptedWorkspace", value)])] := fun _ _ => rfl
  rw [hset, hset]
  simp only [weight_obj, weigh_emitMembers_cons, weigh_emitMembers_nil]
  omega

/-- The envelope of a selection that failed, with the workspace as it is told. -/
def selectionEnvelope (id : Json) (error : SelectionError) (told : Json) : Json :=
  .obj [("schemaVersion", .num "1"), ("requestId", id),
    ("error", .obj [("code", .str error.code.text), ("message", .str "Workspace selection failed"),
      ("retryable", .bool error.retryable), ("currentBasis", .null), ("currentContentHash", .null),
      ("reason", .str error.reason), ("attemptedWorkspace", told)])]

theorem selectionFailure_eq (error : SelectionError) (value : Json) :
    selectionFailure id error value = selectionEnvelope id error (attempted value) := rfl

theorem weight_selectionEnvelope (error : SelectionError) (told : Json) :
    weight w (selectionEnvelope id error told) + 2 * weight w .null =
      weight w (selectionEnvelope .null error .null) + weight w id + weight w told := by
  unfold selectionEnvelope
  simp only [weight_obj, weigh_emitMembers_cons, weigh_emitMembers_nil]
  omega

def pathTold (kept : String) (bytes : String) (truncated : Bool) : Json :=
  .obj [("kind", .str "path"), ("value", .str kept), ("utf8Bytes", .num bytes),
    ("truncated", .bool truncated)]

theorem weight_pathTold (kept bytes : String) (truncated : Bool) :
    weight w (pathTold kept bytes truncated) + weight w (.str "") + weight w (.num "") =
      weight w (pathTold "" "" truncated) + weight w (.str kept) + weight w (.num bytes) := by
  unfold pathTold
  simp only [weight_obj, weigh_emitMembers_cons, weigh_emitMembers_nil]
  omega

theorem weight_set_of_absent {fields : Json.Fields} {k : String} {v : Json} (hne : fields ≠ [])
    (habsent : fields.any (fun f => f.1 = k) = false) :
    weight w ((Json.obj fields).set k v) =
      weight w (.obj fields) + (w ',' + Json.memberWeight w (k, v)) := by
  have hset : (Json.obj fields).set k v = .obj (fields ++ [(k, v)]) := by
    unfold Json.set
    simp only [habsent]
    rfl
  have hlength : (fields ++ [(k, v)]).length - 1 = (fields.length - 1) + 1 := by
    have hpos := List.length_pos_iff.mpr hne
    rw [List.length_append, List.length_singleton]
    omega
  rw [hset, weight_obj, weight_obj, Json.weigh_emitMembers, Json.weigh_emitMembers, if_pos rfl,
    if_pos rfl, hlength, List.map_append, List.sum_append, List.map_singleton, List.sum_singleton,
    Nat.add_mul, Nat.one_mul]
  omega

theorem weight_attributedRoot {fields : Json.Fields} (root : String) (catchingUp : Bool)
    (hne : fields ≠ []) (hworkspace : fields.any (fun f => f.1 = "workspace") = false)
    (hcatching : fields.any (fun f => f.1 = "catchingUp") = false) :
    weight w (attributedRoot (.obj fields) root catchingUp) = weight w (.obj fields) +
      (w ',' + Json.memberWeight w ("workspace", .str root)) +
      (w ',' + Json.memberWeight w ("catchingUp", .bool catchingUp)) := by
  have hset : (Json.obj fields).set "workspace" (.str root) =
      .obj (fields ++ [("workspace", .str root)]) := by
    unfold Json.set
    simp only [hworkspace]
    rfl
  have habsent : (fields ++ [("workspace", Json.str root)]).any (fun f => f.1 = "catchingUp") =
      false := by
    rw [List.any_append, hcatching]
    simp
  rw [← weight_set_of_absent w hne hworkspace]
  unfold attributedRoot
  rw [hset]
  exact weight_set_of_absent w (List.append_ne_nil_of_left_ne_nil hne _) habsent

/-- The response of a tool call: the envelope, and its text. -/
def toolResponse (failed modern : Bool) (id envelope text : Json) : Json :=
  resultResponse id (.obj ([("isError", .bool failed), ("structuredContent", envelope),
    ("content", .arr [.obj [("type", .str "text"), ("text", text)]])] ++
    if modern then [("resultType", .str "complete")] else []))

theorem toolResponse_eq (envelope : Json) (modern : Bool) : ∃ failed,
    resultResponse id (toolResult envelope modern) =
      toolResponse failed modern id envelope (.str (String.ofList envelope.encode)) := by
  refine ⟨(envelope.asObject?.bind fun fields => Json.get fields "error").isSome, ?_⟩
  cases modern
  · rfl
  · rfl

theorem weight_toolResponse (failed modern : Bool) (envelope text : Json) :
    weight w (toolResponse failed modern id envelope text) + 3 * weight w .null =
      weight w (toolResponse failed modern .null .null .null) + weight w id + weight w envelope +
        weight w text := by
  unfold toolResponse resultResponse
  cases modern
  all_goals
    simp only [weight_obj, weight_arr, weigh_emitMembers_cons, weigh_emitMembers_nil,
      weigh_emitItems_cons, weigh_emitItems_nil, List.cons_append, List.nil_append, if_true,
      Bool.false_eq_true, if_false]
    omega

theorem weight_resultResponse (result : Json) :
    weight w (resultResponse id result) + 2 * weight w .null =
      weight w (resultResponse .null .null) + weight w id + weight w result := by
  unfold resultResponse
  simp only [weight_obj, weigh_emitMembers_cons, weigh_emitMembers_nil]
  omega

theorem weight_unknownMethod :
    weight w (ProtocolError.new (-32601) id).response + weight w .null =
      weight w (ProtocolError.new (-32601) .null).response + weight w id := by
  unfold ProtocolError.response ProtocolError.new
  simp only [weight_obj, weigh_emitMembers_cons, weigh_emitMembers_nil]
  omega

theorem weight_listTools (entries : List Json) (modern : Bool) :
    weight w (listTools entries modern) + weight w .null =
      weight w ((listTools [] modern).set "tools" .null) + weight w (.arr entries) := by
  have hset : (listTools [] modern).set "tools" .null =
      if modern then .obj [("resultType", .str "complete"), ("ttlMs", .num "0"),
        ("cacheScope", .str "private"), ("tools", .null)]
      else .obj [("tools", .null)] := by
    cases modern
    · rfl
    · rfl
  rw [hset]
  unfold listTools
  cases modern
  all_goals
    simp only [weight_obj, weigh_emitMembers_cons, weigh_emitMembers_nil, if_true,
      Bool.false_eq_true, if_false]
    omega

end Weights

/-! ### What they come to -/

/-- An identifier as a session takes it: what it costs a value, and what it costs both. -/
structure ShortId (id : Json) : Prop where
  once : weight Char.utf8Size id ≤ 256
  both : weight bothLen id ≤ 768

theorem both_null : weight bothLen .null = 8 := by decide

theorem both_empty : weight bothLen (.str "") = 6 := by decide

section Bounds

variable {id : Json}

theorem failure_le (hid : ShortId id) (code : Code) : weight bothLen (failure id code) ≤ 1154 := by
  have hfixed : weight bothLen (failure .null code) ≤ 394 := by
    cases code <;> decide +kernel
  have hweight := weight_failure bothLen id code
  have hboth := hid.both
  rw [both_null] at hweight
  omega

theorem describe_le (hid : ShortId id) {label : String} (hlabel : utf8Length label ≤ 255) :
    weight bothLen (describe id label) ≤ 5075 := by
  have hfixed : weight bothLen (describe .null "") ≤ 1000 := by decide +kernel
  have hweight := weight_describe bothLen id label
  have htext : weight bothLen (.str label) ≤ 6 + 13 * utf8Length label := Json.weight_str_bytes label
  have hboth := hid.both
  rw [both_null, both_empty] at hweight
  omega

theorem attribution_le {root : String} (hroot : utf8Length root ≤ 4096) (catchingUp : Bool) :
    (bothLen ',' + Json.memberWeight bothLen ("workspace", .str root)) +
      (bothLen ',' + Json.memberWeight bothLen ("catchingUp", .bool catchingUp)) ≤ 53322 := by
  have htext : weight bothLen (.str root) ≤ 6 + 13 * utf8Length root := Json.weight_str_bytes root
  have hroom : bothLen ',' + (weigh bothLen (quote "workspace".toList) + bothLen ':') = 28 := by decide
  have hcatching : bothLen ',' + Json.memberWeight bothLen ("catchingUp", .bool catchingUp) ≤ 40 := by
    cases catchingUp
    · decide
    · decide
  unfold Json.memberWeight at hcatching ⊢
  simp only at hcatching ⊢
  omega

theorem weigh_clip_le (text : List Char) : ∀ room, weigh Char.utf8Size (clip room text) ≤ room := by
  induction text with
  | nil => exact fun room => Nat.zero_le room
  | cons c text ih =>
      intro room
      unfold clip
      split
      · have hrest := ih (room - c.utf8Size)
        rw [Json.weigh_cons]
        omega
      · exact Nat.zero_le room

/-- What is told of a value that is no path, or of a path that could be read from a frame. -/
theorem attempted_le (value : Json) (h : ∀ path, value = .str path → utf8Length path < 10 ^ 5) :
    weight bothLen (attempted value) ≤ 3470 := by
  have hother : ∀ text ∈ ["null", "boolean", "number", "array", "object", "string"],
      weight bothLen (.obj [("kind", .str "invalid_type"), ("jsonType", .str text)]) ≤ 3470 := by
    decide +kernel
  have hkind : weight bothLen
      (.obj [("kind", .str "invalid_type"), ("jsonType", .str (jsonType value))]) ≤ 3470 := by
    refine hother (jsonType value) ?_
    cases value <;> simp [jsonType]
  cases value with
  | str path =>
      let kept := String.ofList (clip 256 path.toList)
      have hkept : utf8Length kept ≤ 256 := by
        show weigh Char.utf8Size (String.ofList (clip 256 path.toList)).toList ≤ 256
        rw [String.toList_ofList]
        exact weigh_clip_le path.toList 256
      have hpath : attempted (.str path) = pathTold kept (toString (utf8Length path))
          (decide (utf8Length kept < utf8Length path)) := rfl
      have hfixed : ∀ truncated, weight bothLen (pathTold "" "" truncated) ≤ 126 := by
        decide +kernel
      have hweight := weight_pathTold bothLen kept (toString (utf8Length path))
        (decide (utf8Length kept < utf8Length path))
      have hskeleton := hfixed (decide (utf8Length kept < utf8Length path))
      have htext : weight bothLen (.str kept) ≤ 6 + 13 * utf8Length kept := Json.weight_str_bytes kept
      obtain ⟨honce, htwice⟩ := Json.weight_nat_le (by decide) (h path rfl)
      have hnumber := Json.weight_bothLen (.num (toString (utf8Length path)))
      rw [hpath]
      omega
  | null | bool | num | arr | obj => exact hkind

theorem selectionFailure_le (hid : ShortId id) (error : SelectionError) {path : String}
    (hpath : utf8Length path < 10 ^ 5) :
    weight bothLen (selectionFailure id error (.str path)) ≤ 4742 := by
  have hfixed : weight bothLen (selectionEnvelope .null error .null) ≤ 512 := by
    cases error <;> decide +kernel
  have htold := attempted_le (.str path) fun path' h => by
    cases h
    exact hpath
  have hweight := weight_selectionEnvelope bothLen id error (attempted (.str path))
  have hboth := hid.both
  rw [both_null] at hweight
  rw [selectionFailure_eq]
  omega

theorem refusal_le (hid : ShortId id) (name : String) (args : Option Json) (code : Code)
    (h : ∀ path, invalidWorkspace name args = some (.str path) → utf8Length path < 10 ^ 5) :
    weight bothLen (refusal name args id code) ≤ 4678 := by
  unfold refusal
  cases hinvalid : invalidWorkspace name args with
  | none => exact Nat.le_trans (failure_le hid code) (by decide)
  | some value =>
      have hfixed : weight bothLen (setError (failure .null code) "attemptedWorkspace" .null) ≤
          448 := by
        cases code <;> decide +kernel
      have htold := attempted_le value fun path hpath => h path (by rw [hinvalid, hpath])
      have hweight := weight_attempted_failure bothLen id code (attempted value)
      have hboth := hid.both
      rw [both_null] at hweight
      show weight bothLen (setError (failure id code) "attemptedWorkspace" (attempted value)) ≤ 4678
      omega

theorem attributed_failure_le (hid : ShortId id) (code : Code) {root : String}
    (hroot : utf8Length root ≤ 4096) (catchingUp : Bool) :
    weight bothLen (attributedRoot (failure id code) root catchingUp) ≤ 54476 := by
  have hweight : weight bothLen (attributedRoot (failure id code) root catchingUp) =
      weight bothLen (failure id code) +
        (bothLen ',' + Json.memberWeight bothLen ("workspace", .str root)) +
        (bothLen ',' + Json.memberWeight bothLen ("catchingUp", .bool catchingUp)) :=
    weight_attributedRoot bothLen root catchingUp (List.cons_ne_nil _ _) rfl rfl
  have hfailure := failure_le hid code
  have hmore := attribution_le hroot catchingUp
  omega

theorem attributed_describe_le (hid : ShortId id) (workspace : OpenedWorkspace) (catchingUp : Bool) :
    weight bothLen (attributedRoot (describe id workspace.label) workspace.root catchingUp) ≤
      58397 := by
  have hweight : weight bothLen (attributedRoot (describe id workspace.label) workspace.root catchingUp)
      = weight bothLen (describe id workspace.label) +
        (bothLen ',' + Json.memberWeight bothLen ("workspace", .str workspace.root)) +
        (bothLen ',' + Json.memberWeight bothLen ("catchingUp", .bool catchingUp)) :=
    weight_attributedRoot bothLen workspace.root catchingUp (List.cons_ne_nil _ _) rfl rfl
  have hdescribe := describe_le hid workspace.label_fits
  have hmore := attribution_le workspace.root_fits catchingUp
  omega

theorem answer_le (hid : ShortId id) (name : String) (workspace : OpenedWorkspace)
    (check : Except IdentityError Unit) (catchingUp : Bool) :
    weight bothLen ((answer name id workspace check).set "catchingUp" (.bool catchingUp)) ≤ 58397 := by
  have hfailure : ∀ code, weight bothLen
      ((attributedRoot (failure id code) workspace.root false).set "catchingUp" (.bool catchingUp)) ≤
        58397 := fun code =>
    Nat.le_trans (attributed_failure_le hid code workspace.root_fits catchingUp) (by decide)
  unfold answer
  cases check with
  | error e => exact hfailure e.code
  | ok u =>
      by_cases hname : name = "trellis_workspace_describe"
      · simp only [if_pos hname]
        exact attributed_describe_le hid workspace catchingUp
      · simp only [if_neg hname]
        exact hfailure .indexNotReady

/-- **The response of a tool call has room for its envelope twice.** -/
theorem toolResponse_fits (hid : ShortId id) {envelope : Json} (h : weight bothLen envelope ≤ 65000)
    (modern : Bool) :
    weight Char.utf8Size (resultResponse id (toolResult envelope modern)) < responseBytes := by
  obtain ⟨failed, heq⟩ := toolResponse_eq id envelope modern
  have hfixed : ∀ failed modern,
      weight Char.utf8Size (toolResponse failed modern .null .null .null) ≤ 150 := by
    decide +kernel
  have hnull : weight Char.utf8Size .null = 4 := by decide
  have hweight := weight_toolResponse Char.utf8Size id failed modern envelope
    (.str (String.ofList envelope.encode))
  have hskeleton := hfixed failed modern
  have htext := Json.weight_str_encode envelope
  have hboth := Json.weight_bothLen envelope
  have honce := hid.once
  rw [heq]
  unfold responseBytes
  omega

end Bounds

/-! ### Texts of a frame -/

namespace Json

mutual

def texts : Json → List String
  | str s => [s]
  | arr items => textsOfItems items
  | obj fields => textsOfFields fields
  | _ => []

def textsOfItems : List Json → List String
  | [] => []
  | item :: items => texts item ++ textsOfItems items

def textsOfFields : List (String × Json) → List String
  | [] => []
  | (_, value) :: fields => texts value ++ textsOfFields fields

end

theorem texts_of_get {fields : Fields} {k : String} {v : Json} (h : get fields k = some v) :
    v.texts ⊆ (obj fields).texts := by
  show v.texts ⊆ textsOfFields fields
  unfold get at h
  induction fields with
  | nil => cases h
  | cons f fields ih =>
      obtain ⟨key, value⟩ := f
      intro s hs
      unfold textsOfFields
      rw [List.find?_cons] at h
      split at h
      · cases h; exact List.mem_append_left _ hs
      · exact List.mem_append_right _ (ih h hs)

theorem obj_of_asObject {v : Json} {fields : Fields} (h : v.asObject? = some fields) :
    v = obj fields := by
  cases v with
  | obj fields' => cases h; rfl
  | _ => cases h

theorem str_of_asStr {v : Json} {s : String} (h : v.asStr? = some s) : v = str s := by
  cases v with
  | str s' => cases h; rfl
  | _ => cases h

end Json

variable {modern : Bool} {args params : Option Json} {v id : Json} {name : String} {a : Admission}

theorem args_of_checkCall (h : Session.checkCall modern params id = .ok (.call name args))
    (hv : args = some v) : ∃ p, params = some p ∧ v.texts ⊆ p.texts := by
  unfold Session.checkCall at h
  split at h
  · cases h
  · rename_i fields hfields
    obtain ⟨p, hp, hobject⟩ := Option.bind_eq_some_iff.mp hfields
    obtain ⟨-, h⟩ := ensure_bind_eq_ok.mp h
    split at h
    · cases h
    · obtain ⟨-, h⟩ := ensure_bind_eq_ok.mp h
      cases h
      refine ⟨p, hp, ?_⟩
      rw [Json.obj_of_asObject hobject]
      exact Json.texts_of_get hv

theorem args_of_actionOf {method : String}
    (h : Session.actionOf modern method params id = .ok (.call name args)) (hv : args = some v) :
    ∃ p, params = some p ∧ v.texts ⊆ p.texts := by
  unfold Session.actionOf at h
  dsimp only at h
  split at h
  · cases h
  · split at h
    · cases h
    · split at h
      · cases h
      · split at h
        · exact args_of_checkCall h hv
        · split at h
          · cases h
          · cases h

theorem args_of_validate {isUrl : String → Bool} {s : Session} {method : String} {target : Mode}
    (h : s.validate isUrl method params id = .ok (target, .call name args)) (hv : args = some v) :
    ∃ p, params = some p ∧ v.texts ⊆ p.texts := by
  unfold Session.validate at h
  split at h
  · obtain ⟨-, h⟩ := ensure_bind_eq_ok.mp h
    obtain ⟨-, h⟩ := ensure_bind_eq_ok.mp h
    cases h
  · obtain ⟨-, h⟩ := ensure_bind_eq_ok.mp h
    split at h
    · obtain ⟨-, -, h⟩ := bind_eq_ok.mp h
      obtain ⟨action, haction, h⟩ := bind_eq_ok.mp h
      cases h
      exact args_of_actionOf haction hv
    · obtain ⟨-, h⟩ := ensure_bind_eq_ok.mp h
      obtain ⟨action, haction, h⟩ := bind_eq_ok.mp h
      cases h
      exact args_of_actionOf haction hv

theorem natAbs_of_exactSafeInteger {text : String} {n : Int} (h : exactSafeInteger text = some n) :
    n.natAbs ≤ safeInteger := by
  unfold exactSafeInteger at h
  obtain ⟨⟨negative, significant, fraction, exponent⟩, -, h⟩ := Option.bind_eq_some_iff.mp h
  simp only at h
  split at h
  · cases h; exact Nat.zero_le _
  · obtain ⟨exp, -, h⟩ := Option.bind_eq_some_iff.mp h
    split at h
    · cases h
    · split at h
      · cases h
      · split at h
        · rename_i hle
          cases h
          split <;> omega
        · cases h

theorem shortId_of_key {key : IdKey} {fields : Json.Fields} {id : Option Json}
    (h : decodeId fields = .ok (id, some key)) : ShortId key.value := by
  unfold decodeId at h
  split at h
  · cases h
  · rename_i s _
    split at h
    · rename_i hfits
      cases h
      have honce : weight Char.utf8Size (.str s) = compactStringTokenLen s := Json.weigh_quote s
      have htwice : weight bothLen (.str s) = weight Char.utf8Size (.str s) +
          weight compactCharLen (.str s) := Json.weight_bothLen _
      have hinside : weight compactCharLen (.str s) ≤ 2 * compactStringTokenLen s :=
        Json.weigh_quote_le s
      exact ⟨by show weight Char.utf8Size (.str s) ≤ 256; omega,
        by show weight bothLen (.str s) ≤ 768; omega⟩
    · cases h
  · split at h
    · cases h
    · rename_i n hn
      cases h
      have hle := natAbs_of_exactSafeInteger hn
      have hsafe : safeInteger < 10 ^ 16 := by decide
      obtain ⟨honce, htwice⟩ := Json.weight_int_le (k := 16) (by decide) (Nat.lt_of_le_of_lt hle hsafe)
      have hboth := Json.weight_bothLen (.num (toString n))
      exact ⟨by show weight Char.utf8Size (.num (toString n)) ≤ 256; omega,
        by show weight bothLen (.num (toString n)) ≤ 768; omega⟩
  · cases h
/-- A request keeps the parameters of its message, and its identifier if that is short. -/
theorem request_of_decodeObject {fields : Json.Fields} {r : Request}
    (h : decodeObject fields = .ok r) : r.params = Json.get fields "params" ∧
      ∀ key, r.key = some key → ShortId key.value := by
  unfold decodeObject at h
  obtain ⟨⟨id, key'⟩, hid, h⟩ := bind_eq_ok.mp h
  obtain ⟨-, h⟩ := ensure_bind_eq_ok.mp h
  split at h
  · cases h
  · obtain ⟨-, h⟩ := ensure_bind_eq_ok.mp h
    obtain ⟨-, h⟩ := ensure_bind_eq_ok.mp h
    obtain ⟨-, h⟩ := ensure_bind_eq_ok.mp h
    cases h
    refine ⟨rfl, fun key hkey => ?_⟩
    subst hkey
    exact shortId_of_key hid

theorem decodeObject_of_decode {parse : List UInt8 → Option Json} {bytes : List UInt8} {r : Request}
    (h : decode parse (.line bytes) = .ok (some r)) :
    ∃ fields, parse bytes = some (.obj fields) ∧ decodeObject fields = .ok r := by
  unfold decode at h
  cases hvalue : decodeValue (parse bytes) with
  | error e =>
      simp only [hvalue] at h
      cases h
  | ok r' =>
      simp only [hvalue] at h
      cases h
      unfold decodeValue at hvalue
      split at hvalue
      · cases hvalue
      · exact ⟨_, ‹_›, hvalue⟩
      · cases hvalue

/-- **What an admitted request is made of**: an identifier that is short, and strings of the
message. -/
theorem admitted_of_handle {parsers : Parsers} {s s' : Session} {bytes : List UInt8}
    (h : handle parsers s (.line bytes) = (.admitted a, s')) :
    ShortId a.id ∧ ∃ message, parsers.json bytes = some message ∧ ∀ name args v,
      a.action = .call name args → args = some v → v.texts ⊆ message.texts := by
  unfold handle at h
  split at h
  · cases h
  · cases h
  · rename_i r hdecode
    obtain ⟨fields, hparse, hobject⟩ := decodeObject_of_decode hdecode
    obtain ⟨hparams, hshort⟩ := request_of_decodeObject hobject
    unfold Session.accept at h
    split at h
    · cases h
    · rename_i key hkey
      rw [decode_key hdecode hkey] at h
      unfold Session.request at h
      split at h
      · cases h
      · split at h
        · cases h
        · rename_i target action hvalid
          split at h
          · cases h
          · cases h
            refine ⟨hshort key hkey, .obj fields, hparse, fun name args v haction hv => ?_⟩
            have haction : action = .call name args := haction
            subst haction
            obtain ⟨p, hp, hsub⟩ := args_of_validate hvalid hv
            exact fun t ht => Json.texts_of_get (hparams.symm.trans hp) (hsub ht)

theorem mem_of_invalidWorkspace {path : String} (h : invalidWorkspace name args = some (.str path)) :
    ∃ v, args = some v ∧ path ∈ v.texts := by
  unfold invalidWorkspace at h
  obtain ⟨fields, hfields, h⟩ := Option.bind_eq_some_iff.mp h
  obtain ⟨v, hv, hobject⟩ := Option.bind_eq_some_iff.mp hfields
  obtain ⟨value, hvalue, h⟩ := Option.bind_eq_some_iff.mp h
  have heq : value = .str path := by
    split at h
    · split at h
      · exact Option.some.inj h
      · cases h
    · cases h
  subst heq
  refine ⟨v, hv, ?_⟩
  rw [Json.obj_of_asObject hobject]
  exact Json.texts_of_get hvalue (List.mem_singleton_self path)

theorem mem_of_asked {path : String}
    (h : (args.bind Json.asObject?).bind (stringField · "workspace") = some path) :
    ∃ v, args = some v ∧ path ∈ v.texts := by
  obtain ⟨fields, hfields, h⟩ := Option.bind_eq_some_iff.mp h
  obtain ⟨v, hv, hobject⟩ := Option.bind_eq_some_iff.mp hfields
  obtain ⟨value, hvalue, hstring⟩ := Option.bind_eq_some_iff.mp h
  refine ⟨v, hv, ?_⟩
  rw [Json.obj_of_asObject hobject]
  rw [Json.str_of_asStr hstring] at hvalue
  exact Json.texts_of_get hvalue (List.mem_singleton_self path)

/-! ### The wire -/

/-- **Whatever a tool call comes to fits**, if the strings of its arguments are those of a frame. -/
theorem callResult_fits (hid : ShortId id)
    (hargs : ∀ v, args = some v → ∀ t ∈ v.texts, utf8Length t ≤ requestBytes) {result : Json}
    (h : CallResult id name args modern result) :
    weight Char.utf8Size (resultResponse id result) < responseBytes := by
  have hlong : requestBytes < 10 ^ 5 := by decide
  cases h with
  | refused launch check hrefused =>
      unfold prepareTool at hrefused ⊢
      cases hvalid : validateTool name args with
      | ok u => rw [hvalid] at hrefused; cases hrefused
      | error code =>
          refine toolResponse_fits hid ?_ modern
          refine Nat.le_trans (refusal_le hid name args code fun path hpath => ?_) (by decide)
          obtain ⟨v, hv, hmem⟩ := mem_of_invalidWorkspace hpath
          exact Nat.lt_of_le_of_lt (hargs v hv path hmem) hlong
  | answered answering check catchingUp =>
      exact toolResponse_fits hid
        (Nat.le_trans (answer_le hid name answering check catchingUp) (by decide)) modern
  | rootChanged selected catchingUp =>
      exact toolResponse_fits hid (Nat.le_trans
        (attributed_failure_le hid .rootChanged selected.root_fits catchingUp) (by decide)) modern
  | capacity selected catchingUp =>
      exact toolResponse_fits hid (Nat.le_trans
        (attributed_failure_le hid .checkoutCapacity selected.root_fits catchingUp) (by decide)) modern
  | selection error path hasked =>
      have hpath : utf8Length path < 10 ^ 5 := by
        rcases hasked with hasked | ⟨launch, rfl⟩
        · obtain ⟨v, hv, hmem⟩ := mem_of_asked hasked
          exact Nat.lt_of_le_of_lt (hargs v hv path hmem) hlong
        · exact Nat.lt_of_le_of_lt launch.root_fits (by decide)
      exact toolResponse_fits hid
        (Nat.le_trans (selectionFailure_le hid error hpath) (by decide)) modern

def catalogBytes : Nat := 43249

theorem resultResponse_fits (hid : ShortId id) {result : Json}
    (h : weight Char.utf8Size result ≤ 65000) :
    weight Char.utf8Size (resultResponse id result) < responseBytes := by
  have hfixed : weight Char.utf8Size (resultResponse .null .null) ≤ 50 := by decide +kernel
  have hweight := weight_resultResponse Char.utf8Size id result
  have honce := hid.once
  unfold responseBytes
  omega

theorem listTools_le {entries : List Json} (h : weight Char.utf8Size (.arr entries) ≤ catalogBytes)
    (modern : Bool) : weight Char.utf8Size (listTools entries modern) ≤ 65000 := by
  have hfixed : weight Char.utf8Size ((listTools [] modern).set "tools" .null) ≤ 100 := by
    cases modern <;> decide +kernel
  have hweight := weight_listTools Char.utf8Size entries modern
  unfold catalogBytes at h
  omega

theorem responseTo_result (h : a.action ≠ .unknown) (result : Json) :
    responseTo a result = resultResponse a.id result := by
  unfold responseTo
  split
  · exact absurd ‹_› h
  · rfl

theorem answers_fit {entries : List Json} (hcatalog : weight Char.utf8Size (.arr entries) ≤ catalogBytes) (hid : ShortId a.id)
    (hargs : ∀ name args v, a.action = .call name args → args = some v →
      ∀ t ∈ v.texts, utf8Length t ≤ requestBytes)
    {response : Json} (h : Answers entries a response) :
    weight Char.utf8Size response < responseBytes := by
  cases h with
  | discover haction | initialization haction =>
      rw [responseTo_result fun hunknown => by rw [haction] at hunknown; cases hunknown]
      exact resultResponse_fits hid (by decide +kernel)
  | list haction modern =>
      rw [responseTo_result fun hunknown => by rw [haction] at hunknown; cases hunknown]
      exact resultResponse_fits hid (listTools_le hcatalog modern)
  | unknown haction result =>
      have hresponse : responseTo a result = (ProtocolError.new (-32601) a.id).response := by
        unfold responseTo
        rw [haction]
      have hfixed : weight Char.utf8Size (ProtocolError.new (-32601) .null).response ≤ 80 := by
        decide +kernel
      have hweight := weight_unknownMethod Char.utf8Size a.id
      have honce := hid.once
      rw [hresponse]
      unfold responseBytes
      omega
  | call haction modern hcalled =>
      rw [responseTo_result fun hunknown => by rw [haction] at hunknown; cases hunknown]
      exact callResult_fits hid (fun v hv => hargs _ _ v haction hv) hcalled

/-- **Every admitted request gets its response.**  Whatever frame of at most `requestBytes` a
session admits, and whatever comes of it, the response and its line feed fit into a frame, so
`writeResponse` writes them.  Of the parser it is used that no string it reads is longer than what
it reads, and of the catalog how long it is. -/
theorem response_written {parsers : Parsers} {s s' : Session} {bytes : List UInt8} {a : Admission}
    {entries : List Json} {response : Json}
    (hstrings : ∀ message, parsers.json bytes = some message →
      ∀ t ∈ message.texts, utf8Length t ≤ bytes.length)
    (hcatalog : weight Char.utf8Size (.arr entries) ≤ catalogBytes)
    (hbytes : bytes.length ≤ requestBytes)
    (hadmitted : handle parsers s (.line bytes) = (.admitted a, s'))
    (hanswer : Answers entries a response) :
    writeResponse response = .ok (response.encode ++ ['\n']) ∧
      weigh Char.utf8Size (response.encode ++ ['\n']) ≤ responseBytes := by
  obtain ⟨hid, message, hparse, htexts⟩ := admitted_of_handle hadmitted
  have hfits := answers_fit hcatalog hid (fun name args v haction hv t ht =>
    Nat.le_trans (hstrings message hparse t (htexts name args v haction hv ht)) hbytes) hanswer
  rw [← Json.weigh_encode] at hfits
  have hfeed : weigh Char.utf8Size ['\n'] = 1 := by decide
  refine ⟨?_, ?_⟩
  · unfold writeResponse
    rw [if_neg (by omega)]
  · rw [Json.weigh_append, hfeed]; exact hfits

def describing : Json :=
  .obj [("jsonrpc", .str "2.0"), ("id", .num "7"), ("method", .str "tools/call"),
    ("params", .obj [("name", .str "trellis_workspace_describe"),
      ("arguments", .obj [("schemaVersion", .num "1")])])]

def describingBytes : List UInt8 := describing.emit.flatMap String.utf8EncodeChar

theorem response_written_describing :
    let parsers : Parsers := ⟨fun bytes => if bytes = describingBytes then some describing else none,
      fun _ => true⟩
    let workspace : OpenedWorkspace := ⟨"/work/sample", "sample", by decide, by decide⟩
    let response := resultResponse (.num "7") (toolResult ((answer "trellis_workspace_describe"
      (.num "7") workspace (.ok ())).set "catchingUp" (.bool false)) false)
    ∃ a s', handle parsers ⟨.legacyReady, 0, []⟩ (.line describingBytes) = (.admitted a, s') ∧
      Answers [] a response ∧ writeResponse response = .ok (response.encode ++ ['\n']) := by
  intro parsers workspace response
  have hparse : parsers.json describingBytes = some describing := by
    show (if describingBytes = describingBytes then some describing else none) = some describing
    rw [if_pos rfl]
  have hhandle : handle parsers ⟨.legacyReady, 0, []⟩ (.line describingBytes) =
      (.admitted ⟨1, .num "7", .call "trellis_workspace_describe"
          (some (.obj [("schemaVersion", .num "1")]))⟩,
        ⟨.legacyReady, 1, [⟨.integer 7, ⟨1, .num "7", .call "trellis_workspace_describe"
          (some (.obj [("schemaVersion", .num "1")]))⟩⟩]⟩) := by
    have hdecode : decode parsers.json (.line describingBytes) =
        (decodeValue (some describing)).map some := by
      rw [← hparse]
      rfl
    unfold handle
    rw [hdecode]
    rfl
  have hanswer : Answers [] ⟨1, .num "7", .call "trellis_workspace_describe"
      (some (.obj [("schemaVersion", .num "1")]))⟩ response :=
    .call rfl false (.answered workspace (.ok ()) false)
  have hlength : describingBytes.length ≤ requestBytes := by decide +kernel
  have hstrings : ∀ t ∈ describing.texts, utf8Length t ≤ describingBytes.length := by
    decide +kernel
  refine ⟨_, _, hhandle, hanswer, (response_written (fun message hmessage => ?_) (by decide)
    hlength hhandle hanswer).1⟩
  rw [hparse] at hmessage
  cases hmessage
  exact hstrings

end Baleyg.Mcp
