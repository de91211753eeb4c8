/-
Anchors: what a note is attached to, and whether it still is.

An anchor remembers a declaration by its identity, by the hash of its header, and by the hash
of the headers of its whole sibling group.  Identities count siblings, so an edit can move
one to another declaration.  The audit therefore goes by headers: where the header was and is
the only one of its kind among the siblings it says who is meant, and where it is not the
group must be the one it was, with someone to say so if the revision is another.
-/
import Baleyg.Native.Identity

namespace Baleyg.Native

open Fallible (ensure bind_eq_ok ensure_eq_ok ensure_bind_eq_ok)

/-! ### Hashes of headers -/

namespace Parameter

def json (p : Parameter) : Value := .object
  [("name", .ofOption .string p.name), ("type", .ofOption .string p.typeName),
    ("variadic", .bool p.variadic)]

end Parameter

namespace Header

def json (h : Header) : Value := .object
  [("kind", .string h.kind.text), ("name", .ofOption .string h.name),
    ("modifiers", .array (h.modifiers.map .string)),
    ("typeParameters", .array (h.typeParameters.map .string)),
    ("parameters", .array (h.parameters.map Parameter.json)),
    ("resultType", .ofOption .string h.resultType), ("bases", .array (h.bases.map .string))]

end Header

def headerHash (sha : Sha256) (h : Header) : String :=
  sha.digest "trellis.header.v1\x00" h.json.canonical

def siblingGroupHash (sha : Sha256) (headers : List String) : String :=
  sha.digest "trellis.sibling-group.v1\x00"
    (Value.canonical (.object [("headers", .array (headers.map .string))]))

/-! ### The siblings of a declaration -/

def sameGroup (left right : Declaration) : Prop :=
  left.document = right.document ∧ left.ancestors = right.ancestors ∧ left.kind = right.kind ∧
    left.name = right.name ∧ left.key.signature = right.key.signature

instance (left right : Declaration) : Decidable (sameGroup left right) :=
  inferInstanceAs (Decidable (_ ∧ _))

/-- The declarations of a group, in the order of their ranges. -/
def siblings (focused : Declaration) (declarations : List Declaration) : List Declaration :=
  (declarations.filter fun row => sameGroup focused row).mergeSort
    fun a b => a.range.le b.range

def measuredGroup (focused : Declaration) (declarations : List Declaration) :
    Except String (List Declaration) := do
  let group := siblings focused declarations
  ensure (group ≠ [] ∧ ∃ row ∈ group, row.syntaxId = focused.syntaxId)
    "invalid anchor sibling group"
  group.zipIdx.forM fun (row, ordinal) => do
    ensure (row.key.ordinal = ordinal) "invalid anchor sibling ordinal"
    ensure (row.revisionId = focused.revisionId) "invalid anchor sibling revision"
  pure group

/-! ### Anchors -/

structure DurableAnchor where
  syntaxId : String
  document : DocumentKey
  capturedRevisionId : String
  headerHash : String
  siblingGroupHash : String
  siblingCount : Nat
  identicalHeaderCount : Nat
  deriving DecidableEq, Repr

namespace DurableAnchor

/-- `DurableAnchor::validate`, of an anchor whose language is one there is. -/
def validate (a : DurableAnchor) : Except String Unit := do
  ensure (validSyntaxId a.syntaxId = true) "invalid durable anchor syntaxId"
  ensure (a.document.sourceSetId ≠ "" ∧ a.capturedRevisionId ≠ "")
    "invalid durable anchor document/revision"
  ensure (a.document.path ≠ "" ∧ a.document.path.toList.head? ≠ some '/' ∧
      '\x5c' ∉ a.document.path.toList ∧ '\x00' ∉ a.document.path.toList ∧
      ∀ part ∈ a.document.path.toList.splitOn '/', part ≠ [] ∧ part ≠ ['.'] ∧ part ≠ ['.', '.'])
    "invalid durable anchor document path"
  ensure (validHash a.headerHash = true ∧ validHash a.siblingGroupHash = true)
    "invalid durable anchor hash"
  ensure (0 < a.siblingCount ∧ 0 < a.identicalHeaderCount ∧
      a.identicalHeaderCount ≤ a.siblingCount) "invalid durable anchor counts"

end DurableAnchor

def headersOf (sha : Sha256) (group : List Declaration) : List String :=
  group.map fun row => headerHash sha row.header

def captureAnchor (sha : Sha256) (focused : Declaration) (declarations : List Declaration) :
    Except String DurableAnchor := do
  let group ← measuredGroup focused declarations
  let headers := headersOf sha group
  let anchor : DurableAnchor :=
    { syntaxId := focused.syntaxId
      document := focused.document
      capturedRevisionId := focused.revisionId
      headerHash := headerHash sha focused.header
      siblingGroupHash := siblingGroupHash sha headers
      siblingCount := headers.length
      identicalHeaderCount := headers.count (headerHash sha focused.header) }
  anchor.validate
  pure anchor

inductive ContinuityState where
  | unchanged
  | changed
  | unknown
  deriving DecidableEq, Repr

structure GroupContinuity where
  fromRevisionId : String
  toRevisionId : String
  state : ContinuityState
  evidence : Option String
  deriving DecidableEq, Repr

def isWhitespace (c : Char) : Bool :=
  let n := c.toNat
  (9 ≤ n && n ≤ 13) || n == 32 || n == 133 || n == 160 || n == 5760 ||
    (8192 ≤ n && n ≤ 8202) || n == 8232 || n == 8233 || n == 8239 || n == 8287 || n == 12288

/-- `value.trim().is_empty()`. -/
def isBlank (value : String) : Bool := value.toList.all isWhitespace

namespace GroupContinuity

def validate (c : GroupContinuity) (anchor : DurableAnchor) (currentRevisionId : String) :
    Except String Unit := do
  ensure (c.fromRevisionId = anchor.capturedRevisionId ∧ c.toRevisionId = currentRevisionId)
    "invalid anchor continuity endpoints"
  match c.state with
  | .unknown =>
      ensure (c.evidence = none) "unknown anchor continuity cannot contain evidence"
  | .unchanged =>
      if anchor.capturedRevisionId ≠ currentRevisionId then
        ensure (∃ value ∈ c.evidence, isBlank value = false)
          "cross-revision unchanged continuity requires independent evidence"
      else pure ()
  | .changed => pure ()

/-- The continuity there is where none is given. -/
def default (anchor : DurableAnchor) (currentRevisionId : String) : GroupContinuity :=
  ⟨anchor.capturedRevisionId, currentRevisionId,
    if anchor.capturedRevisionId = currentRevisionId then .unchanged else .unknown, none⟩

end GroupContinuity

/-! ### The audit -/

inductive AnchorStatus where
  | attached
  | orphaned
  deriving DecidableEq, Repr

inductive AnchorReason where
  | none
  | missing
  | headerMismatch
  | groupChanged
  | unprovenContinuity
  deriving DecidableEq, Repr

structure AnchorResult where
  status : AnchorStatus
  targetId : Option String
  reason : AnchorReason
  deriving DecidableEq, Repr

namespace AnchorResult

def attached (id : String) : AnchorResult := ⟨.attached, some id, .none⟩

def orphaned (reason : AnchorReason) : AnchorResult := ⟨.orphaned, none, reason⟩

end AnchorResult

/-- The verdict of `audit_anchor` on a group of the captured header. -/
def verdict (sha : Sha256) (anchor : DurableAnchor) (currentRevisionId : String)
    (headers : List String) (continuity : GroupContinuity) : AnchorResult :=
  let identical := headers.count anchor.headerHash
  if anchor.identicalHeaderCount > 1 ∨ identical > 1 then
    if siblingGroupHash sha headers ≠ anchor.siblingGroupHash ∨
        headers.length ≠ anchor.siblingCount ∨ identical ≠ anchor.identicalHeaderCount ∨
        anchor.capturedRevisionId ≠ currentRevisionId ∧ continuity.state = .changed then
      .orphaned .groupChanged
    else if anchor.capturedRevisionId ≠ currentRevisionId ∧ continuity.state ≠ .unchanged then
      .orphaned .unprovenContinuity
    else .attached anchor.syntaxId
  else .attached anchor.syntaxId

def auditAnchor (sha : Sha256) (anchor : DurableAnchor) (currentRevisionId : String)
    (current : Option Declaration) (declarations : List Declaration)
    (continuity : Option GroupContinuity) : Except String AnchorResult := do
  anchor.validate
  ensure (currentRevisionId ≠ "") "invalid current anchor revision"
  let continuity := continuity.getD (.default anchor currentRevisionId)
  continuity.validate anchor currentRevisionId
  match current with
  | none => pure (.orphaned .missing)
  | some current => do
      ensure (current.syntaxId = anchor.syntaxId) "invalid current anchor identity"
      ensure (current.document = anchor.document ∧ current.revisionId = currentRevisionId)
        "invalid current anchor document/revision"
      if headerHash sha current.header ≠ anchor.headerHash then
        pure (.orphaned .headerMismatch)
      else do
        let group ← measuredGroup current declarations
        ensure (∀ row ∈ group, row.document = anchor.document ∧
            row.revisionId = currentRevisionId) "invalid current anchor group association"
        pure (verdict sha anchor currentRevisionId (headersOf sha group) continuity)

def findSelected (syntaxId : String) (declarations : List Declaration) :
    Except String Declaration :=
  match declarations.filter fun row => row.syntaxId = syntaxId with
  | [] => throw "native declaration target missing"
  | [row] => pure row
  | _ :: _ :: _ => throw "ambiguous native declaration target"

/-! ### What an audit that attaches has seen -/

section Audit

variable {sha : Sha256} {anchor : DurableAnchor} {revision id : String} {current : Declaration}
  {declarations group : List Declaration} {continuity : Option GroupContinuity}

variable {focused : Declaration}

theorem mem_siblings {row : Declaration} :
    row ∈ siblings focused declarations ↔ row ∈ declarations ∧ sameGroup focused row := by
  unfold siblings
  rw [(List.mergeSort_perm _ _).mem_iff, List.mem_filter, decide_eq_true_iff]

/-- **All a measured group is.** -/
theorem measuredGroup_eq_ok : measuredGroup focused declarations = .ok group ↔
      group = siblings focused declarations ∧
        (group ≠ [] ∧ ∃ row ∈ group, row.syntaxId = focused.syntaxId) ∧
        ∀ row ∈ group.zipIdx, row.1.key.ordinal = row.2 ∧
          row.1.revisionId = focused.revisionId := by
  unfold measuredGroup
  rw [ensure_bind_eq_ok, bind_eq_ok]
  constructor
  · rintro ⟨hgroup, _, hrows, hpure⟩
    obtain rfl := Except.ok.inj hpure
    refine ⟨rfl, hgroup, fun row hrow => ?_⟩
    obtain ⟨hordinal, hrevision⟩ :=
      ensure_bind_eq_ok.mp (Fallible.forM_eq_ok.mp hrows row hrow)
    exact ⟨hordinal, ensure_eq_ok.mp hrevision⟩
  · rintro ⟨rfl, hgroup, hrows⟩
    exact ⟨hgroup, ⟨⟩, Fallible.forM_eq_ok.mpr fun row hrow =>
      ensure_bind_eq_ok.mpr ⟨(hrows row hrow).1, ensure_eq_ok.mpr (hrows row hrow).2⟩, rfl⟩

theorem mem_of_measuredGroup (h : measuredGroup focused declarations = .ok group)
    (hmem : focused ∈ declarations) : focused ∈ group := by
  obtain ⟨rfl, -⟩ := measuredGroup_eq_ok.mp h
  exact mem_siblings.mpr ⟨hmem, rfl, rfl, rfl, rfl, rfl⟩

/-- The captured group is the current one, and someone says so where the revision is another. -/
def Continues (sha : Sha256) (anchor : DurableAnchor) (revision : String)
    (continuity : Option GroupContinuity) (headers : List String) : Prop :=
  siblingGroupHash sha headers = anchor.siblingGroupHash ∧ headers.length = anchor.siblingCount ∧
    headers.count anchor.headerHash = anchor.identicalHeaderCount ∧
    (anchor.capturedRevisionId = revision ∨
      ∃ c ∈ continuity, c.state = .unchanged ∧ c.fromRevisionId = anchor.capturedRevisionId ∧
        c.toRevisionId = revision ∧ ∃ evidence ∈ c.evidence, isBlank evidence = false)

/-- A continuity that says unchanged across revisions is one that was given, with evidence. -/
theorem given_of_unchanged (hne : anchor.capturedRevisionId ≠ revision)
    (hvalid : (continuity.getD (.default anchor revision)).validate anchor revision = .ok ())
    (hstate : (continuity.getD (.default anchor revision)).state = .unchanged) :
    ∃ c ∈ continuity, c.state = .unchanged ∧ c.fromRevisionId = anchor.capturedRevisionId ∧
      c.toRevisionId = revision ∧ ∃ evidence ∈ c.evidence, isBlank evidence = false := by
  cases continuity with
  | none =>
      unfold GroupContinuity.default at hstate
      simp only [Option.getD_none, if_neg hne] at hstate
      cases hstate
  | some c =>
      simp only [Option.getD_some] at hvalid hstate
      unfold GroupContinuity.validate at hvalid
      obtain ⟨hends, hvalid⟩ := ensure_bind_eq_ok.mp hvalid
      rw [hstate] at hvalid
      simp only [if_pos hne] at hvalid
      exact ⟨c, rfl, hstate, hends.1, hends.2, ensure_eq_ok.mp hvalid⟩

/-- **What attaches.**  The header is the captured one, and it was and is the only one of its
kind or the group goes on. -/
theorem attached_of_verdict {headers : List String} (hcount : 0 < headers.count anchor.headerHash)
    (hanchor : 0 < anchor.identicalHeaderCount)
    (hvalid : (continuity.getD (.default anchor revision)).validate anchor revision = .ok ())
    (h : (verdict sha anchor revision headers
      (continuity.getD (.default anchor revision))).status = .attached) :
    verdict sha anchor revision headers (continuity.getD (.default anchor revision)) =
        .attached anchor.syntaxId ∧
      ((anchor.identicalHeaderCount = 1 ∧ headers.count anchor.headerHash = 1) ∨
        Continues sha anchor revision continuity headers) := by
  unfold verdict at h ⊢
  by_cases hmany : anchor.identicalHeaderCount > 1 ∨ headers.count anchor.headerHash > 1
  · simp only [if_pos hmany] at h ⊢
    by_cases hchanged : siblingGroupHash sha headers ≠ anchor.siblingGroupHash ∨
        headers.length ≠ anchor.siblingCount ∨
        headers.count anchor.headerHash ≠ anchor.identicalHeaderCount ∨
        anchor.capturedRevisionId ≠ revision ∧
          (continuity.getD (.default anchor revision)).state = .changed
    · rw [if_pos hchanged] at h; cases h
    · rw [if_neg hchanged] at h ⊢
      rw [not_or, not_or, not_or, not_not, not_not, not_not] at hchanged
      obtain ⟨hgroup, hlength, hidentical, -⟩ := hchanged
      by_cases hunproven : anchor.capturedRevisionId ≠ revision ∧
          (continuity.getD (.default anchor revision)).state ≠ .unchanged
      · rw [if_pos hunproven] at h; cases h
      · rw [if_neg hunproven]
        refine ⟨rfl, .inr ⟨hgroup, hlength, hidentical, ?_⟩⟩
        by_cases hsame : anchor.capturedRevisionId = revision
        · exact .inl hsame
        · refine .inr (given_of_unchanged hsame hvalid ?_)
          by_contra hstate
          exact hunproven ⟨hsame, hstate⟩
  · simp only [if_neg hmany]
    refine ⟨trivial, .inl ?_⟩
    omega

/-- **All an audit that attaches has seen.** -/
theorem auditAnchor_attached {current : Option Declaration} {result : AnchorResult}
    (hcurrent : ∀ row ∈ current, row ∈ declarations)
    (h : auditAnchor sha anchor revision current declarations continuity = .ok result)
    (hstatus : result.status = .attached) :
    ∃ row ∈ current, result = .attached row.syntaxId ∧ row.syntaxId = anchor.syntaxId ∧
      headerHash sha row.header = anchor.headerHash ∧
      ((anchor.identicalHeaderCount = 1 ∧
          (headersOf sha (siblings row declarations)).count anchor.headerHash = 1) ∨
        Continues sha anchor revision continuity (headersOf sha (siblings row declarations))) := by
  unfold auditAnchor at h
  obtain ⟨_, hanchor, h⟩ := bind_eq_ok.mp h
  obtain ⟨_, h⟩ := ensure_bind_eq_ok.mp h
  obtain ⟨_, hvalid, h⟩ := bind_eq_ok.mp h
  cases current with
  | none => cases h; cases hstatus
  | some row =>
      obtain ⟨hid, h⟩ := ensure_bind_eq_ok.mp h
      obtain ⟨_, h⟩ := ensure_bind_eq_ok.mp h
      by_cases hheader : headerHash sha row.header = anchor.headerHash
      · rw [if_neg (not_not.mpr hheader)] at h
        obtain ⟨group, hgroup, h⟩ := bind_eq_ok.mp h
        obtain ⟨_, h⟩ := ensure_bind_eq_ok.mp h
        have hmem := mem_of_measuredGroup hgroup (hcurrent row rfl)
        obtain ⟨rfl, -⟩ := measuredGroup_eq_ok.mp hgroup
        have hcount : 0 < (headersOf sha (siblings row declarations)).count anchor.headerHash := by
          rw [List.count_pos_iff, ← hheader]
          exact List.mem_map_of_mem hmem
        unfold DurableAnchor.validate at hanchor
        obtain ⟨-, hanchor⟩ := ensure_bind_eq_ok.mp hanchor
        obtain ⟨-, hanchor⟩ := ensure_bind_eq_ok.mp hanchor
        obtain ⟨-, hanchor⟩ := ensure_bind_eq_ok.mp hanchor
        obtain ⟨-, hanchor⟩ := ensure_bind_eq_ok.mp hanchor
        obtain ⟨-, hidentical, -⟩ := ensure_eq_ok.mp hanchor
        rw [← Except.ok.inj h] at hstatus ⊢
        obtain ⟨hattached, hcases⟩ := attached_of_verdict hcount hidentical hvalid hstatus
        exact ⟨row, rfl, hid.symm ▸ hattached, hid, hheader, hcases⟩
      · rw [if_pos hheader] at h
        cases h
        cases hstatus

/-- A continuity between a revision and itself asks for nothing to attach. -/
theorem verdict_self {headers : List String} {c : GroupContinuity}
    (hgroup : anchor.siblingGroupHash = siblingGroupHash sha headers)
    (hlength : anchor.siblingCount = headers.length)
    (hcount : anchor.identicalHeaderCount = headers.count anchor.headerHash) :
    verdict sha anchor anchor.capturedRevisionId headers c = .attached anchor.syntaxId := by
  unfold verdict
  by_cases hmany : anchor.identicalHeaderCount > 1 ∨ headers.count anchor.headerHash > 1
  · simp only [if_pos hmany]
    rw [if_neg (by simp [hgroup, hlength, hcount]), if_neg (by simp)]
  · simp only [if_neg hmany]

theorem captureAnchor_ids (h : captureAnchor sha focused declarations = .ok anchor) :
    anchor.syntaxId = focused.syntaxId ∧ anchor.capturedRevisionId = focused.revisionId := by
  unfold captureAnchor at h
  obtain ⟨_, _, h⟩ := bind_eq_ok.mp h
  obtain ⟨_, _, h⟩ := bind_eq_ok.mp h
  obtain rfl := Except.ok.inj h
  exact ⟨rfl, rfl⟩

theorem default_valid (h : anchor.capturedRevisionId = revision) :
    (GroupContinuity.default anchor revision).validate anchor revision = .ok () := by
  unfold GroupContinuity.validate GroupContinuity.default
  rw [ensure_bind_eq_ok]
  refine ⟨⟨rfl, rfl⟩, ?_⟩
  simp only [if_pos h]
  rw [if_neg (not_not.mpr h)]
  rfl

theorem findSelected_eq_ok {row : Declaration} (h : findSelected id declarations = .ok row) :
    row ∈ declarations ∧ row.syntaxId = id ∧
      declarations.find? (fun d => d.syntaxId = id) = some row := by
  unfold findSelected at h
  cases hfilter : declarations.filter fun d => d.syntaxId = id with
  | nil => rw [hfilter] at h; cases h
  | cons first rest =>
      rw [hfilter] at h
      cases rest with
      | nil =>
          cases h
          have hmem : row ∈ declarations.filter fun d => d.syntaxId = id := by
            rw [hfilter]
            exact List.mem_cons_self
          rw [List.mem_filter, decide_eq_true_iff] at hmem
          refine ⟨hmem.1, hmem.2, ?_⟩
          rw [← List.head?_filter, hfilter]
          rfl
      | cons second rest => cases h

/-- **An anchor attaches where it was captured.** -/
theorem auditAnchor_captured {c : GroupContinuity}
    (hcapture : captureAnchor sha focused declarations = .ok anchor)
    (hcontinuity : continuity.getD (.default anchor focused.revisionId) = c)
    (hvalid : c.validate anchor focused.revisionId = .ok ()) :
    auditAnchor sha anchor focused.revisionId (some focused) declarations continuity =
      .ok (.attached focused.syntaxId) := by
  unfold captureAnchor at hcapture
  obtain ⟨group, hgroup, hcapture⟩ := bind_eq_ok.mp hcapture
  obtain ⟨_, hanchor, hcapture⟩ := bind_eq_ok.mp hcapture
  obtain rfl := Except.ok.inj hcapture
  obtain ⟨rfl, -, hrows⟩ := measuredGroup_eq_ok.mp hgroup
  have hrevision : focused.revisionId ≠ "" := by
    unfold DurableAnchor.validate at hanchor
    obtain ⟨-, hanchor⟩ := ensure_bind_eq_ok.mp hanchor
    obtain ⟨⟨-, hrevision⟩, -⟩ := ensure_bind_eq_ok.mp hanchor
    exact hrevision
  unfold auditAnchor
  refine bind_eq_ok.mpr ⟨(), hanchor, ensure_bind_eq_ok.mpr ⟨hrevision, ?_⟩⟩
  rw [hcontinuity]
  refine bind_eq_ok.mpr ⟨(), hvalid, ensure_bind_eq_ok.mpr ⟨rfl, ensure_bind_eq_ok.mpr
    ⟨⟨rfl, rfl⟩, ?_⟩⟩⟩
  rw [if_neg (not_not.mpr rfl)]
  refine bind_eq_ok.mpr ⟨_, hgroup, ensure_bind_eq_ok.mpr ⟨fun row hrow => ?_, ?_⟩⟩
  · obtain ⟨i, hi⟩ : ∃ i, (row, i) ∈ (siblings focused declarations).zipIdx := by
      rw [← List.zipIdx_map_fst 0 (siblings focused declarations)] at hrow
      obtain ⟨entry, hentry, rfl⟩ := List.mem_map.mp hrow
      exact ⟨entry.2, hentry⟩
    exact ⟨(mem_siblings.mp hrow).2.1.symm, (hrows (row, i) hi).2⟩
  · exact congrArg Except.ok (verdict_self rfl rfl rfl)

end Audit

/-- **An audit never attaches to the wrong declaration.**  Where it attaches, the target is one
of the declarations with the captured identity and the captured header, and that header was
and is the only one of its kind in the group, or the group goes on as `Continues` says.  And
an anchor attaches, in the revision it was captured in, to what it was captured from. -/
theorem auditAnchor_sound (sha : Sha256) :
    (∀ (anchor : DurableAnchor) (revision : String) (current : Option Declaration)
        (declarations : List Declaration) (continuity : Option GroupContinuity)
        (result : AnchorResult), (∀ row ∈ current, row ∈ declarations) →
        auditAnchor sha anchor revision current declarations continuity = .ok result →
        result.status = .attached →
        ∃ row ∈ current, result = .attached row.syntaxId ∧ row.syntaxId = anchor.syntaxId ∧
          headerHash sha row.header = anchor.headerHash ∧
          ((anchor.identicalHeaderCount = 1 ∧
              (headersOf sha (siblings row declarations)).count anchor.headerHash = 1) ∨
            Continues sha anchor revision continuity
              (headersOf sha (siblings row declarations)))) ∧
      ∀ (target : String) (declarations : List Declaration) (focused : Declaration)
        (anchor : DurableAnchor) (continuity : Option GroupContinuity),
        findSelected target declarations = .ok focused →
        captureAnchor sha focused declarations = .ok anchor →
        (∀ c ∈ continuity, c.validate anchor focused.revisionId = .ok ()) →
        (declarations.find? fun row => row.syntaxId = anchor.syntaxId) = some focused ∧
          auditAnchor sha anchor focused.revisionId
            (declarations.find? fun row => row.syntaxId = anchor.syntaxId) declarations
            continuity = .ok (.attached target) := by
  refine ⟨fun anchor revision current declarations continuity result hcurrent h hstatus =>
    auditAnchor_attached hcurrent h hstatus, ?_⟩
  intro target declarations focused anchor continuity hselected hcapture hcontinuity
  obtain ⟨-, hid, hfind⟩ := findSelected_eq_ok hselected
  obtain ⟨hanchor, hrevision⟩ := captureAnchor_ids hcapture
  have hvalid : (continuity.getD (.default anchor focused.revisionId)).validate anchor
      focused.revisionId = .ok () := by
    cases continuity with
    | none => exact default_valid hrevision
    | some c => exact hcontinuity c rfl
  rw [hanchor, hid, hfind]
  refine ⟨rfl, ?_⟩
  have hattached := auditAnchor_captured hcapture rfl hvalid
  rwa [hid] at hattached

namespace Anchored

def digits : String := "0123456789abcdef0123456789abcdef0123456789abcdef0123456789abcdef"

def sha : Sha256 := ⟨fun _ => digits, fun _ _ => digits, fun _ => by decide, fun _ _ => by decide⟩

/-- `fn run`, in a revision. -/
def run (revision : String) : Declaration :=
  { syntaxId := "sid:v1:0123456789abcdef0123456789abcdef"
    document := ⟨"source-set:v1:r", .rust, "src/lib.rs"⟩
    revisionId := revision
    kind := .function
    name := some "run"
    lookupKey := some "run"
    ancestors := []
    key := ⟨.function, some "run", none, 0⟩
    range := ⟨0, 10⟩
    nameRange := some ⟨3, 6⟩
    header := ⟨.function, some "run", ["pub"], [], [], none, []⟩
    provenanceId := "p" }

def anchor : DurableAnchor :=
  ⟨"sid:v1:0123456789abcdef0123456789abcdef", ⟨"source-set:v1:r", .rust, "src/lib.rs"⟩, "old",
    digits, digits, 1, 1⟩

theorem captured : captureAnchor sha (run "old") [run "old"] = .ok anchor := by decide +kernel

theorem audited : auditAnchor sha anchor "new" (some (run "new")) [run "new"] none =
    .ok (.attached anchor.syntaxId) := by decide +kernel

end Anchored

/-- `run` is found again in the next revision, and where it was. -/
theorem auditAnchor_run :
    (∃ row ∈ some (Anchored.run "new"),
      AnchorResult.attached Anchored.anchor.syntaxId = .attached row.syntaxId ∧
        row.syntaxId = Anchored.anchor.syntaxId ∧
        headerHash Anchored.sha row.header = Anchored.anchor.headerHash ∧
        ((Anchored.anchor.identicalHeaderCount = 1 ∧ (headersOf Anchored.sha
            (siblings row [Anchored.run "new"])).count Anchored.anchor.headerHash = 1) ∨
          Continues Anchored.sha Anchored.anchor "new" none
            (headersOf Anchored.sha (siblings row [Anchored.run "new"])))) ∧
      auditAnchor Anchored.sha Anchored.anchor "old"
        ([Anchored.run "old"].find? fun row => row.syntaxId = Anchored.anchor.syntaxId)
        [Anchored.run "old"] none = .ok (.attached Anchored.anchor.syntaxId) := by
  have hsound := auditAnchor_sound Anchored.sha
  refine ⟨hsound.1 Anchored.anchor "new" (some (Anchored.run "new")) [Anchored.run "new"] none _
    (fun row hrow => ?_) Anchored.audited rfl, ?_⟩
  · rw [← Option.some.inj hrow]; exact List.mem_cons_self
  · exact (hsound.2 Anchored.anchor.syntaxId [Anchored.run "old"] (Anchored.run "old")
      Anchored.anchor none (by decide +kernel) Anchored.captured
      fun c hc => absurd hc (Option.not_mem_none c)).2

end Baleyg.Native
