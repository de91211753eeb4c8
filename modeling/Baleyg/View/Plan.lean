/-
Question plans.

A question packet is a view of the calls a declaration makes, with its source, and a selection
says of each call how relevant it is.  A plan shows of the essential calls the best few: those of
the declaration itself first, and then by score and by source.  It shows them in the order of the
source, with the regions they stand in and every region around those.

Which region is around another is looked up by id, and of regions that repeat an id the last one
counts.  A packet is checked against accidental change only, so nothing stops it from repeating
one; where its regions have ids of their own, the parent of every region shown is shown.
-/
import Mathlib.Data.Prod.Lex
import Mathlib.Algebra.Order.Ring.Unbundled.Rat
import Baleyg.Lib.Climb
import Baleyg.Lib.Ranking
import Baleyg.Lib.Register
import Baleyg.View.Query

namespace Baleyg.View

open Fallible (ensure bind_eq_ok ensure_eq_ok ensure_bind_eq_ok)
open Native (SourceFile byteLength containsText)
open Relation (ReflTransGen)

/-! ### Requests, packets, and selections -/

def maxPacketBytes : Nat := 1024 * 1024

structure Unicode where
  whitespace : Char → Bool
  alphanumeric : Char → Bool
  lowercase : String → String

namespace Unicode

variable (u : Unicode)

def trim (s : String) : String :=
  String.ofList (((s.toList.dropWhile u.whitespace).reverse.dropWhile u.whitespace).reverse)

end Unicode

structure QuestionRequest (R : Type) where
  seed : String
  question : String
  expectedRevision : R
  evidenceDepth : Nat
  maxVisible : Nat
  allowDeeperDisplay : Bool
  focusTerms : List String

def QuestionRequest.validate {R : Type} (u : Unicode) (request : QuestionRequest R) :
    Except String Unit := do
  ensure (u.trim request.seed ≠ "" ∧ byteLength request.seed ≤ 8192)
    "seed must contain 1..8192 bytes"
  ensure (u.trim request.question ≠ "" ∧ byteLength request.question ≤ 8192)
    "question must contain 1..8192 bytes"
  ensure (request.evidenceDepth ≤ 3) "evidenceDepth must be at most 3"
  ensure (1 ≤ request.maxVisible ∧ request.maxVisible ≤ 12) "maxVisible must be 1..12"
  ensure (request.focusTerms.length ≤ 12 ∧
      ∀ term ∈ request.focusTerms, u.trim term ≠ "" ∧ byteLength term ≤ 256)
    "focusTerms must contain at most 12 nonempty terms of at most 256 bytes"

structure QuestionPacket (R : Type) where
  packetId : String
  revision : R
  request : QuestionRequest R
  context : ViewResult R
  sourceFiles : List SourceFile
  warnings : List String

inductive Relevance where
  | essential
  | supporting
  | incidental
  | uncertain
  deriving DecidableEq, Repr

/-- An `f64`, as far as it is compared. -/
inductive Score where
  | finite (value : ℚ)
  | infinite
  | nan
  deriving DecidableEq

structure CallDecision where
  candidateId : String
  relevance : Relevance
  displayScore : Option Score
  deriving DecidableEq

structure SelectionEnvelope where
  packetId : String
  decisions : List CallDecision
  deriving DecidableEq

structure FocusedView (R : Type) where
  packetId : String
  revision : R
  question : String
  selectionSource : String
  nodes : List Symbol
  calls : List CallSite
  regions : List ControlRegion
  supportingCount : Nat
  omittedCount : Nat
  uncertainCount : Nat
  policyHiddenCount : Nat
  warnings : List String

/-- What is made of the JSON of a packet: the digest of what its id covers, and its length. -/
structure PacketJson (R : Type) where
  digest : QuestionRequest R → R → ViewResult R → List SourceFile → List String → String
  length : QuestionPacket R → Nat

section Validate

variable {R : Type} [DecidableEq R] (u : Unicode) (json : PacketJson R)

/-- `packet_id`. -/
def packetIdOf (packet : QuestionPacket R) : String :=
  json.digest packet.request packet.revision packet.context packet.sourceFiles packet.warnings

def QuestionPacket.validate (packet : QuestionPacket R) : Except String Unit := do
  packet.request.validate u
  ensure (packet.revision = packet.request.expectedRevision ∧
    packet.revision = packet.context.revision) "revision conflict in packet"
  ensure (packet.context.query.seed = packet.request.seed) "packet seed mismatch"
  ensure (packet.packetId = packetIdOf json packet) "packet integrity mismatch"
  ensure (json.length packet ≤ maxPacketBytes) "complete question packet exceeds 1 MiB"

/-- `score.is_finite() && (0.0..=1.0).contains(&score)`. -/
def Score.Valid : Score → Prop
  | .finite value => 0 ≤ value ∧ value ≤ 1
  | .infinite | .nan => False

instance (score : Score) : Decidable score.Valid := by
  cases score <;> unfold Score.Valid <;> infer_instance

/-- The loop over the decisions, which returns what it has seen. -/
def checkDecisions (candidates : List String) :
    List CallDecision → List String → Except String (List String)
  | [], seen => pure seen
  | decision :: rest, seen => do
      ensure (∀ score ∈ decision.displayScore, score.Valid)
        "displayScore must be finite and within 0..1"
      ensure (decision.candidateId ∈ candidates) "unknown candidate ID"
      ensure (decision.candidateId ∉ seen) "duplicate candidate decision"
      checkDecisions candidates rest (decision.candidateId :: seen)

def SelectionEnvelope.validate (packet : QuestionPacket R) (selection : SelectionEnvelope) :
    Except String Unit := do
  packet.validate u json
  ensure (selection.packetId = packet.packetId) "selection packetId mismatch"
  let candidates := packet.context.calls.map CallSite.id
  ensure candidates.Nodup "duplicate context call IDs"
  let seen ← checkDecisions candidates selection.decisions []
  ensure ((∀ id ∈ seen, id ∈ candidates) ∧ ∀ id ∈ candidates, id ∈ seen)
    "missing candidate decisions"

end Validate

/-! ### Plans -/

section Assemble

variable {R : Type} [DecidableEq R] (u : Unicode) (json : PacketJson R)

def stopWords : List String :=
  ["the", "and", "are", "does", "how", "what", "where", "when", "which", "why", "this", "that",
    "with", "from", "for", "into", "calls", "call", "function"]

/-- `terms`: the focus terms, or else the words of the question. -/
def terms (request : QuestionRequest R) : List String :=
  if request.focusTerms ≠ [] then request.focusTerms.map fun t => u.lowercase (u.trim t)
  else
    let words := request.question.toList.splitOnP fun c => !u.alphanumeric c && c != '_'
    orderedSet ((words.map fun word => u.lowercase (String.ofList word)).filter fun t =>
      2 < byteLength t && !(stopWords.contains t))

/-- What a selection says of a call; a valid one says something of each. -/
def SelectionEnvelope.relevance (selection : SelectionEnvelope) (c : CallSite) :
    Option Relevance :=
  (selection.decisions.find? fun d => d.candidateId = c.id).map CallDecision.relevance

def SelectionEnvelope.score (selection : SelectionEnvelope) (c : CallSite) : ℚ :=
  match (selection.decisions.find? fun d => d.candidateId = c.id).bind CallDecision.displayScore with
  | some (.finite value) => value
  | _ => 0

/-- What `source_order` compares. -/
abbrev SourceKey := String ×ₗ ℕ ×ₗ ℕᵒᵈ ×ₗ String

def sourceKey (c : CallSite) : SourceKey :=
  toLex (c.path, toLex (c.range.startByte, toLex (OrderDual.toDual c.range.endByte, c.id)))

/-- What the ranking compares: direct calls come first, then higher scores. -/
def rankKey (packet : QuestionPacket R) (selection : SelectionEnvelope) (c : CallSite) :
    Bool ×ₗ ℚᵒᵈ ×ₗ SourceKey :=
  toLex (decide (c.caller ≠ packet.request.seed),
    toLex (OrderDual.toDual (selection.score c), sourceKey c))

/-- `regions_by_id`: of regions that repeat an id the last one counts. -/
def QuestionPacket.regionById (packet : QuestionPacket R) (id : String) : Option ControlRegion :=
  packet.context.regions.reverse.find? fun r => r.id = id

omit [DecidableEq R] in
theorem mem_of_regionById {packet : QuestionPacket R} {id : String} {r : ControlRegion}
    (h : packet.regionById id = some r) : r ∈ packet.context.regions ∧ r.id = id :=
  ⟨List.mem_reverse.mp (List.mem_of_find?_eq_some h),
    of_decide_eq_true (List.find?_some (p := fun r : ControlRegion => r.id = id) h)⟩

def QuestionPacket.ladder (packet : QuestionPacket R) : Climb.Ladder String where
  up id := (packet.regionById id).bind ControlRegion.parent
  domain := packet.context.regions.map ControlRegion.id
  bounded := by
    intro id p hup
    obtain ⟨r, hfound, -⟩ := Option.bind_eq_some_iff.mp hup
    obtain ⟨hmem, rfl⟩ := mem_of_regionById hfound
    exact List.mem_map_of_mem hmem

def planWarnings (packet : QuestionPacket R) (selection : SelectionEnvelope) (source : String)
    (policyHidden : Nat) : List String :=
  let wanted := terms u packet.request
  let unmatched := wanted.filter fun t =>
    !(packet.context.calls.any fun c => containsText (u.lowercase (c.calleeText.getD "")) t)
  packet.warnings ++
    (if selection.decisions.any fun d => d.displayScore.isSome then
      ["Relative display scores are ranking hints, not calibrated confidence"] else []) ++
    ["Selection is relevance display, not proof of a target, class relation, callback execution, or answer."] ++
    (if source = "localPreview" ∨ source = "local" ∨ source = "preview" then
      ["Local preview—not Jev/ACP: deterministic literal callee-name matching only; no question understanding or semantic completeness claim."] ++
        if wanted = [] ∨ unmatched ≠ [] then
          ["Some question/focus terms have no literal callee-name match. Their meaning was not resolved; use manual selection or review evidence."]
        else []
      else []) ++
    if 0 < policyHidden then
      ["Display policy hid " ++ toString policyHidden ++
        " essential calls (direct-only policy or maxVisible); no lower-relevance calls were promoted."]
    else []

def essentialCalls (packet : QuestionPacket R) (selection : SelectionEnvelope) : List CallSite :=
  packet.context.calls.filter fun c => selection.relevance c = some .essential

def eligibleCalls (packet : QuestionPacket R) (selection : SelectionEnvelope) : List CallSite :=
  (essentialCalls packet selection).filter fun c =>
    packet.request.allowDeeperDisplay || c.caller = packet.request.seed

/-- The calls of a plan: ranking chooses them, and the source orders them. -/
def shownCalls (packet : QuestionPacket R) (selection : SelectionEnvelope) : List CallSite :=
  Ranking.ordered sourceKey
    (Ranking.best (rankKey packet selection) packet.request.maxVisible
      (eligibleCalls packet selection))

def assemble (packet : QuestionPacket R) (selection : SelectionEnvelope) (source : String) :
    Except String (FocusedView R) := do
  selection.validate u json packet
  let calls := shownCalls packet selection
  let policyHiddenCount := (essentialCalls packet selection).length - calls.length
  let nodeIds := packet.request.seed :: calls.map CallSite.caller
  let regionIds := Climb.climbs packet.ladder (calls.flatMap CallSite.regions)
  pure
    { packetId := packet.packetId
      revision := packet.revision
      question := packet.request.question
      selectionSource := source
      nodes := packet.context.nodes.filter fun n => n.id ∈ nodeIds
      calls
      regions := packet.context.regions.filter fun r => r.id ∈ regionIds
      supportingCount := selection.decisions.countP fun d => d.relevance = .supporting
      omittedCount := packet.context.calls.length - calls.length
      uncertainCount := selection.decisions.countP fun d => d.relevance = .uncertain
      policyHiddenCount
      warnings := planWarnings u packet selection source policyHiddenCount }

end Assemble

/-! ### What a valid selection says -/

section Valid

variable {R : Type} {packet : QuestionPacket R} {selection : SelectionEnvelope}

/-- **What the loop over the decisions establishes.** -/
theorem checkDecisions_ok {candidates seen out : List String} {decisions : List CallDecision}
    (h : checkDecisions candidates decisions seen = .ok out) :
    (decisions.map CallDecision.candidateId).Nodup ∧
      (∀ d ∈ decisions, d.candidateId ∉ seen) ∧
      ∀ id, id ∈ out ↔ id ∈ seen ∨ id ∈ decisions.map CallDecision.candidateId := by
  induction decisions generalizing seen with
  | nil =>
      cases h
      exact ⟨List.nodup_nil, fun d hd => absurd hd List.not_mem_nil, fun id => by simp⟩
  | cons d rest ih =>
      unfold checkDecisions at h
      obtain ⟨-, h⟩ := ensure_bind_eq_ok.mp h
      obtain ⟨-, h⟩ := ensure_bind_eq_ok.mp h
      obtain ⟨hnew, h⟩ := ensure_bind_eq_ok.mp h
      obtain ⟨hnodup, hfresh, hout⟩ := ih h
      refine ⟨List.nodup_cons.mpr ⟨fun hmem => ?_, hnodup⟩, fun e he => ?_, fun id => ?_⟩
      · obtain ⟨e, he, hsame⟩ := List.mem_map.mp hmem
        exact hfresh e he (hsame ▸ List.mem_cons_self)
      · rcases List.mem_cons.mp he with rfl | he
        · exact hnew
        · exact fun hmem => hfresh e he (List.mem_cons_of_mem _ hmem)
      · rw [hout id, List.mem_cons, List.map_cons, List.mem_cons]
        tauto

/-- One decision for every call, and calls of one id each. -/
structure Decided (packet : QuestionPacket R) (selection : SelectionEnvelope) : Prop where
  callIds : (packet.context.calls.map CallSite.id).Nodup
  decisionIds : (selection.decisions.map CallDecision.candidateId).Nodup
  total : ∀ c ∈ packet.context.calls, ∃ d ∈ selection.decisions, d.candidateId = c.id

theorem decided_of_valid [DecidableEq R] {u : Unicode} {json : PacketJson R}
    (h : selection.validate u json packet = .ok ()) :
    Decided packet selection := by
  unfold SelectionEnvelope.validate at h
  obtain ⟨_, -, h⟩ := bind_eq_ok.mp h
  obtain ⟨-, h⟩ := ensure_bind_eq_ok.mp h
  obtain ⟨hcalls, h⟩ := ensure_bind_eq_ok.mp h
  obtain ⟨seen, hseen, h⟩ := bind_eq_ok.mp h
  obtain ⟨hdecisions, -, hout⟩ := checkDecisions_ok hseen
  refine ⟨hcalls, hdecisions, fun c hc => ?_⟩
  have hmem := (ensure_eq_ok.mp h).2 c.id (List.mem_map_of_mem hc)
  rcases (hout c.id).mp hmem with hnil | hmap
  · cases hnil
  · obtain ⟨d, hd, hid⟩ := List.mem_map.mp hmap
    exact ⟨d, hd, hid⟩

/-- **Every look-up of a decision finds the one there is.** -/
theorem Decided.decision (h : Decided packet selection) {c : CallSite}
    (hc : c ∈ packet.context.calls) :
    ∃ d ∈ selection.decisions, d.candidateId = c.id ∧
      (∀ e ∈ selection.decisions, e.candidateId = c.id → e = d) ∧
      selection.relevance c = some d.relevance := by
  obtain ⟨d, hd, hid⟩ := h.total c hc
  have hunique : ∀ e ∈ selection.decisions, e.candidateId = c.id → e = d := fun e he hsame =>
    List.inj_on_of_nodup_map h.decisionIds he hd (hsame.trans hid.symm)
  refine ⟨d, hd, hid, hunique, ?_⟩
  unfold SelectionEnvelope.relevance
  cases hfound : selection.decisions.find? fun d => d.candidateId = c.id with
  | none => exact absurd (decide_eq_true hid) (List.find?_eq_none.mp hfound d hd)
  | some e =>
      have hget : Register.get CallDecision.candidateId c.id selection.decisions = some e := hfound
      obtain ⟨he, hsame⟩ := Register.mem_of_get hget
      rw [hunique e he hsame]
      rfl

theorem sourceKey_inj (hids : (packet.context.calls.map CallSite.id).Nodup) {c d : CallSite}
    (hc : c ∈ packet.context.calls) (hd : d ∈ packet.context.calls)
    (h : sourceKey c = sourceKey d) : c = d := by
  unfold sourceKey at h
  simp only [EmbeddingLike.apply_eq_iff_eq, Prod.mk.injEq] at h
  exact List.inj_on_of_nodup_map hids hc hd h.2.2.2

theorem mem_essentialCalls {c : CallSite} : c ∈ essentialCalls packet selection ↔
    c ∈ packet.context.calls ∧ selection.relevance c = some .essential := by
  unfold essentialCalls
  rw [List.mem_filter, decide_eq_true_eq]

theorem mem_eligibleCalls {c : CallSite} : c ∈ eligibleCalls packet selection ↔
    c ∈ essentialCalls packet selection ∧
      (packet.request.allowDeeperDisplay = true ∨ c.caller = packet.request.seed) := by
  unfold eligibleCalls
  rw [List.mem_filter, Bool.or_eq_true, decide_eq_true_eq]

end Valid

/-! ### The plan -/

/-- The one region is right around the other, by their ids. -/
def QuestionPacket.Around {R : Type} (packet : QuestionPacket R) (id p : String) : Prop :=
  ∃ r, packet.regionById id = some r ∧ r.parent = some p

/-- What a plan has to do with the packet and the selection it is made of. -/
structure Planned {R : Type} (packet : QuestionPacket R) (selection : SelectionEnvelope)
    (plan : FocusedView R) : Prop where
  decided : ∀ c ∈ packet.context.calls, ∃ d ∈ selection.decisions, d.candidateId = c.id ∧
    (∀ e ∈ selection.decisions, e.candidateId = c.id → e = d) ∧
    selection.relevance c = some d.relevance
  essential : ∀ c ∈ plan.calls,
    c ∈ packet.context.calls ∧ selection.relevance c = some .essential
  direct : packet.request.allowDeeperDisplay = false →
    ∀ c ∈ plan.calls, c.caller = packet.request.seed
  bounded : plan.calls.length ≤ packet.request.maxVisible
  best : ∀ c ∈ packet.context.calls, selection.relevance c = some .essential →
    (packet.request.allowDeeperDisplay = true ∨ c.caller = packet.request.seed) →
    c ∉ plan.calls → plan.calls.length = packet.request.maxVisible ∧
      ∀ shown ∈ plan.calls, rankKey packet selection shown < rankKey packet selection c
  ordered : plan.calls.Pairwise fun a b => sourceKey a < sourceKey b
  regions : ∀ r, r ∈ plan.regions ↔ r ∈ packet.context.regions ∧
    ∃ c ∈ plan.calls, ∃ id ∈ c.regions, ReflTransGen packet.Around id r.id
  closed : ∀ r ∈ plan.regions, packet.regionById r.id = some r →
    ∀ p ∈ packet.context.regions, r.parent = some p.id → p ∈ plan.regions
  hidden : packet.context.calls.countP (fun c => selection.relevance c = some .essential) =
    plan.calls.length + plan.policyHiddenCount
  omitted : packet.context.calls.length = plan.calls.length + plan.omittedCount

section Planned

variable {R : Type} {packet : QuestionPacket R} {selection : SelectionEnvelope}
  {plan : FocusedView R}

theorem above_iff {id p : String} : Climb.Above packet.ladder id p ↔ packet.Around id p := by
  show (packet.regionById id).bind ControlRegion.parent = some p ↔ _
  exact Option.bind_eq_some_iff

theorem mem_shownCalls {c : CallSite} : c ∈ shownCalls packet selection ↔
    c ∈ Ranking.best (rankKey packet selection) packet.request.maxVisible
      (eligibleCalls packet selection) := Ranking.mem_ordered

theorem length_shownCalls : (shownCalls packet selection).length =
    min packet.request.maxVisible (eligibleCalls packet selection).length := by
  unfold shownCalls
  rw [Ranking.length_ordered, Ranking.length_best]

theorem eligible_of_shown {c : CallSite} (h : c ∈ shownCalls packet selection) :
    c ∈ eligibleCalls packet selection := Ranking.mem_of_best (mem_shownCalls.mp h)

theorem eligibleCalls_sublist : (eligibleCalls packet selection).Sublist packet.context.calls :=
  List.filter_sublist.trans List.filter_sublist

theorem Decided.keys_nodup (h : Decided packet selection) {κ : Type*} {key : CallSite → κ}
    (hkey : ∀ c d, key c = key d → sourceKey c = sourceKey d) :
    ((eligibleCalls packet selection).map key).Nodup := by
  have hnodup : (eligibleCalls packet selection).Nodup :=
    (List.Nodup.of_map _ h.callIds).sublist eligibleCalls_sublist
  refine List.Nodup.map_on (fun c hc d hd hsame => ?_) hnodup
  exact sourceKey_inj h.callIds (eligibleCalls_sublist.subset hc) (eligibleCalls_sublist.subset hd)
    (hkey c d hsame)

theorem sourceKey_of_rankKey {c d : CallSite}
    (h : rankKey packet selection c = rankKey packet selection d) : sourceKey c = sourceKey d := by
  unfold rankKey at h
  simp only [EmbeddingLike.apply_eq_iff_eq, Prod.mk.injEq] at h
  exact h.2.2

theorem Decided.shown_ordered (h : Decided packet selection) :
    (shownCalls packet selection).Pairwise fun a b => sourceKey a < sourceKey b := by
  refine Ranking.pairwise_ordered_lt ?_
  have hkeys : ((eligibleCalls packet selection).map sourceKey).Nodup :=
    h.keys_nodup fun _ _ hsame => hsame
  have hperm := (Ranking.perm_ordered (rankKey packet selection)
    (eligibleCalls packet selection)).map sourceKey
  exact (hperm.nodup_iff.mpr hkeys).sublist (Ranking.best_sublist.map sourceKey)

/-- **Whatever could be shown and is not ranks behind everything that is.** -/
theorem Decided.shown_best (h : Decided packet selection) {c : CallSite}
    (hc : c ∈ eligibleCalls packet selection) (hout : c ∉ shownCalls packet selection) :
    (shownCalls packet selection).length = packet.request.maxVisible ∧
      ∀ shown ∈ shownCalls packet selection,
        rankKey packet selection shown < rankKey packet selection c := by
  have hout' := fun hmem => hout (mem_shownCalls.mpr hmem)
  constructor
  · unfold shownCalls
    rw [Ranking.length_ordered]
    exact Ranking.length_best_of_out hc hout'
  · intro shown hshown
    exact Ranking.best_lt (h.keys_nodup fun _ _ hsame => sourceKey_of_rankKey hsame)
      (mem_shownCalls.mp hshown) hc hout'

theorem mem_regionIds {calls : List CallSite} {id : String} :
    id ∈ Climb.climbs packet.ladder (calls.flatMap CallSite.regions) ↔
      ∃ c ∈ calls, ∃ start ∈ c.regions, ReflTransGen packet.Around start id := by
  have hsame : Climb.Above packet.ladder = packet.Around :=
    funext fun _ => funext fun _ => propext above_iff
  rw [Climb.mem_climbs, hsame]
  constructor
  · rintro ⟨start, hstart, habove⟩
    obtain ⟨c, hc, hregion⟩ := List.mem_flatMap.mp hstart
    exact ⟨c, hc, start, hregion, habove⟩
  · rintro ⟨c, hc, start, hregion, habove⟩
    exact ⟨start, List.mem_flatMap.mpr ⟨c, hc, hregion⟩, habove⟩

end Planned

/-- **A plan conserves and selects.**  For a valid selection there is a plan; it shows essential
calls only, and only those of the declaration itself unless it may show deeper ones; as many as it
may and no more, whatever it leaves out ranking behind all of them; in the order of the source,
with every region around them; and its counts add up. -/
theorem planned_of_valid {R : Type} [DecidableEq R] {u : Unicode} {json : PacketJson R}
    {packet : QuestionPacket R} {selection : SelectionEnvelope} (source : String)
    (h : selection.validate u json packet = .ok ()) :
    ∃ plan, assemble u json packet selection source = .ok plan ∧
      Planned packet selection plan := by
  have hdecided := decided_of_valid h
  have hassemble : assemble u json packet selection source = .ok _ := bind_eq_ok.mpr ⟨(), h, rfl⟩
  have heligible : (eligibleCalls packet selection).length ≤ (essentialCalls packet selection).length :=
    List.filter_sublist.length_le
  have hessential : (essentialCalls packet selection).length ≤ packet.context.calls.length :=
    List.filter_sublist.length_le
  have hshown : (shownCalls packet selection).length =
      min packet.request.maxVisible (eligibleCalls packet selection).length := length_shownCalls
  have hregions : ∀ r, r ∈ packet.context.regions.filter (fun r =>
      r.id ∈ Climb.climbs packet.ladder ((shownCalls packet selection).flatMap CallSite.regions)) ↔
      r ∈ packet.context.regions ∧ ∃ c ∈ shownCalls packet selection, ∃ id ∈ c.regions,
        ReflTransGen packet.Around id r.id := fun r => by
    rw [List.mem_filter, decide_eq_true_eq, mem_regionIds]
  refine ⟨_, hassemble,
    { decided := fun c hc => hdecided.decision hc
      essential := fun c hc => mem_essentialCalls.mp (mem_eligibleCalls.mp (eligible_of_shown hc)).1
      direct := fun hdirect c hc => ?_
      bounded := ?_
      best := fun c hc hrelevance hpermitted hout => ?_
      ordered := hdecided.shown_ordered
      regions := hregions
      closed := fun r hr hfound p hp hparent => ?_
      hidden := ?_
      omitted := ?_ }⟩
  · rcases (mem_eligibleCalls.mp (eligible_of_shown hc)).2 with hdeeper | hseed
    · exact absurd (hdirect.symm.trans hdeeper) Bool.false_ne_true
    · exact hseed
  · show (shownCalls packet selection).length ≤ _
    omega
  · exact hdecided.shown_best
      (mem_eligibleCalls.mpr ⟨mem_essentialCalls.mpr ⟨hc, hrelevance⟩, hpermitted⟩) hout
  · obtain ⟨-, c, hc, id, hid, habove⟩ := (hregions r).mp hr
    exact (hregions p).mpr ⟨hp, c, hc, id, hid, .tail habove ⟨r, hfound, hparent⟩⟩
  · show _ = (shownCalls packet selection).length +
      ((essentialCalls packet selection).length - (shownCalls packet selection).length)
    have hcount : packet.context.calls.countP
        (fun c => selection.relevance c = some .essential) =
        (essentialCalls packet selection).length := List.countP_eq_length_filter
    omega
  · show _ = (shownCalls packet selection).length +
      (packet.context.calls.length - (shownCalls packet selection).length)
    omega

/-! ### A packet that repeats a region, and has one place for two calls -/

namespace Repeated

def range : SourceRange := ⟨0, 1, 1, 1, 1, 2⟩

def region (id : String) (parent : Option String) : ControlRegion :=
  ⟨id, "if_expression", "", parent, "f", "a.rs", range⟩

def call (id : String) (start : Nat) : CallSite :=
  ⟨id, "f", none, "a.rs", { range with startByte := start }, none, 0, ["r"], graphProvenance⟩

/-- The inner region comes twice, and has its parent the first time only. -/
def packet : QuestionPacket Unit where
  packetId := "packet"
  revision := ()
  request := ⟨"f", "why", (), 2, 1, false, []⟩
  context := ⟨(), ⟨"f", 2, 80, 300, false, []⟩, [], [call "b" 0, call "c" 1, call "d" 2],
    [region "r" (some "p"), region "r" none, region "p" none], false, 0, []⟩
  sourceFiles := []
  warnings := []

def selection : SelectionEnvelope :=
  ⟨"packet", [⟨"b", .essential, none⟩, ⟨"c", .essential, some (.finite (1 / 2))⟩,
    ⟨"d", .incidental, none⟩]⟩

def unicode : Unicode := ⟨fun c => c = ' ', Char.isAlphanum, id⟩

def json : PacketJson Unit := ⟨fun _ _ _ _ _ => "packet", fun _ => 1000⟩

theorem valid : selection.validate unicode json packet = .ok () := by decide +kernel

/-- The call that comes first has to give way to the one with the higher score. -/
theorem shown : shownCalls packet selection = [call "c" 1] := by decide +kernel

end Repeated

/-- **The parent of a region that is shown need not be**: the other region of its id has none. -/
theorem repeated_region_open :
    ∃ plan, assemble Repeated.unicode Repeated.json Repeated.packet Repeated.selection "manual" =
        .ok plan ∧
      ∃ r ∈ plan.regions, ∃ p ∈ Repeated.packet.context.regions,
        r.parent = some p.id ∧ p ∉ plan.regions := by
  have hup : Repeated.packet.ladder.up "r" = none := by decide
  have hids : Climb.climbs Repeated.packet.ladder
      ((shownCalls Repeated.packet Repeated.selection).flatMap CallSite.regions) = ["r"] := by
    rw [Repeated.shown]
    show Climb.climb Repeated.packet.ladder [] (some "r") = ["r"]
    rw [Climb.climb, if_neg List.not_mem_nil, hup, Climb.climb]
  refine ⟨_, Fallible.bind_eq_ok.mpr ⟨(), Repeated.valid, rfl⟩, ?_⟩
  simp only [hids]
  refine ⟨Repeated.region "r" (some "p"), by decide, Repeated.region "p" none, by decide, rfl, ?_⟩
  decide

/-- One of the two calls is left out. -/
theorem planned_of_valid_repeated :
    ∃ plan, assemble Repeated.unicode Repeated.json Repeated.packet Repeated.selection "manual" =
        .ok plan ∧ Planned Repeated.packet Repeated.selection plan ∧
      plan.calls = [Repeated.call "c" 1] ∧ plan.policyHiddenCount = 1 := by
  obtain ⟨plan, hplan, hplanned⟩ := planned_of_valid "manual" Repeated.valid
  obtain ⟨-, -, heq⟩ := Fallible.bind_eq_ok.mp hplan
  have hcalls : plan.calls = [Repeated.call "c" 1] := Except.ok.inj heq ▸ Repeated.shown
  have hcount : 2 = plan.calls.length + plan.policyHiddenCount := hplanned.hidden
  rw [hcalls, List.length_singleton] at hcount
  exact ⟨plan, hplan, hplanned, hcalls, by omega⟩

end Baleyg.View
