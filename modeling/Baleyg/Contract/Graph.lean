/-
The call graph that the records answer with.

A request names a root, and how deep, how wide and how far an answer may go.  The answer is a walk
in breadth over the declarations: every call of a declaration is an edge, and an edge whose
evidence names one declaration of the snapshot, beyond doubt, leads on to it.  Where a limit cuts
the walk off, a frontier says what is left out and from which call on.

The evidence of a call is looked up, not walked to, so what stands here comes in two parts: an
index of the records (`Index`), and the walk, which asks the index only.
-/
import Mathlib.Data.Prod.Lex
import Baleyg.Contract.Freshness
import Baleyg.Lib.Ranking
import Baleyg.Lib.Register

namespace Baleyg.Contract.Graph

open Fallible (ensure)
open Native (Language DocumentKey)

/-! ### Records -/

structure Declaration where
  syntaxId : String
  revisionId : String
  document : DocumentKey
  deriving DecidableEq, Repr

structure Call where
  id : String
  ownerSyntaxId : String
  ordinal : Nat
  document : DocumentKey
  revisionId : String
  start : Nat
  stop : Nat
  deriving DecidableEq, Repr

inductive JoinStatus where
  | exact
  | ambiguous
  | unmatched
  | unsupported
  deriving DecidableEq, Repr

structure Anchor where
  document : DocumentKey
  revisionId : String
  contentHash : String
  deriving DecidableEq, Repr

structure Join where
  status : JoinStatus
  candidateIds : List String
  anchor : Anchor
  deriving DecidableEq, Repr

inductive Resolution where
  | resolved
  | external
  | ambiguous
  | unresolved
  deriving DecidableEq, Repr

inductive Dispatch where
  | direct
  | constructor
  | virtual
  | interface
  | dynamic
  | unknown
  deriving DecidableEq, Repr

inductive Target where
  | internal (syntaxId : String) (document : DocumentKey) (revisionId : String)
  | external (symbol : String)
  deriving DecidableEq, Repr

structure CallBinding where
  callId : Option String
  join : Join
  resolution : Resolution
  declaredTarget : Option Target
  dispatch : Dispatch
  staleTarget : Option Bool
  provenanceId : String
  deriving DecidableEq, Repr

inductive CoverageState where
  | notRequested
  | omitted
  | unsupported
  | failed
  | incomplete
  | complete
  deriving DecidableEq, Repr

structure Coverage where
  producerId : String
  sourceSetId : String
  language : Language
  documentPath : String
  revisionId : String
  selected : Bool
  state : CoverageState
  deriving DecidableEq, Repr

structure Records where
  sourceSets : List String
  revisions : List (String × String)
  comparison : Comparison
  producers : List Producer
  declarations : List Declaration
  coverage : List Coverage
  provenance : List Provenance
  calls : List Call
  callBindings : List CallBinding
  deriving DecidableEq, Repr

/-! ### Requests and answers -/

structure Request where
  sourceSetId : String
  revisionId : String
  rootSyntaxId : String
  semanticProducerId : Option String
  depth : Option Int
  maxNodes : Option Int
  maxCalls : Option Int
  deriving DecidableEq, Repr

structure Effective where
  sourceSetId : String
  revisionId : String
  rootSyntaxId : String
  semanticProducerId : Option String
  depth : Nat
  maxNodes : Nat
  maxCalls : Nat
  deriving DecidableEq, Repr

/-- `failure`; the message is made from the field. -/
structure Failure where
  code : String
  field : String
  deriving DecidableEq, Repr

def Failure.message (f : Failure) : String :=
  s!"{f.field} is not available for this graph request"

structure GraphNode where
  declaration : Declaration
  depth : Nat
  deriving DecidableEq, Repr

def GraphNode.id (n : GraphNode) : String := n.declaration.syntaxId

inductive Visit where
  | new
  | seen
  | boundary
  deriving DecidableEq, Repr

inductive Boundary where
  | none
  | external
  | unresolved
  | ambiguous
  | dispatch
  | stale
  | nodeLimit
  | missingEvidence
  deriving DecidableEq, Repr

structure GraphEdge where
  call : Call
  source : String
  target : Option String
  binding : Option CallBinding
  visit : Visit
  boundaryReason : Boundary
  deriving DecidableEq, Repr

inductive Stop where
  | depth
  | nodeLimit
  | callLimit
  deriving DecidableEq, Repr

structure Frontier where
  reason : Stop
  nodeId : String
  callId : Option String
  targetId : Option String
  nextOrdinal : Option Nat
  omittedCalls : Nat
  deriving DecidableEq, Repr

/-- The part of an answer that the walk makes. -/
structure GraphResult where
  request : Effective
  nodes : List GraphNode
  edges : List GraphEdge
  frontier : List Frontier
  truncated : Bool
  deriving DecidableEq, Repr

/-! ### The request is checked -/

def limited (field : String) (value : Option Int) (default low high : Nat) :
    Except Failure Nat :=
  if value.getD default < low ∨ (high : Int) < value.getD default then
    throw ⟨"invalidRequest", field⟩
  else pure (value.getD default).toNat

def effective (request : Request) : Except Failure Effective := do
  let depth ← limited "depth" request.depth 2 0 5
  let maxNodes ← limited "maxNodes" request.maxNodes 150 1 150
  let maxCalls ← limited "maxCalls" request.maxCalls 500 0 500
  pure ⟨request.sourceSetId, request.revisionId, request.rootSyntaxId, request.semanticProducerId,
    depth, maxNodes, maxCalls⟩

/-- `/^sid:v1:[0-9a-f]{32}$/`. -/
def isSyntaxId (s : String) : Bool :=
  s.toList.take 7 == "sid:v1:".toList && (s.toList.drop 7).length == 32 &&
    (s.toList.drop 7).all Native.isLowerHex

def declarationsIn (records : Records) (sourceSetId revisionId : String) : List Declaration :=
  records.declarations.filter fun d =>
    d.revisionId = revisionId ∧ d.document.sourceSetId = sourceSetId

/-- `byId.get`.  Of rows with one key the last one counts. -/
def byId (records : Records) (sourceSetId revisionId : String) (id : String) :
    Option Declaration :=
  Register.get Declaration.syntaxId id (declarationsIn records sourceSetId revisionId).reverse

/-- What a request must name. -/
def admitted (records : Records) (e : Effective) : Except Failure Declaration := do
  ensure (e.sourceSetId ≠ "" ∧ e.revisionId ≠ "" ∧ isSyntaxId e.rootSyntaxId = true ∧
    e.semanticProducerId ≠ some "") (⟨"invalidRequest", "request"⟩ : Failure)
  ensure (e.sourceSetId ∈ records.sourceSets) (⟨"sourceSetDenied", "sourceSetId"⟩ : Failure)
  ensure ((e.revisionId, e.sourceSetId) ∈ records.revisions)
    (⟨"revisionUnavailable", "revisionId"⟩ : Failure)
  match byId records e.sourceSetId e.revisionId e.rootSyntaxId with
  | none => throw ⟨"rootMissing", "rootSyntaxId"⟩
  | some root => do
      ensure (∀ id ∈ e.semanticProducerId, ∃ p ∈ records.producers,
        p.id = id ∧ p.kind = .semantic) (⟨"producerUnavailable", "semanticProducerId"⟩ : Failure)
      pure root

/-! ### The projection onto the snapshot -/

/-- The snapshot asked about is the one the labels of the records are about. -/
def atComparison (records : Records) (e : Effective) : Bool :=
  records.comparison.sourceSetId = e.sourceSetId && records.comparison.revisionId = e.revisionId

def missing (field : String) : Rejection :=
  .invalid "GRAPH.PROJECTION" field "normalized graph records are incomplete"

def projectProofs (sha : Hasher) (loaded : Loaded) (records : Records) (e : Effective) :
    Except Rejection (List Provenance) :=
  if atComparison records e = true then pure records.provenance
  else do
    ensure ((loaded.revisionAt e.sourceSetId e.revisionId).isSome = true) (missing "revisionId")
    records.provenance.mapM fun row => do
      let label ← expectedFreshness sha loaded row (some (e.sourceSetId, e.revisionId))
      pure { row with freshness := label }

/-- `proofs.get`, of the proofs as they are written down. -/
def recordedProof (records : Records) (id : String) : Option Provenance :=
  Register.get (fun p => p.id) id records.provenance.reverse

/-- `expectedStaleTarget`, of a target in the source. -/
def expectedStaleTarget (sha : Hasher) (loaded : Loaded) (records : Records) (b : CallBinding)
    (syntaxId : String) (document : DocumentKey) (revisionId : String) :
    Except Rejection (Option Bool) := do
  let proof ← found (recordedProof records b.provenanceId) (.format "Provenance")
  let _ ← checkCapturedBasis sha loaded proof
  ensure (b.provenanceId = proof.id)
    (.invalid "TARGET_STALENESS.PROVENANCE" "provenanceId" "binding proof differs" : Rejection)
  ensure ((loaded.documentAt document revisionId).isSome = true ∧
      (byId records document.sourceSetId revisionId syntaxId).map Declaration.document =
        some document)
    (.invalid "TARGET_STALENESS.CAPTURED" "declaredTarget"
      "target declaration not present in captured snapshot" : Rejection)
  ensure (revisionId = proof.revisionId)
    (.invalid "TARGET_STALENESS.REVISION" "declaredTarget"
      "internal target must share its binding's revision" : Rejection)
  pure (some false)

def projectBinding (sha : Hasher) (loaded : Loaded) (records : Records) (e : Effective)
    (b : CallBinding) : Except Rejection CallBinding :=
  if atComparison records e = true then pure b
  else
    match b.declaredTarget with
    | some (.internal syntaxId document revisionId) => do
        let stale ← expectedStaleTarget sha loaded records b syntaxId document revisionId
        pure { b with staleTarget := stale }
    | _ => pure b

/-! ### The index -/

/-- What the walk asks of the records. -/
structure Index where
  declaration : String → Option Declaration
  calls : String → List Call
  proof : String → Option Provenance
  coverage : DocumentKey → Option Coverage
  /-- The bindings of a call that are about it and the producer's. -/
  bindings : String → List CallBinding
  project : CallBinding → Except Rejection CallBinding

def sourcePlace (c : Call) : String ×ₗ ℕ ×ₗ ℕ ×ₗ String :=
  toLex (c.document.path, toLex (c.start, toLex (c.stop, c.id)))

/-- The calls of a declaration, in the order of the source. -/
def measuredCalls (records : Records) (sourceSetId revisionId : String) (owner : String) :
    List Call :=
  Ranking.ordered sourcePlace (records.calls.filter fun c =>
    c.revisionId = revisionId ∧ c.document.sourceSetId = sourceSetId ∧ c.ownerSyntaxId = owner ∧
      (byId records sourceSetId revisionId owner).map Declaration.document = some c.document)

def coverageKey (row : Coverage) : String × String × Language × String × String :=
  (row.producerId, row.sourceSetId, row.language, row.documentPath, row.revisionId)

/-- `coverage.get`; no row is of no producer. -/
def coverageOf (records : Records) (e : Effective) (document : DocumentKey) : Option Coverage :=
  e.semanticProducerId.bind fun producer =>
    Register.get coverageKey
      (producer, document.sourceSetId, document.language, document.path, e.revisionId)
      records.coverage.reverse

/-- A binding is about one call, and from the producer about the snapshot. -/
def installs (proof : String → Option Provenance) (e : Effective) (id : String)
    (b : CallBinding) : Bool :=
  b.callId = some id ∧ b.join.status = .exact ∧ b.join.candidateIds = [id] ∧
    (proof b.provenanceId).any (fun p =>
      e.semanticProducerId = some p.producerId ∧ p.revisionId = e.revisionId) = true ∧
    b.join.anchor.revisionId = e.revisionId

def index (sha : Hasher) (loaded : Loaded) (records : Records) (e : Effective) :
    Except Rejection Index := do
  let proofs ← projectProofs sha loaded records e
  let proof := fun id => Register.get (fun p : Provenance => p.id) id proofs.reverse
  pure
    { declaration := byId records e.sourceSetId e.revisionId
      calls := measuredCalls records e.sourceSetId e.revisionId
      proof := proof
      coverage := coverageOf records e
      bindings := fun id => records.callBindings.filter (installs proof e id)
      project := projectBinding sha loaded records e }

/-! ### The evidence of a call -/

/-- The row of a call's document lets its evidence be used. -/
def usable (idx : Index) (c : Call) : Bool :=
  (idx.coverage c.document).any fun row =>
    row.selected && (row.state = .complete || row.state = .incomplete)

/-- The binding a call's edge carries: of those for its document the one with the lowest proof. -/
def selectBinding (idx : Index) (c : Call) : Option CallBinding :=
  if usable idx c = true then
    (Ranking.ordered CallBinding.provenanceId (idx.bindings c.id)).find? fun b =>
      b.join.anchor.document = c.document ∧
        (idx.proof b.provenanceId).map (fun p => p.contentHash) = some b.join.anchor.contentHash
  else none

def authorize (idx : Index) (c : Call) : Except Rejection (Option CallBinding) :=
  match selectBinding idx c with
  | none => pure none
  | some b => do
      let projected ← idx.project b
      pure (some projected)

/-- The declaration that evidence leads to, or why it leads nowhere. -/
def destination (idx : Index) : Option CallBinding → Except Boundary Declaration
  | none => throw .missingEvidence
  | some b => do
      let internal := match b.declaredTarget with
        | some (.internal _ _ _) => true
        | _ => false
      ensure ((idx.proof b.provenanceId).map (fun p => p.freshness) = some .fresh ∧
        ¬ (internal = true ∧ b.staleTarget ≠ some false)) Boundary.stale
      ensure (b.resolution ≠ .ambiguous) Boundary.ambiguous
      ensure (b.resolution ≠ .unresolved) Boundary.unresolved
      ensure (b.resolution ≠ .external) Boundary.external
      ensure (b.dispatch = .direct ∨ b.dispatch = .constructor) Boundary.dispatch
      match b.declaredTarget with
      | some (.internal syntaxId document _) =>
          match idx.declaration syntaxId with
          | some d => if d.document = document then pure d else throw .stale
          | none => throw .stale
      | _ => throw .stale

/-! ### The walk -/

structure Walk where
  nodes : List GraphNode
  edges : List GraphEdge := []
  frontier : List Frontier := []
  seen : List String
  head : Nat := 0
  callCapReached : Bool := false
  deriving DecidableEq, Repr

def start (root : Declaration) (id : String) : Walk := { nodes := [⟨root, 0⟩], seen := [id] }

def visitCall (idx : Index) (e : Effective) (node : GraphNode) (w : Walk) (c : Call) :
    Except Rejection Walk := do
  let binding ← authorize idx c
  match destination idx binding with
  | .error reason =>
      pure { w with edges := w.edges ++ [⟨c, node.id, none, binding, .boundary, reason⟩] }
  | .ok d =>
      if d.syntaxId ∈ w.seen then
        pure { w with edges := w.edges ++ [⟨c, node.id, some d.syntaxId, binding, .seen, .none⟩] }
      else if w.nodes.length = e.maxNodes then
        pure { w with
          frontier := w.frontier ++ [⟨.nodeLimit, node.id, some c.id, some d.syntaxId, none, 0⟩]
          edges := w.edges ++ [⟨c, node.id, none, binding, .boundary, .nodeLimit⟩] }
      else
        pure { w with
          seen := w.seen ++ [d.syntaxId]
          nodes := w.nodes ++ [⟨d, node.depth + 1⟩]
          edges := w.edges ++ [⟨c, node.id, some d.syntaxId, binding, .new, .none⟩] }

/-- The calls of a node, until there are enough. -/
def visitCalls (idx : Index) (e : Effective) (node : GraphNode) :
    List Call → Walk → Except Rejection Walk
  | [], w => pure w
  | c :: rest, w =>
      if w.edges.length = e.maxCalls then
        pure { w with
          frontier := w.frontier ++
            [⟨.callLimit, node.id, none, none, some c.ordinal, rest.length + 1⟩]
          callCapReached := true }
      else do
        let w ← visitCall idx e node w c
        visitCalls idx e node rest w

def visitNode (idx : Index) (e : Effective) (node : GraphNode) (w : Walk) :
    Except Rejection Walk :=
  let own := idx.calls node.id
  if own = [] then pure w
  else if node.depth = e.depth ∨ w.callCapReached = true then
    pure { w with
      frontier := w.frontier ++ [⟨if node.depth = e.depth then .depth else .callLimit, node.id, none,
        none, some 0, own.length⟩] }
  else visitCalls idx e node own w

/-- The loop over the nodes, `none` if it does not come to an end in so many turns. -/
def traverse (idx : Index) (e : Effective) : Nat → Walk → Except Rejection (Option Walk)
  | 0, _ => pure none
  | fuel + 1, w =>
      match w.nodes[w.head]? with
      | none => pure (some w)
      | some node => do
          let w ← visitNode idx e node { w with head := w.head + 1 }
          traverse idx e fuel w

def Walk.result (w : Walk) (e : Effective) : GraphResult :=
  ⟨e, w.nodes, w.edges, w.frontier, decide (w.frontier ≠ [])⟩

def answer (sha : Hasher) (loaded : Loaded) (fuel : Nat) (records : Records) (e : Effective)
    (root : Declaration) : Except Rejection (Option GraphResult) := do
  let idx ← index sha loaded records e
  let w ← traverse idx e fuel (start root e.rootSyntaxId)
  pure (w.map fun w => w.result e)

/-- `expectedGraph`, with so many turns of its loop. -/
def expectedGraph (sha : Hasher) (loaded : Loaded) (fuel : Nat) (records : Records)
    (request : Request) : Except Rejection (Except Failure (Option GraphResult)) :=
  match effective request with
  | .error f => pure (.error f)
  | .ok e =>
      match admitted records e with
      | .error f => pure (.error f)
      | .ok root => do
          let result ← answer sha loaded fuel records e root
          pure (.ok result)

end Baleyg.Contract.Graph
