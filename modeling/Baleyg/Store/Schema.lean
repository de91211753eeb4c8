/-
The index database.

One publication is a pin: a header row, its capture inputs and one manifest row a
document.  The evidence itself is shared between pins.  A manifest row selects
three content-addressed parents — a document version, a graph projection of that
version, a class projection of that graph — and every child row hangs off one of
the three.  Maintenance owns the remaining tables: the stamp and state of each
superseded revision, the debt of the one being released, and the journal of
parents a release may have left unused.

Child rows are kept as a row of a table is: the owner's id, the rest of the
primary key, the other columns.  What each table's FOREIGN KEY clauses ask of a
row is then read off its columns, and `ForeignKeys` is what COMMIT checks, the
clauses all being DEFERRABLE INITIALLY DEFERRED.
-/
import Baleyg.Queue.Row
import Baleyg.Lib.Table

namespace Baleyg.Store

/-! ### Columns and child rows -/

inductive Cell where
  | null
  | int (value : Int)
  | text (value : String)
  deriving DecidableEq, Repr

/-- The three content-addressed families. -/
inductive Kind where
  | version
  | graph
  | classes
  deriving DecidableEq, Repr

/-- Which parent row: its table and its id. -/
structure ParentKey where
  kind : Kind
  id : String
  deriving DecidableEq, Repr

inductive ChildTable where
  | callRegions
  | calls
  | controlRegions
  | headerItems
  | parameters
  | headers
  | ancestorSignatureTypes
  | ownSignatureTypes
  | declarationAncestors
  | declarations
  | coverageRoles
  | graphCalls
  | graphRegions
  | graphNodes
  | classRelations
  | classes
  deriving DecidableEq, Repr

namespace ChildTable

def kind : ChildTable → Kind
  | graphCalls | graphRegions | graphNodes => .graph
  | classRelations | classes => .classes
  | _ => .version

def selfReferential : ChildTable → Bool
  | declarations | controlRegions => true
  | _ => false

end ChildTable

/-- A family's child tables, in the order a release deletes them. -/
def Kind.children : Kind → List ChildTable
  | .classes => [.classRelations, .classes]
  | .graph => [.graphCalls, .graphRegions, .graphNodes]
  | .version =>
      [.callRegions, .calls, .controlRegions, .headerItems, .parameters, .headers,
        .ancestorSignatureTypes, .ownSignatureTypes, .declarationAncestors, .declarations,
        .coverageRoles]

/-- A child row: `owner` is its `version_id` or `projection_id`, `key` the rest of
its primary key, `cells` the remaining columns in the schema's order. -/
structure ChildRow where
  table : ChildTable
  owner : String
  key : List Cell
  cells : List Cell
  deriving DecidableEq, Repr

namespace ChildRow

/-- The columns after the owner's. -/
def columns (r : ChildRow) : List Cell := r.key ++ r.cells

def column (r : ChildRow) (i : Nat) : Cell := r.columns.getD i .null

def primaryKey (r : ChildRow) : ChildTable × String × List Cell :=
  (r.table, r.owner, r.key)

def parent (r : ChildRow) : ParentKey := ⟨r.table.kind, r.owner⟩

/-- `graph_projection_id` of a `classes` row. -/
def graphProjection (r : ChildRow) : String :=
  match r.column 1 with
  | .text id => id
  | _ => ""

end ChildRow

/-! ### Parent rows -/

structure DocumentVersion where
  id : String
  sourceSet : String
  language : String
  path : String
  contentHash : String
  extractionContext : String
  producer : String
  producerVersion : String
  byteLength : Nat
  sourceBytes : String
  nativeWitness : String
  deriving DecidableEq, Repr

structure GraphProjection where
  id : String
  documentVersion : String
  language : String
  graphHash : String
  state : String
  classExtractionState : String
  classExtractionPayload : Option String
  deriving DecidableEq, Repr

structure ClassProjection where
  id : String
  graphProjection : String
  contentHash : String
  state : String
  deriving DecidableEq, Repr

/-- A row of one of the three parent tables. -/
inductive Parent where
  | version (row : DocumentVersion)
  | graph (row : GraphProjection)
  | classes (row : ClassProjection)
  deriving DecidableEq, Repr

namespace Parent

def key : Parent → ParentKey
  | version row => ⟨.version, row.id⟩
  | graph row => ⟨.graph, row.id⟩
  | classes row => ⟨.classes, row.id⟩

def above : Parent → Option ParentKey
  | version _ => none
  | graph row => some ⟨.version, row.documentVersion⟩
  | classes row => some ⟨.graph, row.graphProjection⟩

def version? : Parent → Option DocumentVersion
  | version row => some row
  | _ => none

def graph? : Parent → Option GraphProjection
  | graph row => some row
  | _ => none

def classes? : Parent → Option ClassProjection
  | classes row => some row
  | _ => none

end Parent

/-! ### The rows of a revision -/

structure IndexStats where
  files : Nat
  symbols : Nat
  calls : Nat
  regions : Nat
  internal : Nat
  external : Nat
  unresolved : Nat
  ambiguous : Nat
  parseErrorFiles : Nat
  semanticState : String
  changedFiles : List String
  deriving DecidableEq, Repr

structure Diagnostic where
  path : Option String
  code : String
  message : String
  deriving DecidableEq, Repr

/-- A row of `native_revisions`; `pin` is its id and its published revision. -/
structure RevisionHeader where
  pin : IndexPin
  sourceSet : String
  toolchainHash : String
  configHash : String
  dependencyHash : String
  nativeRevision : String
  sourceInventory : List String
  dependencyObservations : List String
  reconciledIncarnation : Incarnation
  reconcileOptions : ReconcileOptions
  classWarnings : List String
  classTruncated : Bool
  graphStats : IndexStats
  graphDiagnostics : List Diagnostic
  deriving DecidableEq, Repr

/-- A row of `revision_capture_inputs`. -/
structure CaptureInput where
  revision : IndexPin
  inputKey : String
  payload : String
  deriving DecidableEq, Repr

/-- A row of `revision_documents`. -/
structure ManifestRow where
  revision : IndexPin
  sourceSet : String
  language : String
  path : String
  documentVersion : String
  graphProjection : String
  classProjection : Option String
  captureStat : String
  coverageRequested : Bool
  coverageSelected : Bool
  coverageState : String
  coverageDiagnostic : Option String
  ordinal : Nat
  deriving DecidableEq, Repr

namespace ManifestRow

/-- The parents a manifest row selects. -/
def selects (m : ManifestRow) : List ParentKey :=
  ⟨.version, m.documentVersion⟩ :: ⟨.graph, m.graphProjection⟩
    :: (m.classProjection.map (ParentKey.mk .classes)).toList

end ManifestRow

inductive Retention where
  | retained
  | pending
  | released
  deriving DecidableEq, Repr

/-- A row of `native_revision_supersessions`. -/
structure Supersession where
  revision : IndexPin
  supersededAt : Int
  state : Retention
  deriving DecidableEq, Repr

structure Candidate where
  revision : IndexPin
  parent : ParentKey
  deriving DecidableEq, Repr

/-- The row of `index_metadata`. -/
structure Metadata where
  pin : IndexPin
  indexedAt : Nat
  stats : IndexStats
  diagnostics : List Diagnostic
  reconciledIncarnation : Option Incarnation
  reconcileOptions : Option ReconcileOptions
  deriving DecidableEq, Repr

structure Database where
  metadata : Metadata
  headers : List RevisionHeader
  inputs : List CaptureInput
  manifest : List ManifestRow
  parents : List Parent
  children : List ChildRow
  supersessions : List Supersession
  debt : List IndexPin
  candidates : List Candidate
  deriving DecidableEq, Repr

namespace Database

variable (db : Database)

def current : IndexPin := db.metadata.pin

def documentVersions : List DocumentVersion := db.parents.filterMap Parent.version?

def graphProjections : List GraphProjection := db.parents.filterMap Parent.graph?

def classProjections : List ClassProjection := db.parents.filterMap Parent.classes?

def childrenOf (k : ParentKey) : List ChildRow := db.children.filter fun r => r.parent = k

def manifestOf (pin : IndexPin) : List ManifestRow := db.manifest.filter fun m => m.revision = pin

def inputsOf (pin : IndexPin) : List CaptureInput := db.inputs.filter fun i => i.revision = pin

def headerOf (pin : IndexPin) : Option RevisionHeader := db.headers.find? fun h => h.pin = pin

def supersessionOf (pin : IndexPin) : Option Supersession :=
  db.supersessions.find? fun s => s.revision = pin

def stateOf (pin : IndexPin) : Option Retention := (db.supersessionOf pin).map Supersession.state

/-- `EXISTS(SELECT 1 FROM revision_documents WHERE {reference}=?1)`. -/
def Selected (k : ParentKey) : Prop := ∃ m ∈ db.manifest, k ∈ m.selects

instance (k : ParentKey) : Decidable (db.Selected k) :=
  inferInstanceAs (Decidable (∃ m ∈ db.manifest, k ∈ m.selects))

variable {db}

@[simp] theorem mem_documentVersions {v : DocumentVersion} :
    v ∈ db.documentVersions ↔ Parent.version v ∈ db.parents := by
  unfold documentVersions
  rw [List.mem_filterMap]
  constructor
  · rintro ⟨p, hp, hv⟩
    cases p <;> simp_all [Parent.version?]
  · intro h; exact ⟨_, h, rfl⟩

@[simp] theorem mem_graphProjections {g : GraphProjection} :
    g ∈ db.graphProjections ↔ Parent.graph g ∈ db.parents := by
  unfold graphProjections
  rw [List.mem_filterMap]
  constructor
  · rintro ⟨p, hp, hg⟩
    cases p <;> simp_all [Parent.graph?]
  · intro h; exact ⟨_, h, rfl⟩

@[simp] theorem mem_classProjections {c : ClassProjection} :
    c ∈ db.classProjections ↔ Parent.classes c ∈ db.parents := by
  unfold classProjections
  rw [List.mem_filterMap]
  constructor
  · rintro ⟨p, hp, hc⟩
    cases p <;> simp_all [Parent.classes?]
  · intro h; exact ⟨_, h, rfl⟩

end Database

/-! ### Foreign keys -/

/-- What a FOREIGN KEY clause asks of the database: a parent row, a class
projection of a given graph, or a child row with given columns. -/
inductive Reference where
  | parent (key : ParentKey)
  | classOf (projection graph : String)
  | row (table : ChildTable) (owner : String) (columns : List (Nat × Cell))
  deriving DecidableEq, Repr

def Reference.Met (db : Database) : Reference → Prop
  | parent key => ∃ p ∈ db.parents, p.key = key
  | classOf projection graph =>
      ∃ c ∈ db.classProjections, c.id = projection ∧ c.graphProjection = graph
  | row table owner columns =>
      ∃ r ∈ db.children, r.table = table ∧ r.owner = owner ∧ ∀ c ∈ columns, r.column c.1 = c.2

instance (db : Database) (ref : Reference) : Decidable (ref.Met db) := by
  cases ref <;> unfold Reference.Met <;> infer_instance

/-- A reference through a column that may be NULL, which then asks for nothing. -/
def nullable (c : Cell) (ref : Reference) : List Reference :=
  if c = .null then [] else [ref]

def ChildRow.references (r : ChildRow) : List Reference :=
  match r.table with
  | .callRegions =>
      [.row .calls r.owner [(0, r.column 0)], .row .controlRegions r.owner [(0, r.column 2)]]
  | .calls => [.row .declarations r.owner [(0, r.column 1)]]
  | .controlRegions =>
      .row .declarations r.owner [(0, r.column 1)]
        :: nullable (r.column 6)
          (.row .controlRegions r.owner [(0, r.column 6), (1, r.column 1)])
  | .headerItems => [.row .headers r.owner [(0, r.column 0)]]
  | .parameters => [.row .headers r.owner [(0, r.column 0)]]
  | .headers => [.row .declarations r.owner [(0, r.column 0)]]
  | .ancestorSignatureTypes =>
      [.row .declarationAncestors r.owner [(0, r.column 0), (1, r.column 1)]]
  | .ownSignatureTypes => [.row .declarations r.owner [(0, r.column 0)]]
  | .declarationAncestors => [.row .declarations r.owner [(0, r.column 0)]]
  | .declarations =>
      .parent ⟨.version, r.owner⟩
        :: nullable (r.column 1) (.row .declarations r.owner [(0, r.column 1)])
  | .coverageRoles => [.parent ⟨.version, r.owner⟩]
  | .graphNodes => [.parent ⟨.graph, r.owner⟩]
  | .graphCalls => [.row .graphNodes r.owner [(0, r.column 1)]]
  | .graphRegions => [.row .graphNodes r.owner [(0, r.column 1)]]
  | .classes =>
      [.classOf r.owner r.graphProjection, .row .graphNodes r.graphProjection [(0, r.column 0)]]
  | .classRelations =>
      .row .classes r.owner [(0, r.column 1)]
        :: nullable (r.column 2) (.row .classes r.owner [(0, r.column 2)])

/-- The references of a projection: the version it is of, in the same language, or
the graph it is of. -/
def Parent.Hangs (db : Database) : Parent → Prop
  | version _ => True
  | graph g => ∃ v ∈ db.documentVersions, v.id = g.documentVersion ∧ v.language = g.language
  | classes c => ∃ g ∈ db.graphProjections, g.id = c.graphProjection

instance (db : Database) (p : Parent) : Decidable (p.Hangs db) := by
  cases p <;> unfold Parent.Hangs <;> infer_instance

/-- The references of a manifest row to the parents it selects. -/
structure ManifestRow.Linked (db : Database) (m : ManifestRow) : Prop where
  version : ∃ v ∈ db.documentVersions, v.id = m.documentVersion ∧ v.sourceSet = m.sourceSet
    ∧ v.language = m.language ∧ v.path = m.path
  graph : ∃ g ∈ db.graphProjections,
    g.id = m.graphProjection ∧ g.documentVersion = m.documentVersion
  classes : ∀ id ∈ m.classProjection, ∃ c ∈ db.classProjections,
    c.id = id ∧ c.graphProjection = m.graphProjection

theorem ManifestRow.linked_iff {db : Database} {m : ManifestRow} :
    m.Linked db ↔ (∃ v ∈ db.documentVersions, v.id = m.documentVersion
        ∧ v.sourceSet = m.sourceSet ∧ v.language = m.language ∧ v.path = m.path)
      ∧ (∃ g ∈ db.graphProjections,
        g.id = m.graphProjection ∧ g.documentVersion = m.documentVersion)
      ∧ ∀ id ∈ m.classProjection.toList, ∃ c ∈ db.classProjections,
        c.id = id ∧ c.graphProjection = m.graphProjection := by
  simp only [Option.mem_toList]
  exact ⟨fun h => ⟨h.version, h.graph, h.classes⟩, fun h => ⟨h.1, h.2.1, h.2.2⟩⟩

instance (db : Database) (m : ManifestRow) : Decidable (m.Linked db) :=
  decidable_of_iff _ ManifestRow.linked_iff.symm

/-- A row that names a revision names one with a header. -/
def Database.Headed (db : Database) (pin : IndexPin) : Prop := ∃ h ∈ db.headers, h.pin = pin

instance (db : Database) (pin : IndexPin) : Decidable (db.Headed pin) :=
  inferInstanceAs (Decidable (∃ h ∈ db.headers, h.pin = pin))

/-- **Every reference is met**: what COMMIT checks. -/
structure Database.ForeignKeys (db : Database) : Prop where
  children : ∀ r ∈ db.children, ∀ ref ∈ r.references, ref.Met db
  parents : ∀ p ∈ db.parents, p.Hangs db
  manifest : ∀ m ∈ db.manifest, m.Linked db
  manifestHeaded : ∀ m ∈ db.manifest, db.Headed m.revision
  inputsHeaded : ∀ i ∈ db.inputs, db.Headed i.revision
  supersessionsHeaded : ∀ s ∈ db.supersessions, db.Headed s.revision
  debtHeaded : ∀ pin ∈ db.debt, db.Headed pin
  candidatesHeaded : ∀ c ∈ db.candidates, db.Headed c.revision

theorem Database.foreignKeys_iff {db : Database} :
    db.ForeignKeys ↔ (∀ r ∈ db.children, ∀ ref ∈ r.references, ref.Met db)
      ∧ (∀ p ∈ db.parents, p.Hangs db) ∧ (∀ m ∈ db.manifest, m.Linked db)
      ∧ (∀ m ∈ db.manifest, db.Headed m.revision) ∧ (∀ i ∈ db.inputs, db.Headed i.revision)
      ∧ (∀ s ∈ db.supersessions, db.Headed s.revision) ∧ (∀ pin ∈ db.debt, db.Headed pin)
      ∧ ∀ c ∈ db.candidates, db.Headed c.revision :=
  ⟨fun h => ⟨h.1, h.2, h.3, h.4, h.5, h.6, h.7, h.8⟩,
    fun h => ⟨h.1, h.2.1, h.2.2.1, h.2.2.2.1, h.2.2.2.2.1, h.2.2.2.2.2.1, h.2.2.2.2.2.2.1,
      h.2.2.2.2.2.2.2⟩⟩

instance (db : Database) : Decidable db.ForeignKeys :=
  decidable_of_iff _ Database.foreignKeys_iff.symm

end Baleyg.Store
