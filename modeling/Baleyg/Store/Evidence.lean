/-
The evidence of one document, and the rows it is stored as.

A document is measured into three bodies of facts: its native facts, its graph,
its classes.  Each has a parent row whose witness column is a digest of exactly
those facts, and a list of child rows computed from them.  So a parent row decides
its own child rows, provided no two bodies of facts collide under the digest;
`Bound.rows_iff` says so, and every result about shared evidence rests on it.

The digest is SHA-256 over canonical JSON under a domain tag, both third-party.
It is a parameter here, and `Preimage` says what goes into it.  The facts are
hashed after a sort, so what is hashed of a list is the multiset of its elements.
-/
import Baleyg.Store.Schema
import Mathlib.Data.Multiset.Defs
import Mathlib.Data.Set.Function

namespace Baleyg.Store

/-! ### Native facts -/

structure Range where
  start : Nat
  stop : Nat
  deriving DecidableEq, Repr

structure Signature where
  parameterTypes : List String
  typeParameterCount : Nat
  variadic : Bool
  deriving DecidableEq, Repr

/-- `native_evidence::Key`: how a declaration is told from its siblings. -/
structure OccurrenceKey where
  kind : String
  name : Option String
  signature : Option Signature
  ordinal : Nat
  deriving DecidableEq, Repr

structure Parameter where
  name : Option String
  typeName : Option String
  variadic : Bool
  deriving DecidableEq, Repr

structure Header where
  kind : String
  name : Option String
  modifiers : List String
  typeParameters : List String
  parameters : List Parameter
  resultType : Option String
  bases : List String
  deriving DecidableEq, Repr

structure Declaration where
  syntaxId : String
  kind : String
  name : Option String
  lookupKey : Option String
  ancestors : List OccurrenceKey
  key : OccurrenceKey
  range : Range
  nameRange : Option Range
  header : Header
  deriving DecidableEq, Repr

structure Call where
  id : String
  ownerSyntaxId : String
  ordinal : Nat
  range : Range
  calleeRange : Option Range
  spelling : Option String
  regionIds : List String
  deriving DecidableEq, Repr

/-- `native_evidence::ControlRegion`. -/
structure NativeRegion where
  id : String
  ownerSyntaxId : String
  ordinal : Nat
  kind : String
  range : Range
  parentId : Option String
  arm : Option String
  deriving DecidableEq, Repr

structure Coverage where
  requested : Bool
  selected : Bool
  state : String
  supportedRoles : List String
  observedRoles : List String
  diagnostic : Option String
  deriving DecidableEq, Repr

/-! ### Graph and class facts

A record is stored with the columns the schema indexes and its whole JSON.
-/

structure Symbol where
  id : String
  name : String
  path : String
  payload : String
  deriving DecidableEq, Repr

structure CallSite where
  id : String
  caller : String
  path : String
  payload : String
  deriving DecidableEq, Repr

structure ControlRegion where
  id : String
  owner : String
  path : String
  payload : String
  deriving DecidableEq, Repr

structure ClassDefinition where
  id : String
  name : String
  qualifiedName : String
  path : String
  payload : String
  deriving DecidableEq, Repr

structure ClassRelation where
  id : String
  owner : String
  target : Option String
  payload : String
  deriving DecidableEq, Repr

/-- What hangs below a parent. -/
inductive Facts where
  | native (coverage : Coverage) (declarations : List Declaration) (calls : List Call)
      (regions : List NativeRegion)
  | graph (nodes : List Symbol) (calls : List CallSite) (regions : List ControlRegion)
  | classes (classes : List ClassDefinition) (relations : List ClassRelation)
  deriving DecidableEq, Repr

/-! ### Rows -/

namespace Cell

def nat (n : Nat) : Cell := .int n

def bool (b : Bool) : Cell := .int (if b then 1 else 0)

def text? : Option String → Cell
  | none => .null
  | some s => .text s

def nat? : Option Nat → Cell
  | none => .null
  | some n => nat n

def bool? : Option Bool → Cell
  | none => .null
  | some b => bool b

end Cell

section Rows

variable (version : String)

def coverageRoleRows (roleKind : String) (roles : List String) : List ChildRow :=
  roles.mapIdx fun ordinal role =>
    ⟨.coverageRoles, version, [.text roleKind, .nat ordinal], [.text role]⟩

/-- A row for each role that is supported, and for each that was observed. -/
def coverageRows (c : Coverage) : List ChildRow :=
  coverageRoleRows version "supported" c.supportedRoles
    ++ coverageRoleRows version "observed" c.observedRoles

/-- What an owner is looked up by: `(ancestors, key)`. -/
def Declaration.ownerKey (d : Declaration) : List OccurrenceKey × OccurrenceKey :=
  (d.ancestors, d.key)

/-- The declaration whose key is the last ancestor, under the ancestors before it. -/
def ownerOf (declarations : List Declaration) (d : Declaration) : Option String :=
  d.ancestors.getLast?.bind fun last =>
    (declarations.find? fun e => e.ownerKey = (d.ancestors.dropLast, last)).map (·.syntaxId)

def declarationRow (owner : Option String) (d : Declaration) : ChildRow :=
  ⟨.declarations, version, [.text d.syntaxId],
    [.text? owner, .text d.kind, .text? d.name, .text? d.lookupKey,
      .bool d.key.signature.isSome, .nat? (d.key.signature.map (·.typeParameterCount)),
      .bool? (d.key.signature.map (·.variadic)), .nat d.key.ordinal, .nat d.range.start,
      .nat d.range.stop, .nat? (d.nameRange.map (·.start)), .nat? (d.nameRange.map (·.stop))]⟩

def ownSignatureRows (d : Declaration) : List ChildRow :=
  ((d.key.signature.map (·.parameterTypes)).getD []).mapIdx fun ordinal parameter =>
    ⟨.ownSignatureTypes, version, [.text d.syntaxId, .nat ordinal], [.text parameter]⟩

def ancestorRow (d : Declaration) (ordinal : Nat) (key : OccurrenceKey) : ChildRow :=
  ⟨.declarationAncestors, version, [.text d.syntaxId, .nat ordinal],
    [.text key.kind, .text? key.name, .nat key.ordinal, .bool key.signature.isSome,
      .nat? (key.signature.map (·.typeParameterCount)),
      .bool? (key.signature.map (·.variadic))]⟩

def ancestorSignatureRows (d : Declaration) (ordinal : Nat) (key : OccurrenceKey) :
    List ChildRow :=
  ((key.signature.map (·.parameterTypes)).getD []).mapIdx fun parameterOrdinal parameter =>
    ⟨.ancestorSignatureTypes, version,
      [.text d.syntaxId, .nat ordinal, .nat parameterOrdinal], [.text parameter]⟩

/-- An ancestor is a row, and its signature hangs below it. -/
def ancestorRows (d : Declaration) : List ChildRow :=
  (d.ancestors.mapIdx fun ordinal key =>
    ancestorRow version d ordinal key :: ancestorSignatureRows version d ordinal key).flatten

def headerRow (d : Declaration) : ChildRow :=
  ⟨.headers, version, [.text d.syntaxId],
    [.text d.header.kind, .text? d.header.name, .text? d.header.resultType]⟩

def headerItemRows (d : Declaration) (itemKind : String) (items : List String) :
    List ChildRow :=
  items.mapIdx fun ordinal item =>
    ⟨.headerItems, version, [.text d.syntaxId, .text itemKind, .nat ordinal], [.text item]⟩

def parameterRows (d : Declaration) : List ChildRow :=
  d.header.parameters.mapIdx fun ordinal parameter =>
    ⟨.parameters, version, [.text d.syntaxId, .nat ordinal],
      [.text? parameter.name, .text? parameter.typeName, .bool parameter.variadic]⟩

/-- A declaration, with its header, its parameters and those it stands in. -/
def declarationRows (declarations : List Declaration) (d : Declaration) : List ChildRow :=
  declarationRow version (ownerOf declarations d) d :: ownSignatureRows version d
    ++ ancestorRows version d ++ headerRow version d
      :: headerItemRows version d "modifier" d.header.modifiers
    ++ headerItemRows version d "typeParameter" d.header.typeParameters
    ++ headerItemRows version d "base" d.header.bases ++ parameterRows version d

def regionRow (r : NativeRegion) : ChildRow :=
  ⟨.controlRegions, version, [.text r.id],
    [.text r.ownerSyntaxId, .nat r.ordinal, .text r.kind, .nat r.range.start,
      .nat r.range.stop, .text? r.parentId, .text? r.arm]⟩

def callRows (c : Call) : List ChildRow :=
  ⟨.calls, version, [.text c.id],
    [.text c.ownerSyntaxId, .nat c.ordinal, .nat c.range.start, .nat c.range.stop,
      .nat? (c.calleeRange.map (·.start)), .nat? (c.calleeRange.map (·.stop)),
      .text? c.spelling]⟩
    :: c.regionIds.mapIdx fun ordinal region =>
      ⟨.callRegions, version, [.text c.id, .nat ordinal], [.text region]⟩

def nativeRows (coverage : Coverage) (declarations : List Declaration) (calls : List Call)
    (regions : List NativeRegion) : List ChildRow :=
  coverageRows version coverage ++ declarations.flatMap (declarationRows version declarations)
    ++ regions.map (regionRow version) ++ calls.flatMap (callRows version)

end Rows

def symbolRow (graph : String) (n : Symbol) : ChildRow :=
  ⟨.graphNodes, graph, [.text n.id], [.text n.name, .text n.path, .text n.payload]⟩

/-- `target` is written as NULL: a graph call names no resolved callee. -/
def callSiteRow (graph : String) (c : CallSite) : ChildRow :=
  ⟨.graphCalls, graph, [.text c.id], [.text c.caller, .null, .text c.path, .text c.payload]⟩

def controlRegionRow (graph : String) (r : ControlRegion) : ChildRow :=
  ⟨.graphRegions, graph, [.text r.id], [.text r.owner, .text r.path, .text r.payload]⟩

def graphRows (graph : String) (nodes : List Symbol) (calls : List CallSite)
    (regions : List ControlRegion) : List ChildRow :=
  nodes.map (symbolRow graph) ++ calls.map (callSiteRow graph)
    ++ regions.map (controlRegionRow graph)

def classRow (projection graph : String) (c : ClassDefinition) : ChildRow :=
  ⟨.classes, projection, [.text c.id],
    [.text graph, .text c.name, .text c.qualifiedName, .text c.path, .text c.payload]⟩

def relationRow (projection : String) (r : ClassRelation) : ChildRow :=
  ⟨.classRelations, projection, [.text r.id], [.text r.owner, .text? r.target, .text r.payload]⟩

def classRows (projection graph : String) (classes : List ClassDefinition)
    (relations : List ClassRelation) : List ChildRow :=
  classes.map (classRow projection graph) ++ relations.map (relationRow projection)

/-- The child rows a parent row stores its facts as. -/
def Parent.rows : Parent → Facts → List ChildRow
  | .version v, .native coverage declarations calls regions =>
      nativeRows v.id coverage declarations calls regions
  | .graph g, .graph nodes calls regions => graphRows g.id nodes calls regions
  | .classes c, .classes definitions relations =>
      classRows c.id c.graphProjection definitions relations
  | _, _ => []

/-! ### Rows hang off their parent -/

/-- All rows hang below one. -/
def HangOff (k : ParentKey) (rows : List ChildRow) : Prop := ∀ r ∈ rows, r.parent = k

namespace HangOff

variable {k : ParentKey} {rows rows' : List ChildRow} {α : Type}

theorem append (h : HangOff k rows) (h' : HangOff k rows') : HangOff k (rows ++ rows') := by
  intro r hr
  rcases List.mem_append.mp hr with hr | hr
  · exact h r hr
  · exact h' r hr

theorem cons {r : ChildRow} (hr : r.parent = k) (h : HangOff k rows) : HangOff k (r :: rows) := by
  intro r' hr'
  rcases List.mem_cons.mp hr' with rfl | hr'
  · exact hr
  · exact h r' hr'

theorem map {f : α → ChildRow} (l : List α) (h : ∀ a, (f a).parent = k) :
    HangOff k (l.map f) := by
  intro r hr
  obtain ⟨a, -, rfl⟩ := List.mem_map.mp hr
  exact h a

theorem mapIdx {f : Nat → α → ChildRow} (l : List α) (h : ∀ i a, (f i a).parent = k) :
    HangOff k (l.mapIdx f) := by
  intro r hr
  obtain ⟨i, hi, rfl⟩ := List.mem_mapIdx.mp hr
  exact h i _

theorem flatMap {f : α → List ChildRow} (l : List α) (h : ∀ a, HangOff k (f a)) :
    HangOff k (l.flatMap f) := by
  intro r hr
  obtain ⟨a, -, hr⟩ := List.mem_flatMap.mp hr
  exact h a r hr

theorem flatten_mapIdx {f : Nat → α → List ChildRow} (l : List α)
    (h : ∀ i a, HangOff k (f i a)) : HangOff k (l.mapIdx f).flatten := by
  intro r hr
  obtain ⟨rs, hrs, hr⟩ := List.mem_flatten.mp hr
  obtain ⟨i, hi, rfl⟩ := List.mem_mapIdx.mp hrs
  exact h i _ r hr

end HangOff

theorem hangOff_declarationRows (version : String) (all : List Declaration) (d : Declaration) :
    HangOff ⟨.version, version⟩ (declarationRows version all d) := by
  unfold declarationRows
  refine .append (.append (.append (.append (.append (.cons rfl ?_) ?_) (.cons rfl ?_)) ?_) ?_) ?_
  · exact .mapIdx _ fun _ _ => rfl
  · exact .flatten_mapIdx _ fun _ _ => .cons rfl (.mapIdx _ fun _ _ => rfl)
  · exact .mapIdx _ fun _ _ => rfl
  · exact .mapIdx _ fun _ _ => rfl
  · exact .mapIdx _ fun _ _ => rfl
  · exact .mapIdx _ fun _ _ => rfl

theorem hangOff_nativeRows (version : String) (coverage : Coverage)
    (declarations : List Declaration) (calls : List Call) (regions : List NativeRegion) :
    HangOff ⟨.version, version⟩ (nativeRows version coverage declarations calls regions) := by
  unfold nativeRows
  refine .append (.append (.append ?_ ?_) ?_) ?_
  · exact .append (.mapIdx _ fun _ _ => rfl) (.mapIdx _ fun _ _ => rfl)
  · exact .flatMap _ (hangOff_declarationRows version declarations)
  · exact .map _ fun _ => rfl
  · exact .flatMap _ fun _ => .cons rfl (.mapIdx _ fun _ _ => rfl)

/-- Whatever facts a parent has, their rows hang below it. -/
theorem Parent.hangOff_rows (p : Parent) (f : Facts) : HangOff p.key (p.rows f) := by
  unfold Parent.rows
  split
  · exact hangOff_nativeRows _ _ _ _ _
  · exact .append (.append (.map _ fun _ => rfl) (.map _ fun _ => rfl)) (.map _ fun _ => rfl)
  · exact .append (.map _ fun _ => rfl) (.map _ fun _ => rfl)
  · intro r hr; cases hr

/-! ### Digests -/

structure DocumentIdentity where
  sourceSet : String
  language : String
  path : String
  contentHash : String
  extractionContext : String
  producer : String
  producerVersion : String
  deriving DecidableEq, Repr

/-- What is hashed, under the domain tag of each: a version's identity, and the
three bodies of facts. -/
inductive Preimage where
  | documentVersion (identity : DocumentIdentity)
  | nativeWitness (identity : DocumentIdentity) (byteLength : Nat) (coverage : Coverage)
      (declarations : Multiset Declaration) (calls : Multiset Call)
      (regions : Multiset NativeRegion)
  | graphProjection (documentVersion : String) (nodes : Multiset Symbol)
      (calls : Multiset CallSite) (regions : Multiset ControlRegion)
  | classProjection (graphProjection : String) (classes : Multiset ClassDefinition)
      (relations : Multiset ClassRelation)
  deriving DecidableEq

/-- Two declarations of one document never share ancestors and key. -/
def Facts.OwnersKeyed : Facts → Prop
  | native _ declarations _ _ => Table.Keyed Declaration.ownerKey declarations
  | _ => True

namespace Parent

def identity (v : DocumentVersion) : DocumentIdentity :=
  ⟨v.sourceSet, v.language, v.path, v.contentHash, v.extractionContext, v.producer,
    v.producerVersion⟩

def witness : Parent → String
  | version v => v.nativeWitness
  | graph g => g.graphHash
  | classes c => c.contentHash

/-- What the witness is a digest of, for facts of the parent's family. -/
def preimage : Parent → Facts → Option Preimage
  | version v, .native coverage declarations calls regions =>
      some (.nativeWitness (identity v) v.byteLength coverage declarations calls regions)
  | graph g, .graph nodes calls regions =>
      some (.graphProjection g.documentVersion nodes calls regions)
  | classes c, .classes definitions relations =>
      some (.classProjection c.graphProjection definitions relations)
  | _, _ => none

end Parent

variable {digest : Preimage → String} {P : Set Preimage}

/-- **These are the facts the row witnesses**: their preimage is one of those the
history hashes, and its digest is the row's witness. -/
structure Parent.Bound (digest : Preimage → String) (P : Set Preimage) (p : Parent)
    (f : Facts) : Prop where
  hashed : ∃ x ∈ P, p.preimage f = some x ∧ digest x = p.witness
  keyed : f.OwnersKeyed

/-- Who owns a declaration does not depend on the order of declarations. -/
theorem ownerOf_perm {all all' : List Declaration}
    (h : Table.Keyed Declaration.ownerKey all) (hperm : all.Perm all') (d : Declaration) :
    ownerOf all d = ownerOf all' d := by
  unfold ownerOf
  congr 1
  funext last
  congr 1
  refine h.find?_perm hperm fun a b ha hb => ?_
  rw [decide_eq_true_eq] at ha hb
  rw [ha, hb]

theorem mem_nativeRows_perm {version : String} {coverage : Coverage}
    {declarations declarations' : List Declaration} {calls calls' : List Call}
    {regions regions' : List NativeRegion}
    (hkeyed : Table.Keyed Declaration.ownerKey declarations)
    (hd : declarations.Perm declarations') (hc : calls.Perm calls') (hr : regions.Perm regions')
    (r : ChildRow) :
    r ∈ nativeRows version coverage declarations calls regions
      ↔ r ∈ nativeRows version coverage declarations' calls' regions' := by
  have howner : declarationRows version declarations = declarationRows version declarations' := by
    funext d
    unfold declarationRows
    rw [ownerOf_perm hkeyed hd]
  unfold nativeRows
  simp only [List.mem_append, List.mem_flatMap, List.mem_map, howner, hd.mem_iff, hc.mem_iff,
    hr.mem_iff]

/-- **A parent row decides its own child rows**, as long as no two of the hashed
preimages collide. -/
theorem Parent.Bound.rows_iff {p : Parent} {f f' : Facts} (hinj : Set.InjOn digest P)
    (h : p.Bound digest P f) (h' : p.Bound digest P f') (r : ChildRow) :
    r ∈ p.rows f ↔ r ∈ p.rows f' := by
  obtain ⟨x, hx, hpre, hdig⟩ := h.hashed
  obtain ⟨x', hx', hpre', hdig'⟩ := h'.hashed
  have hsame : x = x' := hinj hx hx' (hdig.trans hdig'.symm)
  rw [← hsame, ← hpre] at hpre'
  cases p with
  | version v =>
      cases f <;> cases f' <;> simp only [preimage, Option.some.injEq, reduceCtorEq] at hpre hpre'
      injection hpre' with _ _ hcov hdecl hcalls hregions
      rw [hcov]
      exact (mem_nativeRows_perm h'.keyed (Multiset.coe_eq_coe.mp hdecl)
        (Multiset.coe_eq_coe.mp hcalls) (Multiset.coe_eq_coe.mp hregions) r).symm
  | graph g =>
      cases f <;> cases f' <;> simp only [preimage, Option.some.injEq, reduceCtorEq] at hpre hpre'
      injection hpre' with _ hnodes hcalls hregions
      simp only [rows, graphRows, List.mem_append, List.mem_map,
        (Multiset.coe_eq_coe.mp hnodes).mem_iff, (Multiset.coe_eq_coe.mp hcalls).mem_iff,
        (Multiset.coe_eq_coe.mp hregions).mem_iff]
  | classes c =>
      cases f <;> cases f' <;> simp only [preimage, Option.some.injEq, reduceCtorEq] at hpre hpre'
      injection hpre' with _ hclasses hrelations
      simp only [rows, classRows, List.mem_append, List.mem_map,
        (Multiset.coe_eq_coe.mp hclasses).mem_iff, (Multiset.coe_eq_coe.mp hrelations).mem_iff]

end Baleyg.Store
