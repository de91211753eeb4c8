/-
Native evidence: the records of an artifact.

An artifact is what one revision of a checkout measures: a header, which says what was
captured and by whom, and for every document its coverage, its provenance, and the
declarations, calls and control regions its syntax has.  Offsets are bytes of UTF-8; a text
is a list of characters, each with its size.

A declaration's kind, a language, a role and the state of a coverage are closed sets in the
source too, where they are spelled as strings; `text` is that spelling.
-/
import Mathlib.Algebra.BigOperators.Group.List.Basic
import Mathlib.Algebra.Order.Ring.Nat
import Mathlib.Data.String.Basic
import Baleyg.Native.Canonical

namespace Baleyg.Native

/-! ### Texts and ranges -/

structure Range where
  start : Nat
  stop : Nat
  deriving DecidableEq, Repr

def Range.le (a b : Range) : Bool := a.start < b.start || (a.start == b.start && a.stop ≤ b.stop)

def Range.within (r outer : Range) : Prop := outer.start ≤ r.start ∧ r.stop ≤ outer.stop

instance (r outer : Range) : Decidable (r.within outer) := inferInstanceAs (Decidable (_ ∧ _))

theorem Range.within_refl (r : Range) : r.within r := ⟨Nat.le_refl _, Nat.le_refl _⟩

theorem Range.within_trans {a b c : Range} (h : a.within b) (h' : b.within c) : a.within c :=
  ⟨h'.1.trans h.1, h.2.trans h'.2⟩

/-- `text.len()`. -/
def byteLength (text : String) : Nat := (text.toList.map Char.utf8Size).sum

/-- What is left behind the first bytes, where they are whole characters. -/
def dropBytes : List Char → Nat → Option (List Char)
  | cs, 0 => some cs
  | [], _ + 1 => none
  | c :: cs, n + 1 => if c.utf8Size ≤ n + 1 then dropBytes cs (n + 1 - c.utf8Size) else none

/-- The first bytes, where they are whole characters. -/
def takeBytes : List Char → Nat → Option (List Char)
  | _, 0 => some []
  | [], _ + 1 => none
  | c :: cs, n + 1 =>
      if c.utf8Size ≤ n + 1 then (takeBytes cs (n + 1 - c.utf8Size)).map (c :: ·) else none

/-- `text.is_char_boundary(i)`. -/
def isCharBoundary (text : String) (i : Nat) : Bool := (dropBytes text.toList i).isSome

/-- `text.get(range)`. -/
def get (text : String) (range : Range) : Option String :=
  if range.start ≤ range.stop then do
    let rest ← dropBytes text.toList range.start
    let taken ← takeBytes rest (range.stop - range.start)
    pure (String.ofList taken)
  else none

theorem dropBytes_add {cs rest : List Char} {i j : Nat} (h : dropBytes cs i = some rest) :
    dropBytes cs (i + j) = dropBytes rest j := by
  induction cs generalizing i with
  | nil =>
      cases i with
      | zero =>
          cases h
          rw [Nat.zero_add]
      | succ i => cases h
  | cons c cs ih =>
      cases i with
      | zero =>
          cases h
          rw [Nat.zero_add]
      | succ i =>
          unfold dropBytes at h
          by_cases hsize : c.utf8Size ≤ i + 1
          · rw [if_pos hsize] at h
            have hnext : i + 1 + j = i + j + 1 := by omega
            rw [hnext, dropBytes, if_pos (by omega), ← ih h]
            congr 1
            omega
          · rw [if_neg hsize] at h; cases h

theorem dropBytes_le {cs rest : List Char} {i : Nat} (h : dropBytes cs i = some rest) :
    i ≤ (cs.map Char.utf8Size).sum := by
  induction cs generalizing i with
  | nil =>
      cases i with
      | zero => exact Nat.zero_le _
      | succ i => cases h
  | cons c cs ih =>
      cases i with
      | zero => exact Nat.zero_le _
      | succ i =>
          unfold dropBytes at h
          by_cases hsize : c.utf8Size ≤ i + 1
          · rw [if_pos hsize] at h
            have hle := ih h
            rw [List.map_cons, List.sum_cons]
            omega
          · rw [if_neg hsize] at h; cases h

theorem dropBytes_of_takeBytes {cs taken : List Char} {i : Nat} (h : takeBytes cs i = some taken) :
    ∃ rest, dropBytes cs i = some rest := by
  induction cs generalizing i taken with
  | nil =>
      cases i with
      | zero => exact ⟨[], rfl⟩
      | succ i => cases h
  | cons c cs ih =>
      cases i with
      | zero => exact ⟨c :: cs, rfl⟩
      | succ i =>
          unfold takeBytes at h
          by_cases hsize : c.utf8Size ≤ i + 1
          · rw [if_pos hsize] at h
            obtain ⟨taken', htaken, -⟩ := Option.map_eq_some_iff.mp h
            obtain ⟨rest, hrest⟩ := ih htaken
            exact ⟨rest, by rw [dropBytes, if_pos hsize, hrest]⟩
          · rw [if_neg hsize] at h; cases h

theorem isCharBoundary_le {text : String} {i : Nat} (h : isCharBoundary text i = true) :
    i ≤ byteLength text := by
  obtain ⟨rest, hrest⟩ := Option.isSome_iff_exists.mp h
  exact dropBytes_le hrest

/-- **A range that can be read lies on boundaries, and a text that is not empty has room.** -/
theorem get_eq_some {text value : String} {range : Range} (h : get text range = some value) :
    isCharBoundary text range.start = true ∧ isCharBoundary text range.stop = true ∧
      range.start ≤ range.stop ∧ (value ≠ "" → range.start < range.stop) := by
  unfold get at h
  by_cases hle : range.start ≤ range.stop
  · rw [if_pos hle] at h
    obtain ⟨rest, hrest, h⟩ := Option.bind_eq_some_iff.mp h
    obtain ⟨taken, htaken, h⟩ := Option.bind_eq_some_iff.mp h
    cases h
    obtain ⟨rest', hrest'⟩ := dropBytes_of_takeBytes htaken
    refine ⟨Option.isSome_iff_exists.mpr ⟨rest, hrest⟩, ?_, hle, fun hne => ?_⟩
    · refine Option.isSome_iff_exists.mpr ⟨rest', ?_⟩
      rw [← hrest', ← dropBytes_add hrest]
      congr 1
      omega
    · refine Nat.lt_of_le_of_ne hle fun heq => hne ?_
      rw [heq, Nat.sub_self] at htaken
      cases rest <;> cases htaken <;> rfl
  · rw [if_neg hle] at h; cases h

/-! ### Closed sets of words -/

inductive Language where
  | java
  | rust
  | python
  | javascript
  deriving DecidableEq, Repr

namespace Language

def text : Language → String
  | java => "java"
  | rust => "rust"
  | python => "python"
  | javascript => "javascript"

/-- `LANGUAGES`. -/
def all : List Language := [java, rust, python, javascript]

/-- `language_order`. -/
def order : Language → Nat
  | java => 0
  | rust => 1
  | python => 2
  | javascript => 3

theorem text_inj {a b : Language} (h : a.text = b.text) : a = b := by
  cases a <;> cases b <;> first | rfl | exact absurd h (by decide)

end Language

inductive DeclarationKind where
  | moduleItem
  | namespaceItem
  | type
  | implementation
  | function
  | method
  | constructor
  | field
  | variableItem
  | parameter
  | typeParameter
  | aliasItem
  | anonymousFunction
  deriving DecidableEq, Repr

namespace DeclarationKind

def text : DeclarationKind → String
  | moduleItem => "module"
  | namespaceItem => "namespace"
  | type => "type"
  | implementation => "implementation"
  | function => "function"
  | method => "method"
  | constructor => "constructor"
  | field => "field"
  | variableItem => "variable"
  | parameter => "parameter"
  | typeParameter => "typeParameter"
  | aliasItem => "alias"
  | anonymousFunction => "anonymousFunction"

theorem text_inj {a b : DeclarationKind} (h : a.text = b.text) : a = b := by
  cases a <;> cases b <;> first | rfl | exact absurd h (by decide)

/-- A method or a constructor, which in Java has a signature. -/
def isMember : DeclarationKind → Bool
  | method | constructor => true
  | _ => false

def owns : DeclarationKind → Bool
  | moduleItem | namespaceItem | type | implementation | function | method | constructor
  | anonymousFunction => true
  | field | variableItem | parameter | typeParameter | aliasItem => false

end DeclarationKind

inductive Role where
  | definition
  | call
  deriving DecidableEq, Repr

inductive CoverageState where
  | complete
  | partly
  | failed
  deriving DecidableEq, Repr

/-! ### The records -/

structure SourceFile where
  path : String
  hash : String
  language : Language
  text : String
  deriving DecidableEq, Repr

structure Producer where
  id : String
  version : String
  executableHash : String
  kind : String
  languages : List Language
  positionEncoding : String
  deriving DecidableEq, Repr

structure SourceSet where
  id : String
  rootId : String
  languages : List Language
  dependencies : List String
  deriving DecidableEq, Repr

structure DocumentKey where
  sourceSetId : String
  language : Language
  path : String
  deriving DecidableEq, Repr

structure Document where
  key : DocumentKey
  revisionId : String
  contentHash : String
  byteLength : Nat
  deriving DecidableEq, Repr

structure Revision where
  id : String
  sourceSetId : String
  documents : List Document
  toolchainHash : String
  configHash : String
  dependencyHash : String
  deriving DecidableEq, Repr

structure Coverage where
  producerId : String
  language : Language
  sourceSetId : String
  documentPath : String
  revisionId : String
  requested : Bool
  selected : Bool
  state : CoverageState
  supportedRoles : List Role
  observedRoles : List Role
  diagnostic : Option String
  deriving DecidableEq, Repr

/-- A provenance; `basis` and `derived_from` are JSON that no measured fact has. -/
structure Provenance where
  id : String
  producerId : String
  document : DocumentKey
  revisionId : String
  contentHash : String
  evidenceKind : String
  basis : Option String
  freshness : String
  derivedFrom : Option String
  deriving DecidableEq, Repr

structure Signature where
  parameterTypes : List String
  typeParameterCount : Nat
  variadic : Bool
  deriving DecidableEq, Repr

structure Key where
  kind : DeclarationKind
  name : Option String
  signature : Option Signature
  ordinal : Nat
  deriving DecidableEq, Repr

structure Parameter where
  name : Option String
  typeName : Option String
  variadic : Bool
  deriving DecidableEq, Repr

structure Header where
  kind : DeclarationKind
  name : Option String
  modifiers : List String
  typeParameters : List String
  parameters : List Parameter
  resultType : Option String
  bases : List String
  deriving DecidableEq, Repr

structure Declaration where
  syntaxId : String
  document : DocumentKey
  revisionId : String
  kind : DeclarationKind
  name : Option String
  lookupKey : Option String
  ancestors : List Key
  key : Key
  range : Range
  nameRange : Option Range
  header : Header
  provenanceId : String
  deriving DecidableEq, Repr

structure Call where
  id : String
  ownerSyntaxId : String
  ordinal : Nat
  document : DocumentKey
  revisionId : String
  range : Range
  calleeRange : Option Range
  spelling : Option String
  regionIds : List String
  provenanceId : String
  deriving DecidableEq, Repr

structure ControlRegion where
  id : String
  ownerSyntaxId : String
  ordinal : Nat
  document : DocumentKey
  revisionId : String
  kind : String
  range : Range
  parentId : Option String
  arm : Option String
  provenanceId : String
  deriving DecidableEq, Repr

structure Artifact where
  producer : Producer
  sourceSet : SourceSet
  revision : Revision
  coverage : List Coverage
  provenance : List Provenance
  declarations : List Declaration
  calls : List Call
  controlRegions : List ControlRegion
  deriving DecidableEq, Repr

end Baleyg.Native
