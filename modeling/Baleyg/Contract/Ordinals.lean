/-
Ordinals.

What has no name of its own is told from its like by an ordinal: the rows that agree on
everything else an identity is made of are one group, and within the group they are numbered in
the order of the source.  The rows are those of a measurement, taken as they come, so a row may
be anything a value can be.

Both numberings are `Numbering.assign`.  What is left to see here is when a row has a group, and
that the order they sort by is the order of the ranges.
-/
import Baleyg.Contract.Agree
import Baleyg.Contract.Formats
import Baleyg.Lib.Numbering

namespace Baleyg.Contract

open Fallible (ensure bind_eq_ok ensure_bind_eq_ok)
open Numbering (Stable Ranks SameGroup)

/-- A coordinate of a row.  Nothing here tells `-0` from `0`. -/
inductive Coordinate where
  | integer (z : Int)
  /-- A fraction, `NaN`, or no number at all. -/
  | other
  deriving DecidableEq, Repr

namespace Coordinate

/-- `Number.isSafeInteger`. -/
def safe : Coordinate → Bool
  | integer z => decide (-maxSafeInteger ≤ z ∧ z ≤ maxSafeInteger)
  | other => false

def value : Coordinate → Int
  | integer z => z
  | other => 0

end Coordinate

structure Span where
  start : Coordinate
  stop : Coordinate
  deriving DecidableEq, Repr

inductive OrdinalError where
  | typeError (message : String)
  | format (error : FormatError)
  | error (message : String)
  deriving DecidableEq, Repr

/-- A row of `assignOrdinals`.  A range that is not truthy is none. -/
structure DeclarationRow where
  sourceSetId : Value
  language : Value
  documentPath : Value
  revisionId : Value
  container : Value
  kind : Value
  name : Value
  signature : Value
  range : Option Span

/-- A row of `assignOccurrenceOrdinals`. -/
structure OccurrenceRow where
  revisionId : Value
  ownerSyntaxId : Value
  kind : Value
  range : Option Span

/-! ### Checks -/

def filled : Value → Bool
  | .string s => !s.isEmpty
  | _ => false

/-- `Array.isArray`. -/
def isArray : Value → Bool
  | .array _ => true
  | _ => false

def isHandle : Value → Bool
  | .string s => isSyntaxId s
  | _ => false

def isOccurrenceKind : Value → Bool
  | .string s => decide (s ∈ ["call", "reference", "control"].map unitsOf)
  | _ => false

/-- The checks of a range; an end may be too early for its start in one of two senses. -/
def placed (early : Int → Int → Bool) : Option Span → Bool
  | none => false
  | some range =>
      range.start.safe && range.stop.safe && !decide (range.start.value < 0) &&
        !early range.stop.value range.start.value

def DeclarationRow.group (row : DeclarationRow) : Except OrdinalError (List UInt8) := do
  ensure (filled row.sourceSetId && filled row.documentPath && filled row.revisionId &&
    isArray row.container && placed (fun stop start => stop < start) row.range)
    (OrdinalError.typeError "IDENTITY.ORDINAL invalid snapshot declaration row")
  (walk languageFormat row.language (unitsOf "Language")).mapError OrdinalError.format
  (canonicalBytes (.array [row.sourceSetId, row.language, row.documentPath, row.revisionId,
    row.container, row.kind, row.name, row.signature])).mapError OrdinalError.typeError

def OccurrenceRow.group (row : OccurrenceRow) : Except OrdinalError (List UInt8) := do
  ensure (isOccurrenceKind row.kind) (OrdinalError.typeError "IDENTITY.OCCURRENCE_KIND")
  ensure (filled row.revisionId && isHandle row.ownerSyntaxId &&
    placed (fun stop start => stop ≤ start) row.range)
    (OrdinalError.typeError "IDENTITY.OCCURRENCE invalid measured row")
  (canonicalBytes (.array [row.revisionId, row.ownerSyntaxId, row.kind])).mapError
    OrdinalError.typeError

/-! ### Orders -/

/-- `range.start`, of a row that has a group. -/
def startOf (range : Option Span) : Int := (range.map fun span => span.start.value).getD 0

/-- `range.end`. -/
def stopOf (range : Option Span) : Int := (range.map fun span => span.stop.value).getD 0

/-- What the sort of a group compares by. -/
def byRange (a b : Option Span) : Int :=
  if startOf a - startOf b ≠ 0 then startOf a - startOf b else stopOf a - stopOf b

def inOrder (a b : Option Span) : Bool := decide (byRange a b ≤ 0)

def sameRange (a b : Option Span) : Bool := startOf a == startOf b && stopOf a == stopOf b

def assignOrdinals (rows : List DeclarationRow) :
    Except OrdinalError (List (DeclarationRow × Nat)) :=
  Numbering.assign DeclarationRow.group (fun a b => inOrder a.range b.range)
    (fun a b => sameRange a.range b.range)
    (OrdinalError.error "IDENTITY.ORDINAL duplicate native range") rows

def assignOccurrenceOrdinals (rows : List OccurrenceRow) :
    Except OrdinalError (List (OccurrenceRow × Nat)) :=
  Numbering.assign OccurrenceRow.group (fun a b => inOrder a.range b.range)
    (fun a b => sameRange a.range b.range)
    (OrdinalError.error "IDENTITY.OCCURRENCE duplicate native range") rows

/-- In the order of `(start, end)`. -/
def Precedes (a b : Option Span) : Prop :=
  startOf a < startOf b ∨ startOf a = startOf b ∧ stopOf a < stopOf b

theorem inOrder_iff {a b : Option Span} :
    inOrder a b = true ↔ startOf a < startOf b ∨ startOf a = startOf b ∧ stopOf a ≤ stopOf b := by
  unfold inOrder byRange
  rw [decide_eq_true_iff]
  split <;> omega

theorem sameRange_iff {a b : Option Span} :
    sameRange a b = true ↔ startOf a = startOf b ∧ stopOf a = stopOf b := by
  unfold sameRange
  rw [Bool.and_eq_true, beq_iff_eq, beq_iff_eq]

variable {α : Type} {v : Value}

theorem ranks (range : α → Option Span) :
    Ranks (fun a b => inOrder (range a) (range b)) fun a b => sameRange (range a) (range b) where
  trans a b c hab hbc := by
    rw [inOrder_iff] at hab hbc ⊢
    omega
  total a b := by
    rw [Bool.or_eq_true, inOrder_iff, inOrder_iff]
    omega
  same_iff a b := by
    rw [inOrder_iff, inOrder_iff, sameRange_iff]
    omega

theorem earlier_iff (range : α → Option Span) {a b : α} :
    Numbering.earlier (fun a b => inOrder (range a) (range b)) a b = true ↔
      Precedes (range a) (range b) := by
  rw [(ranks range).earlier_iff, inOrder_iff, Bool.eq_false_iff, ne_eq, sameRange_iff]
  unfold Precedes
  omega

/-! ### Rows that have a group -/

/-- A value that can be written. -/
def Writable (v : Value) : Prop := ∃ w, Plain w ∧ ofNative w = v

/-- A range that begins at or after zero and is no longer than a number can be. -/
def Placed (late : Int → Int → Prop) (range : Option Span) : Prop :=
  ∃ start stop, range = some ⟨.integer start, .integer stop⟩ ∧ 0 ≤ start ∧ late start stop ∧
    stop ≤ maxSafeInteger

structure DeclarationRow.WellFormed (row : DeclarationRow) : Prop where
  sourceSetId : ∃ s, row.sourceSetId = .string s ∧ s ≠ []
  documentPath : ∃ s, row.documentPath = .string s ∧ s ≠ []
  revisionId : ∃ s, row.revisionId = .string s ∧ s ≠ []
  container : ∃ items, row.container = .array items
  range : Placed (· ≤ ·) row.range
  language : ∃ language ∈ ["java", "rust", "python", "javascript"],
    row.language = .string (unitsOf language)
  writable : ∀ v ∈ [row.sourceSetId, row.language, row.documentPath, row.revisionId,
    row.container, row.kind, row.name, row.signature], Writable v

structure OccurrenceRow.WellFormed (row : OccurrenceRow) : Prop where
  kind : ∃ kind ∈ ["call", "reference", "control"], row.kind = .string (unitsOf kind)
  revisionId : ∃ s, row.revisionId = .string s ∧ s ≠ []
  ownerSyntaxId : ∃ s, row.ownerSyntaxId = .string s ∧ isSyntaxId s = true
  range : Placed (· < ·) row.range
  writable : ∀ v ∈ [row.revisionId, row.ownerSyntaxId, row.kind], Writable v

theorem filled_iff : filled v = true ↔ ∃ s, v = .string s ∧ s ≠ [] := by
  cases v with
  | string s =>
      unfold filled
      rw [Bool.not_eq_true', List.isEmpty_eq_false_iff]
      exact ⟨fun h => ⟨s, rfl, h⟩, fun ⟨s', hs', h⟩ => Value.string.inj hs' ▸ h⟩
  | _ => exact ⟨(nomatch ·), fun ⟨_, h, _⟩ => nomatch h⟩

theorem isArray_iff : isArray v = true ↔ ∃ items, v = .array items := by
  cases v with
  | array items => exact ⟨fun _ => ⟨items, rfl⟩, fun _ => rfl⟩
  | _ => exact ⟨(nomatch ·), fun ⟨_, h⟩ => nomatch h⟩

theorem isHandle_iff : isHandle v = true ↔ ∃ s, v = .string s ∧ isSyntaxId s = true := by
  cases v with
  | string s => exact ⟨fun h => ⟨s, rfl, h⟩, fun ⟨s', hs', h⟩ => Value.string.inj hs' ▸ h⟩
  | _ => exact ⟨(nomatch ·), fun ⟨_, h, _⟩ => nomatch h⟩

theorem isOccurrenceKind_iff : isOccurrenceKind v = true ↔
    ∃ kind ∈ ["call", "reference", "control"], v = .string (unitsOf kind) := by
  cases v with
  | string s =>
      unfold isOccurrenceKind
      rw [decide_eq_true_iff, List.mem_map]
      constructor
      · rintro ⟨kind, hkind, rfl⟩
        exact ⟨kind, hkind, rfl⟩
      · rintro ⟨kind, hkind, h⟩
        exact ⟨kind, hkind, (Value.string.inj h).symm⟩
  | _ => exact ⟨(nomatch ·), fun ⟨_, _, h⟩ => nomatch h⟩

theorem placed_iff {early : Int → Int → Bool} {late : Int → Int → Prop}
    (hlate : ∀ start stop, early stop start = false ↔ late start stop)
    (hle : ∀ start stop, late start stop → start ≤ stop) {range : Option Span} :
    placed early range = true ↔ Placed late range := by
  cases range with
  | none => exact ⟨(nomatch ·), fun ⟨_, _, h, _⟩ => nomatch h⟩
  | some range =>
      obtain ⟨start, stop⟩ := range
      cases start with
      | other => exact ⟨(nomatch ·), fun ⟨_, _, h, _⟩ => nomatch h⟩
      | integer start =>
          cases stop with
          | other =>
              refine ⟨fun h => ?_, fun ⟨_, _, h, _⟩ => nomatch h⟩
              unfold placed at h
              rw [Bool.and_eq_true, Bool.and_eq_true, Bool.and_eq_true] at h
              exact absurd h.1.1.2 Bool.false_ne_true
          | integer stop =>
              unfold placed Placed
              simp only [Coordinate.safe, Coordinate.value, Bool.and_eq_true, Bool.not_eq_true',
                decide_eq_true_iff, hlate]
              constructor
              · rintro ⟨⟨⟨hstart, hstop⟩, hpos⟩, h⟩
                exact ⟨start, stop, rfl, Int.not_lt.mp (of_decide_eq_false hpos), h, hstop.2⟩
              · rintro ⟨_, _, h, hpos, hlate', hstop⟩
                cases h
                have hstart := hle start stop hlate'
                exact ⟨⟨⟨by omega, by omega⟩, decide_eq_false (Int.not_lt.mpr hpos)⟩, hlate'⟩

theorem walk_language {path : Units} {u : Unit} : walk languageFormat v path = .ok u ↔
      ∃ language ∈ ["java", "rust", "python", "javascript"], v = .string (unitsOf language) := by
  unfold languageFormat
  cases v with
  | string s =>
      unfold walk
      rw [Fallible.ensure_eq_ok, List.mem_map]
      constructor
      · rintro ⟨language, hlanguage, rfl⟩
        exact ⟨language, hlanguage, rfl⟩
      · rintro ⟨language, hlanguage, h⟩
        exact ⟨language, hlanguage, (Value.string.inj h).symm⟩
  | _ =>
      unfold walk
      exact ⟨(nomatch ·), fun ⟨_, _, h⟩ => nomatch h⟩

theorem canonicalBytes_array_isOk {vs : List Value} :
    (∃ bytes, canonicalBytes (.array vs) = .ok bytes) ↔ ∀ v ∈ vs, Writable v := by
  constructor
  · rintro ⟨bytes, h⟩ v hv
    obtain ⟨w, hplain, hw, -⟩ := canonicalBytes_eq_ok.mp h
    cases hplain with
    | array hitems =>
        rw [ofNative_array, Value.array.injEq] at hw
        rw [← hw] at hv
        obtain ⟨item, hitem, rfl⟩ := List.mem_map.mp hv
        exact ⟨item, hitems item hitem, rfl⟩
    | _ => cases hw
  · intro h
    have hitems : ∃ items : List Native.Value, (∀ item ∈ items, Plain item) ∧
        items.map ofNative = vs := by
      induction vs with
      | nil => exact ⟨[], fun _ h => absurd h List.not_mem_nil, rfl⟩
      | cons v vs ih =>
          obtain ⟨⟨w, hw, rfl⟩, hvs⟩ := List.forall_mem_cons.mp h
          obtain ⟨items, hplain, rfl⟩ := ih hvs
          exact ⟨w :: items, List.forall_mem_cons.mpr ⟨hw, hplain⟩, rfl⟩
    obtain ⟨items, hplain, rfl⟩ := hitems
    exact ⟨_, canonicalBytes_eq_ok.mpr ⟨.array items, .array hplain, ofNative_array items, rfl⟩⟩

theorem mapError_eq_ok {ε ε' : Type} {x : Except ε α} {f : ε → ε'} {a : α} :
    x.mapError f = .ok a ↔ x = .ok a := by
  cases x with
  | ok b => exact ⟨fun h => by rw [Except.ok.inj h], fun h => by rw [Except.ok.inj h]; rfl⟩
  | error e => exact ⟨(nomatch ·), (nomatch ·)⟩

/-- **A row of a declaration has a group exactly when it is as it should be.** -/
theorem DeclarationRow.group_isOk (row : DeclarationRow) :
    (∃ g, row.group = .ok g) ↔ row.WellFormed := by
  have hplaced : placed (fun stop start => stop < start) row.range = true ↔
      Placed (· ≤ ·) row.range :=
    placed_iff (fun start stop => by rw [decide_eq_false_iff_not, Int.not_lt]) fun _ _ h => h
  constructor
  · rintro ⟨g, h⟩
    obtain ⟨hchecks, h⟩ := ensure_bind_eq_ok.mp h
    obtain ⟨_, hlanguage, hbytes⟩ := bind_eq_ok.mp h
    simp only [Bool.and_eq_true] at hchecks
    obtain ⟨⟨⟨⟨hset, hpath⟩, hrevision⟩, hcontainer⟩, hrange⟩ := hchecks
    exact
      { sourceSetId := filled_iff.mp hset
        documentPath := filled_iff.mp hpath
        revisionId := filled_iff.mp hrevision
        container := isArray_iff.mp hcontainer
        range := hplaced.mp hrange
        language := walk_language.mp (mapError_eq_ok.mp hlanguage)
        writable := canonicalBytes_array_isOk.mp ⟨g, mapError_eq_ok.mp hbytes⟩ }
  · intro h
    obtain ⟨bytes, hbytes⟩ := canonicalBytes_array_isOk.mpr h.writable
    refine ⟨bytes, ensure_bind_eq_ok.mpr ⟨?_, bind_eq_ok.mpr ⟨(), ?_, ?_⟩⟩⟩
    · simp only [Bool.and_eq_true]
      exact ⟨⟨⟨⟨filled_iff.mpr h.sourceSetId, filled_iff.mpr h.documentPath⟩,
        filled_iff.mpr h.revisionId⟩, isArray_iff.mpr h.container⟩, hplaced.mpr h.range⟩
    · exact mapError_eq_ok.mpr (walk_language.mpr h.language)
    · exact mapError_eq_ok.mpr hbytes

theorem OccurrenceRow.group_isOk (row : OccurrenceRow) :
    (∃ g, row.group = .ok g) ↔ row.WellFormed := by
  have hplaced : placed (fun stop start => stop ≤ start) row.range = true ↔
      Placed (· < ·) row.range :=
    placed_iff (fun start stop => by rw [decide_eq_false_iff_not, Int.not_le]) fun _ _ =>
      Int.le_of_lt
  constructor
  · rintro ⟨g, h⟩
    obtain ⟨hkind, h⟩ := ensure_bind_eq_ok.mp h
    obtain ⟨hchecks, hbytes⟩ := ensure_bind_eq_ok.mp h
    simp only [Bool.and_eq_true] at hchecks
    obtain ⟨⟨hrevision, howner⟩, hrange⟩ := hchecks
    exact
      { kind := isOccurrenceKind_iff.mp hkind
        revisionId := filled_iff.mp hrevision
        ownerSyntaxId := isHandle_iff.mp howner
        range := hplaced.mp hrange
        writable := canonicalBytes_array_isOk.mp ⟨g, mapError_eq_ok.mp hbytes⟩ }
  · intro h
    obtain ⟨bytes, hbytes⟩ := canonicalBytes_array_isOk.mpr h.writable
    refine ⟨bytes, ensure_bind_eq_ok.mpr ⟨isOccurrenceKind_iff.mpr h.kind,
      ensure_bind_eq_ok.mpr ⟨?_, mapError_eq_ok.mpr hbytes⟩⟩⟩
    simp only [Bool.and_eq_true]
    exact ⟨⟨filled_iff.mpr h.revisionId, isHandle_iff.mpr h.ownerSyntaxId⟩, hplaced.mpr h.range⟩

/-! ### The numberings -/

theorem stable_byRange (key : α → Except OrdinalError (List UInt8)) (range : α → Option Span)
    (duplicate : OrdinalError) : Stable key (fun a b => Precedes (range a) (range b))
      (fun a b => startOf (range a) = startOf (range b) ∧ stopOf (range a) = stopOf (range b))
      (Numbering.assign key (fun a b => inOrder (range a) (range b))
        (fun a b => sameRange (range a) (range b)) duplicate) := by
  have hstable : Stable key _ _ _ := Numbering.stable duplicate (ranks range)
  simp only [earlier_iff, sameRange_iff] at hstable
  exact hstable

/-- **Ordinals number the source in order.**  An assignment fails exactly for a row that is not
as it should be and for two rows of a group with one range.  Otherwise the ordinals of every
group are those from zero up, in the order of the ranges, whatever order the rows come in and
whatever rows of other groups come with them. -/
theorem ordinals_stable :
    (∀ row : DeclarationRow, (∃ g, row.group = .ok g) ↔ row.WellFormed) ∧
    Stable DeclarationRow.group (fun a b => Precedes a.range b.range)
      (fun a b => startOf a.range = startOf b.range ∧ stopOf a.range = stopOf b.range)
      assignOrdinals ∧
    (∀ row : OccurrenceRow, (∃ g, row.group = .ok g) ↔ row.WellFormed) ∧
    Stable OccurrenceRow.group (fun a b => Precedes a.range b.range)
      (fun a b => startOf a.range = startOf b.range ∧ stopOf a.range = stopOf b.range)
      assignOccurrenceOrdinals :=
  ⟨DeclarationRow.group_isOk, stable_byRange DeclarationRow.group DeclarationRow.range _,
    OccurrenceRow.group_isOk, stable_byRange OccurrenceRow.group OccurrenceRow.range _⟩

end Baleyg.Contract
