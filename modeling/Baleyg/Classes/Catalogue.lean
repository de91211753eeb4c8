/-
The class catalogue composed of extractions.

Extractions are taken in the order of their paths, and five budgets are spent on the way.  Where
the source, the registry text or the number of classes is spent, composition stops; where the
records or the text of the details are spent, only details stop, and every class that misses one
from there on is marked.

`Faithful` ties what has been composed to what was to be composed: each class is the one
extracted, or is marked and has lost members; while details are open nothing is lost at all.  One
detail keeps this (`Filling.step`), so do one class, one file and the whole loop.
-/
import Mathlib.Algebra.Order.BigOperators.Group.List
import Mathlib.Data.List.Destutter
import Baleyg.Lib.Loops
import Baleyg.Lib.Ranking
import Baleyg.Classes.Extraction

namespace Baleyg.Classes

open Native (SourceFile byteLength)

/-! ### Composition -/

structure Catalog where
  classes : List ClassDefinition := []
  relations : List ClassRelation := []
  warnings : List String := []
  truncated : Bool := false
  deriving DecidableEq

namespace Catalog

def addWarning (text : Nat) (r : Catalog) (message : String) : Catalog :=
  if r.warnings.length < 100 ∧ message ∉ r.warnings then
    { r with warnings := r.warnings ++ [String.ofList (message.toList.take text)] }
  else r

def limitWarning (text : Nat) (r : Catalog) (message : String) : Catalog :=
  { r with truncated := true }.addWarning text message

end Catalog

structure Composition where
  result : Catalog := {}
  source : Nat := 0
  registry : Nat := 0
  records : Nat := 0
  detail : Nat := 0
  registryComplete : Bool := true
  detailOpen : Bool := true

def detailMessage (limits : Limits) (s : Composition) (item : DetailItem) : String :=
  if limits.records < s.records + item.records then
    s!"Class detail limit reached ({limits.records} records / {limits.outputText / (1024 * 1024)} MiB text / {limits.visits} visits per file); declaration discovery continues"
  else
    s!"Class detail text limit reached ({limits.outputText / (1024 * 1024)} MiB); declaration discovery continues"

def composeItem (limits : Limits) (held : Composition × ClassDefinition) (item : DetailItem) :
    Composition × ClassDefinition :=
  let (s, c) := held
  if s.detailOpen = false then (s, { c with truncated := true })
  else if limits.records < s.records + item.records ∨
      limits.outputText < s.detail + item.text then
    ({ s with
        result := s.result.limitWarning limits.text (detailMessage limits s item)
        detailOpen := false },
      { c with truncated := true })
  else
    let s := { s with records := s.records + item.records, detail := s.detail + item.text }
    match item.value with
    | .field value => (s, { c with fields := c.fields ++ [value] })
    | .method value => (s, { c with methods := c.methods ++ [value] })
    | .relation value =>
        ({ s with result := { s.result with relations := s.result.relations ++ [value] } }, c)
    | .scopeText => (s, c)

def ClassDefinition.cleared (c : ClassDefinition) : ClassDefinition :=
  { c with fields := [], methods := [] }

/-- One class.  To leave the loop over the files is to throw what there is. -/
def composeClass (limits : Limits) (f : FileExtraction) (s : Composition)
    (entry : ClassDefinition × Nat) : Except Composition Composition :=
  if s.result.classes.length = limits.classes then
    .error { s with
      result := s.result.limitWarning limits.text
        s!"Class catalog declaration limit reached ({limits.classes})"
      registryComplete := false }
  else
    let items := f.items.filter fun item => item.classIndex = entry.2
    let (s, c) := items.foldl (composeItem limits) (s, entry.1.cleared)
    .ok { s with result := { s.result with classes := s.result.classes ++ [c] } }

def begin (limits : Limits) (s : Composition) (f : FileExtraction) : Composition :=
  let result := f.warnings.foldl (Catalog.addWarning limits.text) s.result
  { s with
    source := s.source + f.sourceBytes
    registry := s.registry + f.registryBytes
    result := { result with truncated := result.truncated || f.truncated }
    registryComplete := s.registryComplete && !f.registryIncomplete }

def composeFile (limits : Limits) (s : Composition) (f : FileExtraction) :
    Except Composition Composition :=
  if limits.totalBytes < s.source + f.sourceBytes then
    .error { s with
      result := s.result.limitWarning limits.text
        s!"Class catalog source limit exceeded ({limits.totalBytes / (1024 * 1024)} MiB)"
      registryComplete := false }
  else if limits.registryText < s.registry + f.registryBytes then
    .error { s with
      result := s.result.limitWarning limits.text
        s!"Class declaration registry text limit reached ({limits.registryText / (1024 * 1024)} MiB)"
      registryComplete := false }
  else f.classes.zipIdx.foldlM (composeClass limits f) (begin limits s f)

def composeFiles (limits : Limits) (ordered : List FileExtraction) : Composition :=
  Loops.outcome (ordered.foldlM (composeFile limits) {})

def before (a b : String × Nat × String) : Bool :=
  a.1 < b.1 || (a.1 = b.1 && (a.2.1 < b.2.1 || (a.2.1 = b.2.1 && a.2.2 ≤ b.2.2)))

def ClassDefinition.place (c : ClassDefinition) : String × Nat × String :=
  (c.symbol.path, c.symbol.range.startByte, c.symbol.id)

def ClassRelation.place (r : ClassRelation) : String × Nat × String :=
  (r.path, r.range.startByte, r.id)

def arrange (s : Composition) : Catalog where
  classes := s.result.classes.mergeSort fun a b => before a.place b.place
  relations := (s.result.relations.mergeSort fun a b => before a.place b.place).destutter
    fun a b => a.id ≠ b.id
  warnings := s.result.warnings ++
    (if s.result.classes = [] then [] else
      ["Declared types are terminal source text, not class relationships. Direct Java/Python declarations only; no function-body, conditional/anonymous class, generated member, wildcard-import, type-alias or dependency discovery."]) ++
    if s.registryComplete = true then []
    else ["Incomplete class declaration registry: some declarations may be absent."]
  truncated := s.result.truncated

def overfull (limits : Limits) (fileCount symbolCount : Nat) : Bool :=
  limits.files < fileCount || limits.symbols < symbolCount

def compose (extracts : List FileExtraction) (fileCount symbolCount : Nat) (limits : Limits) :
    Catalog :=
  if overfull limits fileCount symbolCount = true then
    { truncated := true
      warnings :=
        [s!"Class catalog input limit exceeded ({limits.files} files / {limits.symbols} symbols)"] }
  else arrange (composeFiles limits (Ranking.ordered FileExtraction.path extracts))

/-! ### What there is of a catalogue -/

section Sizes

def ClassDefinition.count (c : ClassDefinition) : Nat := c.fields.length + c.methods.length

def ClassDefinition.detailText (c : ClassDefinition) : Nat :=
  (c.fields.map ClassMember.textBytes).sum + (c.methods.map ClassMember.textBytes).sum

def Catalog.records (r : Catalog) : Nat :=
  (r.classes.map ClassDefinition.count).sum + r.relations.length

def Catalog.detailText (r : Catalog) : Nat :=
  (r.classes.map ClassDefinition.detailText).sum + (r.relations.map ClassRelation.textBytes).sum

def Catalog.registryText (r : Catalog) : Nat :=
  (r.classes.map ClassDefinition.registryText).sum

end Sizes

/-- The files that the source and the registry budgets let in. -/
def within (limits : Limits) : Nat → Nat → List FileExtraction → List FileExtraction
  | _, _, [] => []
  | source, registry, f :: rest =>
      if limits.totalBytes < source + f.sourceBytes ∨
          limits.registryText < registry + f.registryBytes then []
      else f :: within limits (source + f.sourceBytes) (registry + f.registryBytes) rest

/-- What `compose` reads of the extractions. -/
def read (limits : Limits) (fileCount symbolCount : Nat) (extracts : List FileExtraction) :
    List FileExtraction :=
  if overfull limits fileCount symbolCount = true then []
  else within limits 0 0 (Ranking.ordered FileExtraction.path extracts)

def relationsIn (f : FileExtraction) : List ClassRelation :=
  f.classes.zipIdx.flatMap fun entry => relationsOf f.items entry.2

/-! ### Faithful composition -/

def Clipped (c c' : ClassDefinition) : Prop :=
  c'.head = c.head ∧ (c'.truncated = false → c' = c)

/-- **What was composed against what was to be composed.** -/
structure Faithful (limits : Limits) (classes : List ClassDefinition)
    (relations : List ClassRelation) (s : Composition) : Prop where
  kept : List.Forall₂ Clipped classes s.result.classes
  /-- While details are open nothing is lost. -/
  full : s.detailOpen = true → s.result.classes = classes ∧ s.result.relations = relations
  closed : s.detailOpen = false → s.result.truncated = true
  number : s.result.classes.length ≤ limits.classes
  records : s.result.records ≤ s.records ∧ s.records ≤ limits.records
  text : s.result.detailText ≤ s.detail ∧ s.detail ≤ limits.outputText

/-- The same within a class, of which `c` is what there is so far of `p`. -/
structure Filling (limits : Limits) (classes : List ClassDefinition)
    (relations : List ClassRelation) (p : ClassDefinition) (held : Composition × ClassDefinition) :
    Prop where
  kept : List.Forall₂ Clipped classes held.1.result.classes
  last : Clipped p held.2
  full : held.1.detailOpen = true →
    held.1.result.classes = classes ∧ held.2 = p ∧ held.1.result.relations = relations
  closed : held.1.detailOpen = false → held.1.result.truncated = true
  number : held.1.result.classes.length < limits.classes
  records : held.1.result.records + held.2.count ≤ held.1.records ∧ held.1.records ≤ limits.records
  text : held.1.result.detailText + held.2.detailText ≤ held.1.detail ∧
    held.1.detail ≤ limits.outputText

section Loop

variable {limits : Limits} {classes : List ClassDefinition} {relations : List ClassRelation}
  {s t : Composition} {c p : ClassDefinition} {held : Composition × ClassDefinition}

theorem Clipped.refl (c : ClassDefinition) : Clipped c c := ⟨rfl, fun _ => rfl⟩

theorem Catalog.addWarning_frame (text : Nat) (r : Catalog) (message : String) :
    (r.addWarning text message).classes = r.classes ∧
      (r.addWarning text message).relations = r.relations ∧
      (r.addWarning text message).truncated = r.truncated := by
  unfold Catalog.addWarning
  split
  · exact ⟨rfl, rfl, rfl⟩
  · exact ⟨rfl, rfl, rfl⟩

theorem Catalog.foldl_addWarning_frame (text : Nat) (messages : List String) (r : Catalog) :
    (messages.foldl (Catalog.addWarning text) r).classes = r.classes ∧
      (messages.foldl (Catalog.addWarning text) r).relations = r.relations ∧
      (messages.foldl (Catalog.addWarning text) r).truncated = r.truncated := by
  induction messages generalizing r with
  | nil => exact ⟨rfl, rfl, rfl⟩
  | cons message rest ih =>
      obtain ⟨hclasses, hrelations, htruncated⟩ := ih (r.addWarning text message)
      obtain ⟨hclasses', hrelations', htruncated'⟩ := Catalog.addWarning_frame text r message
      exact ⟨hclasses.trans hclasses', hrelations.trans hrelations', htruncated.trans htruncated'⟩

theorem Catalog.limitWarning_frame (text : Nat) (r : Catalog) (message : String) :
    (r.limitWarning text message).classes = r.classes ∧
      (r.limitWarning text message).relations = r.relations ∧
      (r.limitWarning text message).truncated = true :=
  Catalog.addWarning_frame text { r with truncated := true } message

theorem Catalog.records_congr {r r' : Catalog} (hclasses : r'.classes = r.classes)
    (hrelations : r'.relations = r.relations) : r'.records = r.records := by
  unfold Catalog.records
  rw [hclasses, hrelations]

theorem Catalog.detailText_congr {r r' : Catalog} (hclasses : r'.classes = r.classes)
    (hrelations : r'.relations = r.relations) : r'.detailText = r.detailText := by
  unfold Catalog.detailText
  rw [hclasses, hrelations]

theorem count_add (c : ClassDefinition) (value : DetailValue) :
    (c.add value).count = c.count + value.field?.toList.length + value.method?.toList.length := by
  unfold ClassDefinition.count ClassDefinition.add
  rw [List.length_append, List.length_append]
  omega

theorem detailText_add (c : ClassDefinition) (value : DetailValue) :
    (c.add value).detailText = c.detailText +
      (value.field?.toList.map ClassMember.textBytes).sum +
      (value.method?.toList.map ClassMember.textBytes).sum := by
  unfold ClassDefinition.detailText ClassDefinition.add
  rw [List.map_append, List.map_append, List.sum_append, List.sum_append]
  omega

theorem count_parts (value : DetailValue) : value.field?.toList.length +
    value.method?.toList.length + value.relation?.toList.length = value.count := by
  cases value <;> rfl

theorem textBytes_parts (value : DetailValue) :
    (value.field?.toList.map ClassMember.textBytes).sum +
      (value.method?.toList.map ClassMember.textBytes).sum +
      (value.relation?.toList.map ClassRelation.textBytes).sum = value.textBytes := by
  cases value with
  | field | method | relation =>
      simp [DetailValue.field?, DetailValue.method?, DetailValue.relation?,
        DetailValue.textBytes]
  | scopeText => rfl

theorem composeItem_eq {item : DetailItem} (hopen : s.detailOpen = true)
    (hfits : ¬ (limits.records < s.records + item.records ∨
      limits.outputText < s.detail + item.text)) :
    composeItem limits (s, c) item =
      ({ s with
          records := s.records + item.records
          detail := s.detail + item.text
          result := { s.result with
            relations := s.result.relations ++ item.value.relation?.toList } },
        c.add item.value) := by
  unfold composeItem ClassDefinition.add
  have hclosed : ¬ s.detailOpen = false := by simp [hopen]
  simp only [if_neg hclosed, if_neg hfits]
  cases item.value with
  | field | method | relation | scopeText =>
      simp [DetailValue.field?, DetailValue.method?, DetailValue.relation?]

theorem Clipped.mark (h : Clipped p c) (value : DetailValue) :
    Clipped (p.add value) { c with truncated := true } := by
  constructor
  · show c.head = p.head
    exact h.1
  · intro htruncated; cases htruncated

theorem Clipped.add (h : Clipped p c) (value : DetailValue) :
    Clipped (p.add value) (c.add value) := by
  constructor
  · exact h.1
  · intro htruncated
    rw [h.2 htruncated]

/-- **One detail keeps the composition faithful.** -/
theorem Filling.step {item : DetailItem} (h : Filling limits classes relations p held)
    (hpaid : item.Paid) :
    Filling limits classes (relations ++ item.value.relation?.toList) (p.add item.value)
      (composeItem limits held item) := by
  obtain ⟨s, c⟩ := held
  by_cases hopen : s.detailOpen = true
  · by_cases hover : limits.records < s.records + item.records ∨
        limits.outputText < s.detail + item.text
    · -- The detail does not fit: the details are closed and the class is marked.
      have hclosed : ¬ s.detailOpen = false := by simp [hopen]
      unfold composeItem
      simp only [if_neg hclosed, if_pos hover]
      obtain ⟨hclasses, hrelations, htruncated⟩ :=
        Catalog.limitWarning_frame limits.text s.result (detailMessage limits s item)
      refine ⟨?_, h.last.mark _, ?_, fun _ => htruncated, ?_, ?_, ?_⟩
      · rw [hclasses]; exact h.kept
      · intro hfalse; cases hfalse
      · rw [hclasses]; exact h.number
      · rw [Catalog.records_congr hclasses hrelations]; exact h.records
      · rw [Catalog.detailText_congr hclasses hrelations]; exact h.text
    · rw [composeItem_eq hopen hover]
      rw [not_or, Nat.not_lt, Nat.not_lt] at hover
      obtain ⟨hclasses, hc, hrelations⟩ := h.full hopen
      refine ⟨h.kept, h.last.add _, fun _ => ⟨hclasses, ?_, ?_⟩, ?_, h.number, ?_, ?_⟩
      · show c.add item.value = p.add item.value
        rw [show c = p from hc]
      · show s.result.relations ++ _ = relations ++ _
        rw [show s.result.relations = relations from hrelations]
      · intro hfalse
        rw [show s.detailOpen = true from hopen] at hfalse
        cases hfalse
      · refine ⟨?_, hover.1⟩
        have hcount := hpaid.1
        have hrecords := h.records.1
        rw [count_add]
        unfold Catalog.records at hrecords ⊢
        rw [List.length_append]
        have hparts := count_parts item.value
        dsimp only at hrecords ⊢
        omega
      · refine ⟨?_, hover.2⟩
        have hpays := hpaid.2
        have htext := h.text.1
        rw [detailText_add]
        unfold Catalog.detailText at htext ⊢
        rw [List.map_append, List.sum_append]
        have hparts := textBytes_parts item.value
        dsimp only at htext ⊢
        omega
  · have hclosed : s.detailOpen = false := by simpa using hopen
    unfold composeItem
    simp only [if_pos hclosed]
    refine ⟨h.kept, h.last.mark _, ?_, h.closed, h.number, h.records, h.text⟩
    intro htrue
    rw [show s.detailOpen = false from hclosed] at htrue
    cases htrue

/-- **The details of a class keep it faithful.** -/
theorem Filling.run {items : List DetailItem} (h : Filling limits classes relations p held)
    (hpaid : ∀ item ∈ items, item.Paid) :
    Filling limits classes
      (relations ++ (items.map DetailItem.value).filterMap DetailValue.relation?)
      ((items.map DetailItem.value).foldl ClassDefinition.add p)
      (items.foldl (composeItem limits) held) := by
  induction items generalizing relations p held with
  | nil => rw [List.map_nil, List.filterMap_nil, List.append_nil]; exact h
  | cons item items ih =>
      have hstep := h.step (hpaid item List.mem_cons_self)
      have hrest := ih hstep fun other hother => hpaid other (List.mem_cons_of_mem _ hother)
      rw [List.append_assoc] at hrest
      have hsplit : item.value.relation?.toList ++
          (items.map DetailItem.value).filterMap DetailValue.relation? =
            ((item :: items).map DetailItem.value).filterMap DetailValue.relation? := by
        rw [List.map_cons, List.filterMap_cons]
        cases item.value.relation? with
        | none | some => rfl
      rw [hsplit] at hrest
      exact hrest

theorem foldl_add_cleared (c : ClassDefinition) (values : List DetailValue) :
    values.foldl ClassDefinition.add c =
      { c with
        fields := c.fields ++ values.filterMap DetailValue.field?
        methods := c.methods ++ values.filterMap DetailValue.method? } := by
  induction values generalizing c with
  | nil =>
      rw [List.filterMap_nil, List.filterMap_nil, List.append_nil, List.append_nil]
      rfl
  | cons value values ih =>
      rw [List.foldl_cons, ih]
      unfold ClassDefinition.add
      rw [List.filterMap_cons, List.filterMap_cons]
      cases value with
      | field | method | relation | scopeText => simp [DetailValue.field?, DetailValue.method?]

variable {f : FileExtraction}

theorem whole_of_recorded (hrec : f.Recorded) {k : Nat} (hk : f.classes[k]? = some c) :
    (detailsOf f.items k).foldl ClassDefinition.add c.cleared = c := by
  have hfields := hrec.fields k c hk
  have hmethods := hrec.methods k c hk
  unfold fieldsOf at hfields
  unfold methodsOf at hmethods
  rw [foldl_add_cleared, ← hfields, ← hmethods]
  rfl

theorem Filling.push (h : Filling limits classes relations p (s, c)) :
    Faithful limits (classes ++ [p]) relations
      { s with result := { s.result with classes := s.result.classes ++ [c] } } := by
  refine ⟨?_, ?_, h.closed, ?_, ?_, ?_⟩
  · exact List.rel_append h.kept (.cons h.last .nil)
  · intro hopen
    obtain ⟨hclasses, hc, hrelations⟩ := h.full hopen
    refine ⟨?_, hrelations⟩
    show s.result.classes ++ [c] = classes ++ [p]
    rw [show s.result.classes = classes from hclasses, show c = p from hc]
  · have hnumber := h.number
    show (s.result.classes ++ [c]).length ≤ limits.classes
    rw [List.length_append, List.length_singleton]
    exact hnumber
  · refine ⟨?_, h.records.2⟩
    have hrecords := h.records.1
    unfold Catalog.records at hrecords ⊢
    rw [List.map_append, List.sum_append, List.map_singleton, List.sum_singleton]
    dsimp only at hrecords ⊢
    omega
  · refine ⟨?_, h.text.2⟩
    have htext := h.text.1
    unfold Catalog.detailText at htext ⊢
    rw [List.map_append, List.sum_append, List.map_singleton, List.sum_singleton]
    dsimp only at htext ⊢
    omega

theorem composeItem_frame (limits : Limits) (held : Composition × ClassDefinition)
    (item : DetailItem) : (composeItem limits held item).1.source = held.1.source ∧
      (composeItem limits held item).1.registry = held.1.registry := by
  unfold composeItem
  dsimp only
  split
  · exact ⟨rfl, rfl⟩
  · split
    · exact ⟨rfl, rfl⟩
    · cases item.value <;> exact ⟨rfl, rfl⟩

theorem foldl_composeItem_frame (limits : Limits) (items : List DetailItem)
    (held : Composition × ClassDefinition) :
    (items.foldl (composeItem limits) held).1.source = held.1.source ∧
      (items.foldl (composeItem limits) held).1.registry = held.1.registry := by
  induction items generalizing held with
  | nil => exact ⟨rfl, rfl⟩
  | cons item items ih =>
      obtain ⟨hsource, hregistry⟩ := ih (composeItem limits held item)
      obtain ⟨hsource', hregistry'⟩ := composeItem_frame limits held item
      exact ⟨hsource.trans hsource', hregistry.trans hregistry'⟩

/-- **One class keeps the composition faithful.** -/
theorem Faithful.composeClass (h : Faithful limits classes relations s) (hrec : f.Recorded)
    {k : Nat} (hk : f.classes[k]? = some c) (hok : composeClass limits f s (c, k) = .ok t) :
    Faithful limits (classes ++ [c]) (relations ++ relationsOf f.items k) t ∧
      t.source = s.source ∧ t.registry = s.registry := by
  unfold Classes.composeClass at hok
  by_cases hfull : s.result.classes.length = limits.classes
  · rw [if_pos hfull] at hok; cases hok
  · rw [if_neg hfull] at hok
    have hstart : Filling limits classes relations c.cleared (s, c.cleared) := by
      refine ⟨h.kept, Clipped.refl _, ?_, h.closed, ?_, h.records, h.text⟩
      · intro hopen
        obtain ⟨hclasses, hrelations⟩ := h.full hopen
        exact ⟨hclasses, rfl, hrelations⟩
      · have := h.number
        show s.result.classes.length < limits.classes
        omega
    have hpaid : ∀ item ∈ f.items.filter fun item => item.classIndex = k, item.Paid :=
      fun item hitem => hrec.paid item (List.mem_of_mem_filter hitem)
    have hrun := hstart.run hpaid
    have hframe := foldl_composeItem_frame limits
      (f.items.filter fun item => item.classIndex = k) (s, c.cleared)
    have hwhole := whole_of_recorded hrec hk
    unfold detailsOf at hwhole
    rw [hwhole] at hrun
    have heq := Except.ok.inj hok
    subst heq
    exact ⟨hrun.push, hframe⟩

theorem Faithful.stop (h : Faithful limits classes relations s) (message : String) :
    Faithful limits classes relations
      { s with
        result := s.result.limitWarning limits.text message
        registryComplete := false } := by
  obtain ⟨hclasses, hrelations, htruncated⟩ :=
    Catalog.limitWarning_frame limits.text s.result message
  refine ⟨?_, ?_, fun _ => htruncated, ?_, ?_, ?_⟩
  · rw [hclasses]; exact h.kept
  · rw [hclasses, hrelations]; exact h.full
  · rw [hclasses]; exact h.number
  · rw [Catalog.records_congr hclasses hrelations]; exact h.records
  · rw [Catalog.detailText_congr hclasses hrelations]; exact h.text

theorem begin_frame (limits : Limits) (s : Composition) (f : FileExtraction) :
    (begin limits s f).result.classes = s.result.classes ∧
      (begin limits s f).result.relations = s.result.relations ∧
      (begin limits s f).result.truncated = (s.result.truncated || f.truncated) := by
  obtain ⟨hclasses, hrelations, htruncated⟩ :=
    Catalog.foldl_addWarning_frame limits.text f.warnings s.result
  exact ⟨hclasses, hrelations, congrArg (· || f.truncated) htruncated⟩

theorem Faithful.begin (h : Faithful limits classes relations s) (f : FileExtraction) :
    Faithful limits classes relations (begin limits s f) := by
  obtain ⟨hclasses, hrelations, htruncated⟩ := begin_frame limits s f
  refine ⟨?_, ?_, ?_, ?_, ?_, ?_⟩
  · rw [hclasses]; exact h.kept
  · rw [hclasses, hrelations]; exact h.full
  · intro hclosed
    rw [htruncated, h.closed hclosed]
    rfl
  · rw [hclasses]; exact h.number
  · rw [Catalog.records_congr hclasses hrelations]; exact h.records
  · rw [Catalog.detailText_congr hclasses hrelations]; exact h.text

def Partway (limits : Limits) (f : FileExtraction) (classes : List ClassDefinition)
    (relations : List ClassRelation) (s : Composition) (done : List (ClassDefinition × Nat))
    (t : Composition) : Prop :=
  Faithful limits (classes ++ done.map Prod.fst)
      (relations ++ done.flatMap fun entry => relationsOf f.items entry.2) t ∧
    t.source = s.source ∧ t.registry = s.registry

theorem Partway.start (h : Faithful limits classes relations s) (f : FileExtraction) :
    Partway limits f classes relations (begin limits s f) [] (begin limits s f) := by
  refine ⟨?_, rfl, rfl⟩
  rw [List.map_nil, List.flatMap_nil, List.append_nil, List.append_nil]
  exact h.begin f

theorem Partway.step (hrec : f.Recorded) {done : List (ClassDefinition × Nat)}
    {entry : ClassDefinition × Nat} (hentry : entry ∈ f.classes.zipIdx) {u : Composition}
    (h : Partway limits f classes relations s done t)
    (hok : Classes.composeClass limits f t entry = .ok u) :
    Partway limits f classes relations s (done ++ [entry]) u := by
  obtain ⟨hfaithful, hsource, hregistry⟩ := h
  obtain ⟨c, k⟩ := entry
  have hk : f.classes[k]? = some c := List.mem_zipIdx_iff_getElem?.mp hentry
  obtain ⟨hnext, hsource', hregistry'⟩ := hfaithful.composeClass hrec hk hok
  refine ⟨?_, hsource'.trans hsource, hregistry'.trans hregistry⟩
  rw [List.map_append, List.flatMap_append, ← List.append_assoc, ← List.append_assoc]
  rw [List.flatMap_singleton]
  exact hnext

/-- **A file that is composed to its end.** -/
theorem Faithful.composeFile (h : Faithful limits classes relations s) (hrec : f.Recorded)
    (hok : composeFile limits s f = .ok t) :
    Faithful limits (classes ++ f.classes) (relations ++ relationsIn f) t ∧
      s.source + f.sourceBytes ≤ limits.totalBytes ∧
      s.registry + f.registryBytes ≤ limits.registryText ∧
      t.source = s.source + f.sourceBytes ∧ t.registry = s.registry + f.registryBytes := by
  unfold Classes.composeFile at hok
  by_cases hsource : limits.totalBytes < s.source + f.sourceBytes
  · rw [if_pos hsource] at hok; cases hok
  · by_cases hregistry : limits.registryText < s.registry + f.registryBytes
    · rw [if_neg hsource, if_pos hregistry] at hok; cases hok
    · rw [if_neg hsource, if_neg hregistry] at hok
      have hrun := Loops.foldlM_ok (fun done entry hentry u v hu hv =>
        Partway.step hrec hentry hu hv) (Partway.start h f) hok
      obtain ⟨hfaithful, hsource', hregistry'⟩ := hrun
      rw [List.nil_append, List.zipIdx_map_fst] at hfaithful
      exact ⟨hfaithful, Nat.not_lt.mp hsource, Nat.not_lt.mp hregistry, hsource', hregistry'⟩

/-- **A file at which composition stops.**  Either nothing of it is taken, for want of room in a
budget, or so many of its classes as were still allowed. -/
theorem Faithful.composeFile_error (h : Faithful limits classes relations s) (hrec : f.Recorded)
    (herror : Classes.composeFile limits s f = .error t) : t.result.truncated = true ∧
      ((limits.totalBytes < s.source + f.sourceBytes ∨
          limits.registryText < s.registry + f.registryBytes) ∧
        Faithful limits classes relations t ∨
      (¬ (limits.totalBytes < s.source + f.sourceBytes ∨
          limits.registryText < s.registry + f.registryBytes) ∧
        limits.classes ≤ (classes ++ f.classes).length ∧
        ∃ relations', Faithful limits ((classes ++ f.classes).take limits.classes) relations' t)) := by
  unfold Classes.composeFile at herror
  by_cases hsource : limits.totalBytes < s.source + f.sourceBytes
  · rw [if_pos hsource] at herror
    cases herror
    exact ⟨(Catalog.limitWarning_frame _ _ _).2.2, .inl ⟨.inl hsource, h.stop _⟩⟩
  · by_cases hregistry : limits.registryText < s.registry + f.registryBytes
    · rw [if_neg hsource, if_pos hregistry] at herror
      cases herror
      exact ⟨(Catalog.limitWarning_frame _ _ _).2.2, .inl ⟨.inr hregistry, h.stop _⟩⟩
    · rw [if_neg hsource, if_neg hregistry] at herror
      obtain ⟨before, entry, after, u, hsplit, ⟨hfaithful, -, -⟩, hstop⟩ :=
        Loops.foldlM_error (fun done entry hentry u v hu hv =>
          Partway.step hrec hentry hu hv) (Partway.start h f) herror
      unfold Classes.composeClass at hstop
      by_cases hfull : u.result.classes.length = limits.classes
      · rw [if_pos hfull] at hstop
        cases hstop
        have hlength := hfaithful.kept.length_eq
        rw [List.nil_append] at hlength hfaithful
        have hclasses : f.classes = before.map Prod.fst ++ (entry :: after).map Prod.fst := by
          rw [← List.map_append, ← hsplit, List.zipIdx_map_fst]
        rw [hclasses, ← List.append_assoc]
        refine ⟨(Catalog.limitWarning_frame _ _ _).2.2, .inr ⟨?_, ?_,
          relations ++ before.flatMap fun entry => relationsOf f.items entry.2, ?_⟩⟩
        · rintro (hover | hover)
          · exact hsource hover
          · exact hregistry hover
        · rw [List.length_append]; omega
        · rw [List.take_append_of_le_length (by omega), List.take_of_length_le (by omega)]
          exact hfaithful.stop _
      · rw [if_neg hfull] at hstop; cases hstop

/-- The files done so far, and what the budgets let in of any that follow. -/
def Underway (limits : Limits) (done : List FileExtraction) (s : Composition) : Prop :=
  Faithful limits (done.flatMap FileExtraction.classes) (done.flatMap relationsIn) s ∧
    ∀ rest, within limits 0 0 (done ++ rest) = done ++ within limits s.source s.registry rest

theorem Underway.start (limits : Limits) : Underway limits [] {} := by
  refine ⟨⟨.nil, fun _ => ⟨rfl, rfl⟩, ?_, Nat.zero_le _, ?_, ?_⟩, fun _ => rfl⟩
  · intro hclosed; cases hclosed
  · exact ⟨Nat.le_refl _, Nat.zero_le _⟩
  · exact ⟨Nat.le_refl _, Nat.zero_le _⟩

theorem Underway.step {done : List FileExtraction} (hrec : f.Recorded) (h : Underway limits done s)
    (hok : composeFile limits s f = .ok t) : Underway limits (done ++ [f]) t := by
  obtain ⟨hfaithful, hwithin⟩ := h
  obtain ⟨hnext, hsource, hregistry, hsource', hregistry'⟩ := hfaithful.composeFile hrec hok
  constructor
  · rw [List.flatMap_append, List.flatMap_append, List.flatMap_singleton, List.flatMap_singleton]
    exact hnext
  · intro rest
    rw [List.append_assoc, List.singleton_append, hwithin, List.append_assoc,
      List.singleton_append, hsource', hregistry']
    congr 1
    show (if _ then _ else _) = _
    rw [if_neg (by omega)]

/-- **The loop over the files.** -/
theorem composeFiles_faithful (limits : Limits) {ordered : List FileExtraction}
    (hrec : ∀ f ∈ ordered, f.Recorded) :
    ∃ relations, Faithful limits
        (((within limits 0 0 ordered).flatMap FileExtraction.classes).take limits.classes) relations
        (composeFiles limits ordered) ∧
      ((composeFiles limits ordered).result.truncated = false →
        ((within limits 0 0 ordered).flatMap FileExtraction.classes).take limits.classes =
          ordered.flatMap FileExtraction.classes ∧
        relations = ordered.flatMap relationsIn) := by
  have hstep : ∀ done, ∀ f ∈ ordered, ∀ s t, Underway limits done s →
      composeFile limits s f = .ok t → Underway limits (done ++ [f]) t :=
    fun done f hf s t h hok => h.step (hrec f hf) hok
  unfold composeFiles
  cases hrun : ordered.foldlM (composeFile limits) {} with
  | ok t =>
      obtain ⟨hfaithful, hwithin⟩ := Loops.foldlM_ok hstep (Underway.start limits) hrun
      rw [List.nil_append] at hfaithful
      have hall := hwithin []
      rw [List.append_nil, List.nil_append] at hall
      have hnil : within limits t.source t.registry [] = [] := rfl
      rw [hnil, List.append_nil] at hall
      have htake : (ordered.flatMap FileExtraction.classes).take limits.classes =
          ordered.flatMap FileExtraction.classes := by
        apply List.take_of_length_le
        rw [hfaithful.kept.length_eq]
        exact hfaithful.number
      rw [hall, htake]
      exact ⟨_, hfaithful, fun _ => ⟨rfl, rfl⟩⟩
  | error t =>
      obtain ⟨before, f, after, s, hsplit, ⟨hfaithful, hwithin⟩, hstop⟩ :=
        Loops.foldlM_error hstep (Underway.start limits) hrun
      rw [List.nil_append] at hfaithful hwithin
      have hf : f ∈ ordered := by
        rw [hsplit]
        exact List.mem_append_right _ List.mem_cons_self
      have hlength : (before.flatMap FileExtraction.classes).length ≤ limits.classes := by
        rw [hfaithful.kept.length_eq]
        exact hfaithful.number
      obtain ⟨htruncated, hcase⟩ := hfaithful.composeFile_error (hrec f hf) hstop
      have hmarked : (Loops.outcome (.error t : Except Composition Composition)).result.truncated ≠
          false := by
        show t.result.truncated ≠ false
        rw [htruncated]
        exact Bool.noConfusion
      rw [hsplit, hwithin]
      rcases hcase with ⟨hover, hstopped⟩ | ⟨hroom, hmany, relations', hstopped⟩
      · -- No room for the file in a budget.
        have hnone : within limits s.source s.registry (f :: after) = [] := if_pos hover
        rw [hnone, List.append_nil, List.take_of_length_le hlength]
        exact ⟨_, hstopped, fun h => absurd h hmarked⟩
      · have hsome : within limits s.source s.registry (f :: after) =
            f :: within limits (s.source + f.sourceBytes) (s.registry + f.registryBytes) after :=
          if_neg hroom
        rw [hsome, List.flatMap_append, List.flatMap_cons, ← List.append_assoc]
        refine ⟨relations', ?_, fun h => absurd h hmarked⟩
        -- The class at which the number was reached is one of this file.
        rw [List.take_append_of_le_length hmany]
        exact hstopped

end Loop

/-! ### The catalogue -/

section Results

variable {limits : Limits} {extracts : List FileExtraction} {fileCount symbolCount : Nat}

theorem within_budgets (limits : Limits) (files : List FileExtraction) (source registry : Nat)
    (hsource : source ≤ limits.totalBytes) (hregistry : registry ≤ limits.registryText) :
    source + ((within limits source registry files).map FileExtraction.sourceBytes).sum ≤
        limits.totalBytes ∧
      registry + ((within limits source registry files).map FileExtraction.registryBytes).sum ≤
        limits.registryText := by
  induction files generalizing source registry with
  | nil => exact ⟨hsource, hregistry⟩
  | cons f rest ih =>
      unfold within
      split
      · exact ⟨hsource, hregistry⟩
      · obtain ⟨hsource', hregistry'⟩ :=
          ih (source + f.sourceBytes) (registry + f.registryBytes) (by omega) (by omega)
        rw [List.map_cons, List.map_cons, List.sum_cons, List.sum_cons]
        exact ⟨by omega, by omega⟩

theorem within_sublist (limits : Limits) (source registry : Nat) (files : List FileExtraction) :
    (within limits source registry files).Sublist files := by
  induction files generalizing source registry with
  | nil => exact List.Sublist.slnil
  | cons f rest ih =>
      unfold within
      split
      · exact List.nil_sublist _
      · exact (ih _ _).cons_cons f

theorem exists_mem_destutter' {relations : List ClassRelation} {first r : ClassRelation}
    (h : r ∈ first :: relations) :
    ∃ r' ∈ relations.destutter' (fun a b => a.id ≠ b.id) first, r'.id = r.id := by
  induction relations generalizing first r with
  | nil =>
      refine ⟨first, List.mem_destutter' [] _ _, ?_⟩
      rw [List.mem_singleton.mp h]
  | cons next rest ih =>
      by_cases hne : first.id ≠ next.id
      · rw [List.destutter'_cons_pos rest hne]
        rcases List.mem_cons.mp h with hfirst | hrest
        · exact ⟨first, List.mem_cons_self, by rw [hfirst]⟩
        · obtain ⟨r', hr', hid⟩ := ih hrest
          exact ⟨r', List.mem_cons_of_mem _ hr', hid⟩
      · rw [List.destutter'_cons_neg rest hne]
        rw [ne_eq, not_not] at hne
        rcases List.mem_cons.mp h with hfirst | hrest
        · exact ih (List.mem_cons.mpr (.inl hfirst))
        · rcases List.mem_cons.mp hrest with hnext | hrest
          · obtain ⟨r', hr', hid⟩ := ih (r := first) List.mem_cons_self
            exact ⟨r', hr', by rw [hid, hne, hnext]⟩
          · exact ih (List.mem_cons_of_mem _ hrest)

theorem exists_mem_destutter {relations : List ClassRelation} {r : ClassRelation}
    (h : r ∈ relations) : ∃ r' ∈ relations.destutter fun a b => a.id ≠ b.id, r'.id = r.id := by
  cases relations with
  | nil => cases h
  | cons first rest => exact exists_mem_destutter' h

theorem perm_arrange (s : Composition) : (arrange s).classes.Perm s.result.classes :=
  List.mergeSort_perm _ _

theorem arrange_relations (s : Composition) : (arrange s).relations.Sublist
    (s.result.relations.mergeSort fun a b => before a.place b.place) :=
  List.destutter_sublist (fun a b : ClassRelation => a.id ≠ b.id) _

theorem arrange_records (s : Composition) : (arrange s).records ≤ s.result.records := by
  have hclasses := ((perm_arrange s).map ClassDefinition.count).sum_eq
  have hrelations := (arrange_relations s).length_le
  rw [List.length_mergeSort] at hrelations
  unfold Catalog.records
  omega

theorem arrange_detailText (s : Composition) : (arrange s).detailText ≤ s.result.detailText := by
  have hclasses := ((perm_arrange s).map ClassDefinition.detailText).sum_eq
  have hsorted := ((List.mergeSort_perm s.result.relations fun a b : ClassRelation =>
    before a.place b.place).map ClassRelation.textBytes).sum_eq
  have hrelations := ((arrange_relations s).map ClassRelation.textBytes).sum_le_sum
    fun n _ => Nat.zero_le n
  unfold Catalog.detailText
  omega

theorem exists_mem_arrange {s : Composition} {r : ClassRelation} (h : r ∈ s.result.relations) :
    ∃ r' ∈ (arrange s).relations, r'.id = r.id :=
  exists_mem_destutter (List.mem_mergeSort.mpr h)

theorem map_head_of_clipped {classes classes' : List ClassDefinition}
    (h : List.Forall₂ Clipped classes classes') :
    classes'.map ClassDefinition.head = classes.map ClassDefinition.head := by
  induction h with
  | nil => rfl
  | cons hat _ ih => rw [List.map_cons, List.map_cons, ih, hat.1]

theorem compose_of_room (h : overfull limits fileCount symbolCount = false) :
    compose extracts fileCount symbolCount limits =
      arrange (composeFiles limits (Ranking.ordered FileExtraction.path extracts)) := by
  unfold compose
  rw [h]
  rfl

theorem read_of_room (h : overfull limits fileCount symbolCount = false) :
    read limits fileCount symbolCount extracts =
      within limits 0 0 (Ranking.ordered FileExtraction.path extracts) := by
  unfold read
  rw [h]
  rfl

/-- **Whatever is composed is faithful to what is read.** -/
theorem compose_faithful (hrec : ∀ f ∈ extracts, f.Recorded)
    (h : overfull limits fileCount symbolCount = false) :
    ∃ relations s, compose extracts fileCount symbolCount limits = arrange s ∧
      Faithful limits (((read limits fileCount symbolCount extracts).flatMap
        FileExtraction.classes).take limits.classes) relations s ∧
      (s.result.truncated = false →
        ((read limits fileCount symbolCount extracts).flatMap FileExtraction.classes).take
            limits.classes =
          (Ranking.ordered FileExtraction.path extracts).flatMap FileExtraction.classes ∧
        relations = (Ranking.ordered FileExtraction.path extracts).flatMap relationsIn) := by
  obtain ⟨relations, hfaithful, hall⟩ := composeFiles_faithful limits
    (fun f (hf : f ∈ Ranking.ordered FileExtraction.path extracts) =>
      hrec f (Ranking.mem_ordered.mp hf))
  rw [compose_of_room h, read_of_room h]
  exact ⟨relations, _, rfl, hfaithful, hall⟩

theorem compose_perm {extracts' : List FileExtraction} (hperm : extracts'.Perm extracts)
    (hpaths : (extracts.map FileExtraction.path).Nodup) :
    compose extracts' fileCount symbolCount limits =
      compose extracts fileCount symbolCount limits := by
  unfold compose
  rw [Ranking.ordered_eq_of_perm hperm hpaths]

theorem compose_of_overfull (extracts : List FileExtraction)
    (h : overfull limits fileCount symbolCount = true) :
    (compose extracts fileCount symbolCount limits).classes = [] ∧
      (compose extracts fileCount symbolCount limits).relations = [] ∧
      (compose extracts fileCount symbolCount limits).truncated = true ∧
      read limits fileCount symbolCount extracts = [] := by
  unfold compose read
  rw [if_pos h, if_pos h]
  exact ⟨rfl, rfl, rfl, rfl⟩

/-- **The classes are those read, up to the limit of their number.** -/
theorem compose_heads (hrec : ∀ f ∈ extracts, f.Recorded) :
    ((compose extracts fileCount symbolCount limits).classes.map ClassDefinition.head).Perm
      ((((read limits fileCount symbolCount extracts).flatMap FileExtraction.classes).take
        limits.classes).map ClassDefinition.head) := by
  cases hover : overfull limits fileCount symbolCount with
  | true =>
      obtain ⟨hclasses, -, -, hread⟩ := compose_of_overfull extracts hover
      rw [hclasses, hread, List.flatMap_nil, List.take_nil]
  | false =>
      obtain ⟨relations, s, heq, hfaithful, -⟩ := compose_faithful hrec hover
      rw [heq, ← map_head_of_clipped hfaithful.kept]
      exact (perm_arrange s).map _

/-- **No budget is exceeded.** -/
theorem compose_limits (hrec : ∀ f ∈ extracts, f.Recorded) :
    (compose extracts fileCount symbolCount limits).classes.length ≤ limits.classes ∧
      (compose extracts fileCount symbolCount limits).records ≤ limits.records ∧
      (compose extracts fileCount symbolCount limits).detailText ≤ limits.outputText := by
  cases hover : overfull limits fileCount symbolCount with
  | true =>
      obtain ⟨hclasses, hrelations, -, -⟩ := compose_of_overfull extracts hover
      unfold Catalog.records Catalog.detailText
      rw [hclasses, hrelations]
      exact ⟨Nat.zero_le _, Nat.zero_le _, Nat.zero_le _⟩
  | false =>
      obtain ⟨relations, s, heq, hfaithful, -⟩ := compose_faithful hrec hover
      rw [heq, (perm_arrange s).length_eq]
      have hrecords := arrange_records s
      have htext := arrange_detailText s
      exact ⟨hfaithful.number,
        hrecords.trans (hfaithful.records.1.trans hfaithful.records.2),
        htext.trans (hfaithful.text.1.trans hfaithful.text.2)⟩

theorem read_budgets :
    ((read limits fileCount symbolCount extracts).map FileExtraction.sourceBytes).sum ≤
        limits.totalBytes ∧
      ((read limits fileCount symbolCount extracts).map FileExtraction.registryBytes).sum ≤
        limits.registryText := by
  unfold read
  split
  · exact ⟨Nat.zero_le _, Nat.zero_le _⟩
  · have hwithin := within_budgets limits (Ranking.ordered FileExtraction.path extracts) 0 0
      (Nat.zero_le _) (Nat.zero_le _)
    rw [Nat.zero_add, Nat.zero_add] at hwithin
    exact hwithin

theorem mem_of_read {f : FileExtraction} (h : f ∈ read limits fileCount symbolCount extracts) :
    f ∈ extracts := by
  unfold read at h
  split at h
  · cases h
  · exact Ranking.mem_ordered.mp ((within_sublist _ _ _ _).mem h)

theorem map_registryText_head (classes : List ClassDefinition) :
    (classes.map ClassDefinition.head).map ClassDefinition.registryText =
      classes.map ClassDefinition.registryText := by
  rw [List.map_map]
  rfl

theorem sum_registryText_le {files : List FileExtraction} (hrec : ∀ f ∈ files, f.Recorded) :
    ((files.flatMap FileExtraction.classes).map ClassDefinition.registryText).sum ≤
      (files.map FileExtraction.registryBytes).sum := by
  induction files with
  | nil => exact Nat.le_refl _
  | cons f rest ih =>
      have hfirst := (hrec f List.mem_cons_self).registered
      have hrest := ih fun g hg => hrec g (List.mem_cons_of_mem f hg)
      rw [List.flatMap_cons, List.map_append, List.sum_append, List.map_cons, List.sum_cons]
      omega

/-- **The registry text of a catalogue is within its budget.** -/
theorem compose_registryText (hrec : ∀ f ∈ extracts, f.Recorded) :
    (compose extracts fileCount symbolCount limits).registryText ≤ limits.registryText := by
  have hheads : ((compose extracts fileCount symbolCount limits).classes.map
      ClassDefinition.head).Perm ((((read limits fileCount symbolCount extracts).flatMap
        FileExtraction.classes).take limits.classes).map ClassDefinition.head) :=
    compose_heads hrec
  have hsum := (hheads.map ClassDefinition.registryText).sum_eq
  rw [map_registryText_head, map_registryText_head] at hsum
  have htake := ((List.take_sublist limits.classes ((read limits fileCount symbolCount
    extracts).flatMap FileExtraction.classes)).map ClassDefinition.registryText).sum_le_sum
      fun n _ => Nat.zero_le n
  have hfiles := sum_registryText_le fun f (hf : f ∈ read limits fileCount symbolCount extracts) =>
    hrec f (mem_of_read hf)
  have hbudget : ((read limits fileCount symbolCount extracts).map
      FileExtraction.registryBytes).sum ≤ limits.registryText := read_budgets.2
  unfold Catalog.registryText
  omega

/-- **A catalogue that is not marked has every class, as it was extracted.** -/
theorem compose_complete (hrec : ∀ f ∈ extracts, f.Recorded)
    (htruncated : (compose extracts fileCount symbolCount limits).truncated = false) :
    (compose extracts fileCount symbolCount limits).classes.Perm
        (extracts.flatMap FileExtraction.classes) ∧
      ∀ f ∈ extracts, ∀ r ∈ relationsIn f,
        ∃ r' ∈ (compose extracts fileCount symbolCount limits).relations, r'.id = r.id := by
  cases hover : overfull limits fileCount symbolCount with
  | true =>
      rw [(compose_of_overfull extracts hover).2.2.1] at htruncated
      cases htruncated
  | false =>
      obtain ⟨relations, s, heq, hfaithful, hall⟩ := compose_faithful hrec hover
      rw [heq] at htruncated ⊢
      have hmarked : s.result.truncated = false := htruncated
      obtain ⟨hclasses, hrelations⟩ := hall hmarked
      -- The details were never closed, or the catalogue would be marked.
      have hopen : s.detailOpen = true := by
        cases hdetail : s.detailOpen with
        | true => rfl
        | false => rw [hfaithful.closed hdetail] at hmarked; cases hmarked
      obtain ⟨hfull, hfull'⟩ := hfaithful.full hopen
      constructor
      · rw [hclasses] at hfull
        have hperm := perm_arrange s
        rw [hfull] at hperm
        exact hperm.trans ((Ranking.perm_ordered FileExtraction.path extracts).flatMap_right _)
      · intro f hf r hr
        apply exists_mem_arrange
        rw [hfull', hrelations]
        exact List.mem_flatMap.mpr ⟨f, Ranking.mem_ordered.mpr hf, hr⟩

/-- **A class that is not marked is the one extracted.** -/
theorem compose_unmarked (hrec : ∀ f ∈ extracts, f.Recorded) {c : ClassDefinition}
    (hc : c ∈ (compose extracts fileCount symbolCount limits).classes)
    (htruncated : c.truncated = false) : ∃ f ∈ extracts, c ∈ f.classes := by
  cases hover : overfull limits fileCount symbolCount with
  | true => rw [(compose_of_overfull extracts hover).1] at hc; cases hc
  | false =>
      obtain ⟨relations, s, heq, hfaithful, -⟩ := compose_faithful hrec hover
      rw [heq] at hc
      obtain ⟨c₀, hc₀, hclipped⟩ :=
        Fallible.exists_of_forall₂_right hfaithful.kept ((perm_arrange s).mem_iff.mp hc)
      rw [hclipped.2 htruncated]
      obtain ⟨f, hf, hmem⟩ := List.mem_flatMap.mp (List.mem_of_mem_take hc₀)
      exact ⟨f, mem_of_read hf, hmem⟩

/-- Where a detail of a class is seen. -/
def Catalog.Shows (r : Catalog) (c : ClassDefinition) : DetailValue → Prop
  | .field value => value ∈ c.fields
  | .method value => value ∈ c.methods
  | .relation value => ∃ shown ∈ r.relations, shown.id = value.id
  | .scopeText => True

/-- **What a catalogue says of the extractions it is composed of.** -/
structure Catalog.Honest (limits : Limits) (fileCount symbolCount : Nat)
    (extracts : List FileExtraction) (r : Catalog) : Prop where
  number : r.classes.length ≤ limits.classes
  records : r.records ≤ limits.records
  detailText : r.detailText ≤ limits.outputText
  registryText : r.registryText ≤ limits.registryText
  source : ((read limits fileCount symbolCount extracts).map FileExtraction.sourceBytes).sum ≤
    limits.totalBytes
  /-- The classes of the files read are kept up to their number, whatever becomes of details. -/
  kept : (r.classes.map ClassDefinition.head).Perm
    ((((read limits fileCount symbolCount extracts).flatMap FileExtraction.classes).take
      limits.classes).map ClassDefinition.head)
  complete : r.truncated = false →
    r.classes.Perm (extracts.flatMap FileExtraction.classes) ∧
      ∀ f ∈ extracts, ∀ item ∈ f.items, ∃ c, f.classes[item.classIndex]? = some c ∧
        c ∈ r.classes ∧ r.Shows c item.value
  /-- And a class without a mark has the members recorded for it. -/
  unmarked : ∀ c ∈ r.classes, c.truncated = false → ∃ f ∈ extracts, ∃ k,
    f.classes[k]? = some c ∧ c.fields = fieldsOf f.items k ∧ c.methods = methodsOf f.items k

theorem mem_detailsOf {items : List DetailItem} {item : DetailItem} (h : item ∈ items) :
    item.value ∈ detailsOf items item.classIndex :=
  List.mem_map_of_mem (List.mem_filter.mpr ⟨h, decide_eq_true rfl⟩)

theorem mem_relationsIn {f : FileExtraction} {item : DetailItem} {relation : ClassRelation}
    {c : ClassDefinition} (hitem : item ∈ f.items)
    (hc : f.classes[item.classIndex]? = some c) (hvalue : item.value = .relation relation) :
    relation ∈ relationsIn f := by
  have hdetail := mem_detailsOf hitem
  rw [hvalue] at hdetail
  exact List.mem_flatMap.mpr ⟨(c, item.classIndex), List.mem_zipIdx_iff_getElem?.mpr hc,
    List.mem_filterMap.mpr ⟨_, hdetail, rfl⟩⟩

theorem within_congr (limits limits' : Limits) (htotal : limits'.totalBytes = limits.totalBytes)
    (hregistry : limits'.registryText = limits.registryText) (source registry : Nat)
    (files : List FileExtraction) :
    within limits' source registry files = within limits source registry files := by
  induction files generalizing source registry with
  | nil => rfl
  | cons f rest ih =>
      unfold within
      rw [htotal, hregistry, ih]

theorem compose_honest_of_recorded (hrec : ∀ f ∈ extracts, f.Recorded) :
    (compose extracts fileCount symbolCount limits).Honest limits fileCount symbolCount
      extracts := by
  refine ⟨(compose_limits hrec).1, (compose_limits hrec).2.1, (compose_limits hrec).2.2,
    compose_registryText hrec, read_budgets.1, compose_heads hrec, ?_, ?_⟩
  · intro htruncated
    obtain ⟨hclasses, hrelations⟩ := compose_complete hrec htruncated
    refine ⟨hclasses, fun f hf item hitem => ?_⟩
    have hlt := (hrec f hf).indexed item hitem
    have hc := List.getElem?_eq_getElem hlt
    refine ⟨_, hc, ?_, ?_⟩
    · apply hclasses.mem_iff.mpr
      exact List.mem_flatMap.mpr ⟨f, hf, List.getElem_mem hlt⟩
    · have hdetail := mem_detailsOf hitem
      cases hvalue : item.value with
      | field value =>
          rw [hvalue] at hdetail
          show value ∈ (f.classes[item.classIndex]).fields
          rw [(hrec f hf).fields _ _ hc]
          exact List.mem_filterMap.mpr ⟨_, hdetail, rfl⟩
      | method value =>
          rw [hvalue] at hdetail
          show value ∈ (f.classes[item.classIndex]).methods
          rw [(hrec f hf).methods _ _ hc]
          exact List.mem_filterMap.mpr ⟨_, hdetail, rfl⟩
      | relation value => exact hrelations f hf value (mem_relationsIn hitem hc hvalue)
      | scopeText => trivial
  · intro c hc htruncated
    obtain ⟨f, hf, hmem⟩ := compose_unmarked hrec hc htruncated
    obtain ⟨k, hlt, hk⟩ := List.getElem_of_mem hmem
    have hget : f.classes[k]? = some c := by rw [List.getElem?_eq_getElem hlt, hk]
    exact ⟨f, hf, k, hget, (hrec f hf).fields k c hget, (hrec f hf).methods k c hget⟩

def Limits.withDetails (limits : Limits) (records outputText : Nat) : Limits :=
  { limits with records := records, outputText := outputText }

theorem read_withDetails (records outputText : Nat) :
    read (limits.withDetails records outputText) fileCount symbolCount extracts =
      read limits fileCount symbolCount extracts := by
  have hwithin : within (limits.withDetails records outputText) 0 0
      (Ranking.ordered FileExtraction.path extracts) =
        within limits 0 0 (Ranking.ordered FileExtraction.path extracts) :=
    within_congr limits (limits.withDetails records outputText) rfl rfl 0 0 _
  unfold read
  rw [hwithin]
  rfl

/-- **The catalogue does not depend on the order of the extractions, and says where it is
incomplete.**  Which classes it has does not depend on the budgets of the details. -/
theorem compose_honest (hextracted : ∀ f ∈ extracts, Extracted f)
    (hpaths : (extracts.map FileExtraction.path).Nodup) :
    (∀ extracts' : List FileExtraction, extracts'.Perm extracts →
      compose extracts' fileCount symbolCount limits =
        compose extracts fileCount symbolCount limits) ∧
    (compose extracts fileCount symbolCount limits).Honest limits fileCount symbolCount extracts ∧
    ∀ records outputText : Nat,
      ((compose extracts fileCount symbolCount (limits.withDetails records outputText)).classes.map
          ClassDefinition.head).Perm
        ((compose extracts fileCount symbolCount limits).classes.map ClassDefinition.head) := by
  have hrec : ∀ f ∈ extracts, f.Recorded := fun f hf => (hextracted f hf).recorded
  refine ⟨fun _ hperm => compose_perm hperm hpaths, compose_honest_of_recorded hrec, ?_⟩
  intro records outputText
  have hother : ((compose extracts fileCount symbolCount
      (limits.withDetails records outputText)).classes.map ClassDefinition.head).Perm
        ((((read (limits.withDetails records outputText) fileCount symbolCount extracts).flatMap
          FileExtraction.classes).take limits.classes).map ClassDefinition.head) :=
    compose_heads hrec
  rw [read_withDetails] at hother
  exact hother.trans (compose_heads hrec).symm

end Results

/-! ### Two files -/

namespace Sample

def limits : Limits where
  fileBytes := 100
  totalBytes := 100
  visits := 100
  depth := 100
  fileClasses := 100
  classes := 1
  members := 100
  fileRefs := 100
  records := 100
  text := 100
  outputText := 100
  registryText := 100
  files := 100
  symbols := 100

def range : View.SourceRange := ⟨0, 10, 1, 1, 1, 11⟩

def file (path : String) : SourceFile := ⟨path, "", .java, "class A {}"⟩

def symbol (path : String) : View.Symbol :=
  ⟨path ++ "#A", "A", none, .classItem, path, range, none, false, ⟨"tree-sitter", .unavailable⟩⟩

def walked (path : String) : Extractor :=
  (({} : Extractor).declare limits (file path) (some (symbol path)) "" "class" (some 0)).member limits
    (file path) "a" (some "A") none range 0 false

def extraction (path : String) : FileExtraction := extractFile limits (file path) (walked path)

theorem extracted_one : Extracted (extraction "A.java") :=
  ⟨limits, file "A.java", walked "A.java",
    .tail (.tail .refl (.declare _ _ _ _ _)) (.member _ _ _ _ _ _ _ (by decide)), rfl⟩

theorem extracted_other : Extracted (extraction "B.java") :=
  ⟨limits, file "B.java", walked "B.java",
    .tail (.tail .refl (.declare _ _ _ _ _)) (.member _ _ _ _ _ _ _ (by decide)), rfl⟩

end Sample

theorem compose_honest_two :
    compose [Sample.extraction "B.java", Sample.extraction "A.java"] 2 2 Sample.limits =
        compose [Sample.extraction "A.java", Sample.extraction "B.java"] 2 2 Sample.limits ∧
      (Sample.extraction "A.java").items.length = 1 := by
  have hextracted : ∀ f ∈ [Sample.extraction "A.java", Sample.extraction "B.java"],
      Extracted f := by
    intro f hf
    rcases List.mem_cons.mp hf with hone | hother
    · rw [hone]; exact Sample.extracted_one
    · rw [List.mem_singleton.mp hother]; exact Sample.extracted_other
  have hpaths : ([Sample.extraction "A.java", Sample.extraction "B.java"].map
      FileExtraction.path).Nodup := by decide
  exact ⟨(compose_honest hextracted hpaths).1 _ (.swap _ _ []), by decide⟩

end Baleyg.Classes
