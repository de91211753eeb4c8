/-
What is extracted of one file for the class catalogue.

An extraction lists the classes a file declares and, one by one, the details found for them:
fields, methods, references to other types, and the text that a method's type parameters cost.
Every class carries its fields and methods a second time, in itself.  Which details are found is
up to a walk over the syntax tree; here it is any sequence of the steps that write something
down.  Whatever the walk, the two accounts of a class agree and every detail has paid for its
text (`Recorded`), which is what whoever composes extractions under a budget relies on.
-/
import Baleyg.Lib.Runs
import Baleyg.View.Records

namespace Baleyg.Classes

open Native (SourceFile byteLength)
open View (SourceRange Symbol)

/-! ### Records -/

structure ClassMember where
  name : String
  typeHint : Option String
  symbolId : Option String
  path : String
  range : SourceRange
  deriving DecidableEq

structure ClassDefinition where
  symbol : Symbol
  qualifiedName : String
  language : String
  declarationKind : String
  fields : List ClassMember
  methods : List ClassMember
  truncated : Bool
  deriving DecidableEq

structure ClassRelation where
  id : String
  owner : String
  target : Option String
  typeName : String
  kind : String
  path : String
  range : SourceRange
  candidateIds : List String
  matchKind : String
  deriving DecidableEq

structure Limits where
  fileBytes : Nat
  totalBytes : Nat
  visits : Nat
  depth : Nat
  fileClasses : Nat
  classes : Nat
  members : Nat
  fileRefs : Nat
  records : Nat
  text : Nat
  outputText : Nat
  registryText : Nat
  files : Nat
  symbols : Nat

inductive DetailValue where
  | field (value : ClassMember)
  | method (value : ClassMember)
  | relation (value : ClassRelation)
  | scopeText
  deriving DecidableEq

structure DetailItem where
  classIndex : Nat
  records : Nat
  text : Nat
  value : DetailValue
  deriving DecidableEq

structure FileExtraction where
  path : String
  sourceBytes : Nat
  registryBytes : Nat
  warnings : List String
  truncated : Bool
  registryIncomplete : Bool
  classes : List ClassDefinition
  items : List DetailItem
  deriving DecidableEq

/-! ### What a class is made of -/

/-- A class without its members and its mark. -/
def ClassDefinition.head (c : ClassDefinition) : ClassDefinition :=
  { c with fields := [], methods := [], truncated := false }

def ClassDefinition.registryText (c : ClassDefinition) : Nat :=
  byteLength c.symbol.id + byteLength c.symbol.name + byteLength c.symbol.path +
    byteLength c.qualifiedName

def ClassMember.textBytes (m : ClassMember) : Nat :=
  byteLength m.name + (m.typeHint.elim 0 byteLength) + (m.symbolId.elim 0 byteLength) +
    byteLength m.path

def ClassRelation.textBytes (r : ClassRelation) : Nat :=
  byteLength r.id + byteLength r.owner + byteLength r.typeName + byteLength r.path

namespace DetailValue

def field? : DetailValue → Option ClassMember
  | field value => some value
  | _ => none

def method? : DetailValue → Option ClassMember
  | method value => some value
  | _ => none

def relation? : DetailValue → Option ClassRelation
  | relation value => some value
  | _ => none

def count : DetailValue → Nat
  | scopeText => 0
  | _ => 1

def textBytes : DetailValue → Nat
  | field value => value.textBytes
  | method value => value.textBytes
  | relation value => value.textBytes
  | scopeText => 0

end DetailValue

def DetailItem.Paid (item : DetailItem) : Prop :=
  item.value.count ≤ item.records ∧ item.value.textBytes ≤ item.text

def ClassDefinition.add (c : ClassDefinition) (value : DetailValue) : ClassDefinition :=
  { c with
    fields := c.fields ++ value.field?.toList
    methods := c.methods ++ value.method?.toList }

def detailsOf (items : List DetailItem) (index : Nat) : List DetailValue :=
  (items.filter fun item => item.classIndex = index).map DetailItem.value

def fieldsOf (items : List DetailItem) (index : Nat) : List ClassMember :=
  (detailsOf items index).filterMap DetailValue.field?

def methodsOf (items : List DetailItem) (index : Nat) : List ClassMember :=
  (detailsOf items index).filterMap DetailValue.method?

def relationsOf (items : List DetailItem) (index : Nat) : List ClassRelation :=
  (detailsOf items index).filterMap DetailValue.relation?

/-- **The two accounts of a file's classes agree.** -/
structure Recorded (classes : List ClassDefinition) (items : List DetailItem)
    (registryBytes : Nat) : Prop where
  /-- Every detail is of a class of the file. -/
  indexed : ∀ item ∈ items, item.classIndex < classes.length
  /-- A class has the fields among its details, in their order. -/
  fields : ∀ k c, classes[k]? = some c → c.fields = fieldsOf items k
  methods : ∀ k c, classes[k]? = some c → c.methods = methodsOf items k
  paid : ∀ item ∈ items, item.Paid
  registered : (classes.map ClassDefinition.registryText).sum ≤ registryBytes

def FileExtraction.Recorded (f : FileExtraction) : Prop :=
  Classes.Recorded f.classes f.items f.registryBytes

/-! ### The extractor -/

structure Extractor where
  classes : List ClassDefinition := []
  warnings : List String := []
  truncated : Bool := false
  items : List DetailItem := []
  textBytes : Nat := 0
  registryComplete : Bool := true
  visits : Nat := 0
  declared : Nat := 0
  refs : Nat := 0
  exhausted : Bool := false
  detailVisits : Nat := 0

def join (a b : String) : String := if a = "" then b else a ++ "." ++ b

namespace Extractor

variable (limits : Limits) (file : SourceFile) (e : Extractor)

def limit (message : String) : Extractor :=
  if e.warnings.length < 100 ∧ message ∉ e.warnings then
    { e with
      truncated := true
      warnings := e.warnings ++ [String.ofList (message.toList.take limits.text)] }
  else { e with truncated := true }

def registryLimit (message : String) : Extractor :=
  { e with registryComplete := false }.limit limits message

def reserveText (bytes : Nat) : Extractor := { e with textBytes := e.textBytes + bytes }

def exhaust : Extractor := { e with exhausted := true }

/-- `classes[index].truncated = true`. -/
def markTruncated (index : Nat) : Extractor :=
  { e with classes := e.classes.modify index fun c => { c with truncated := true } }

def tick (depth : Nat) : Extractor × Bool :=
  if e.exhausted = true then (e, false)
  else
    let e := { e with visits := e.visits + 1 }
    if limits.depth ≤ depth ∨ limits.visits < e.visits then
      (e.exhaust.registryLimit limits
        (file.path ++ ": class declaration work limit reached (64 depth / 100000 visits)"), false)
    else (e, true)

def details (index : Nat) : Extractor × Bool :=
  if limits.visits ≤ e.detailVisits then
    ((e.markTruncated index).limit limits
      "Class detail limit reached (250000 records / 64 MiB text / 100000 visits per file); declaration discovery continues",
      false)
  else (e, true)

def detailTick (index depth : Nat) : Extractor × Bool :=
  if (e.details limits index).2 = false then e.details limits index
  else
    let e := { (e.details limits index).1 with detailVisits := e.detailVisits + 1 }
    if limits.depth ≤ depth then
      ((e.markTruncated index).limit limits
        "Class type detail depth limit reached (64); declaration discovery continues", false)
    else (e, true)

/-- The part of `class` that writes the class down.  `symbol` is what the class symbols of the
file have at the place of the declaration, and `blocked` the text of the type parameters in scope,
where all of them were read. -/
def declare (symbol : Option Symbol) (outer kind : String) (blocked : Option Nat) : Extractor :=
  if limits.fileClasses ≤ e.declared then
    e.exhaust.registryLimit limits
      (file.path ++ ": class declaration limit reached (1000/file, 20000/catalog)")
  else
    match symbol with
    | none =>
        e.registryLimit limits
          (file.path ++ ": declaration has no unique measured class symbol; skipped")
    | some symbol =>
        let qualified := join outer symbol.name
        let e := e.reserveText (byteLength symbol.id + byteLength symbol.name +
          byteLength symbol.path + byteLength qualified)
        if limits.text < byteLength qualified then
          e.registryLimit limits "Class qualified name exceeds 2048 bytes"
        else
          match blocked with
          | none => e
          | some bytes =>
              let e := e.reserveText (bytes * 2)
              { e with
                declared := e.declared + 1
                classes := e.classes ++
                  [⟨symbol, qualified, file.language.text, kind, [], [], false⟩] }

/-- What is added to a class: its detail, and the member in the class itself. -/
def record (item : DetailItem) : Extractor :=
  { e with
    items := e.items ++ [item]
    classes := e.classes.modify item.classIndex fun c => c.add item.value }

/-- `member`, of what a class has at a node. -/
def member (name : String) (typeHint symbolId : Option String) (range : SourceRange) (index : Nat)
    (isMethod : Bool) : Extractor :=
  if (e.details limits index).2 = false then (e.details limits index).1
  else if e.classes[index]?.any
      (fun c => decide (limits.members ≤ c.fields.length + c.methods.length)) = true then
    (e.markTruncated index).limit limits (file.path ++ ": class member limit reached (256/class)")
  else if limits.text < byteLength name ∨ limits.text < typeHint.elim 0 byteLength then
    (e.markTruncated index).limit limits "Class member text exceeds 2048 bytes"
  else
    let member : ClassMember :=
      ⟨name, typeHint, if isMethod = true then symbolId else none, file.path, range⟩
    e.record ⟨index, 1, member.textBytes, if isMethod = true then .method member else .field member⟩

/-- The part of `method` that counts the type parameters of a method. -/
def scopeText (bytes index : Nat) : Extractor := e.record ⟨index, 0, bytes, .scopeText⟩

/-- `reference`, in the module the file is. -/
def reference (module name kind : String) (range : SourceRange) (owner : String) (index : Nat) :
    Extractor :=
  if (e.details limits index).2 = false then (e.details limits index).1
  else if limits.fileRefs ≤ e.refs ∨ limits.text < byteLength name then
    (e.markTruncated index).limit limits
      (file.path ++ ": class reference limit reached (8192/file, 2048 bytes/name)")
  else
    let relation : ClassRelation :=
      ⟨s!"class-ref:{owner}:{range.startByte}:{range.endByte}:{kind}:{name}", owner, none, name,
        kind, file.path, range, [], "unmatched"⟩
    { e.record ⟨index, 1, relation.textBytes + byteLength module, .relation relation⟩ with
      refs := e.refs + 1 }

/-- What `class` does at its end. -/
def leave (index : Nat) : Extractor :=
  if e.exhausted = true then e.markTruncated index else e

/-- What is done to all classes where the walk was cut short. -/
def close : Extractor :=
  if e.exhausted = true then
    { e with classes := e.classes.map fun c => { c with truncated := true } }
  else e

end Extractor

/-- What the walk over the tree may write down next.  An index is always that of the class the
walk is in. -/
inductive Step (limits : Limits) (file : SourceFile) : Extractor → Extractor → Prop
  | tick (e : Extractor) (depth : Nat) : Step limits file e (e.tick limits file depth).1
  | note (e : Extractor) (message : String) : Step limits file e (e.registryLimit limits message)
  | exhaust (e : Extractor) (message : String) :
      Step limits file e (e.exhaust.registryLimit limits message)
  | bind (e : Extractor) (bytes : Nat) : Step limits file e (e.reserveText bytes)
  | declare (e : Extractor) (symbol : Option Symbol) (outer kind : String) (blocked : Option Nat) :
      Step limits file e (e.declare limits file symbol outer kind blocked)
  | details (e : Extractor) (index : Nat) (h : index < e.classes.length) :
      Step limits file e (e.details limits index).1
  | detailTick (e : Extractor) (index depth : Nat) (h : index < e.classes.length) :
      Step limits file e (e.detailTick limits index depth).1
  | detailNote (e : Extractor) (index : Nat) (message : String) (h : index < e.classes.length) :
      Step limits file e ((e.markTruncated index).limit limits message)
  | member (e : Extractor) (name : String) (typeHint symbolId : Option String)
      (range : SourceRange) (index : Nat) (isMethod : Bool) (h : index < e.classes.length) :
      Step limits file e (e.member limits file name typeHint symbolId range index isMethod)
  | scopeText (e : Extractor) (bytes index : Nat) (h : index < e.classes.length) :
      Step limits file e (e.scopeText bytes index)
  | reference (e : Extractor) (module name kind : String) (range : SourceRange)
      (c : ClassDefinition) (index : Nat) (h : e.classes[index]? = some c) :
      Step limits file e (e.reference limits file module name kind range c.symbol.id index)
  | leave (e : Extractor) (index : Nat) (h : index < e.classes.length) :
      Step limits file e (e.leave index)

def Extractor.finish (file : SourceFile) (e : Extractor) : FileExtraction where
  path := file.path
  sourceBytes := byteLength file.text
  registryBytes := e.textBytes
  warnings := e.warnings
  truncated := e.truncated
  registryIncomplete := !e.registryComplete
  classes := e.classes
  items := e.items

/-- `extract_file`, of a walk that came this far. -/
def extractFile (limits : Limits) (file : SourceFile) (walked : Extractor) : FileExtraction :=
  if limits.fileBytes < byteLength file.text then
    (({} : Extractor).registryLimit limits
      s!"{file.path}: class source exceeds {limits.fileBytes / (1024 * 1024)} MiB; skipped").finish
        file
  else walked.close.finish file

/-- **An extraction of a file.** -/
def Extracted (f : FileExtraction) : Prop :=
  ∃ (limits : Limits) (file : SourceFile) (walked : Extractor),
    Relation.ReflTransGen (Step limits file) {} walked ∧ f = extractFile limits file walked

/-! ### The accounts agree at every step -/

section Accounts

variable {limits : Limits} {file : SourceFile} {e : Extractor} {items : List DetailItem}
  {classes : List ClassDefinition} {n index : Nat}

def Extractor.Recorded (e : Extractor) : Prop := Classes.Recorded e.classes e.items e.textBytes

theorem Recorded.mono {m : Nat} (h : Recorded classes items n) (hnm : n ≤ m) :
    Recorded classes items m :=
  { h with registered := Nat.le_trans h.registered hnm }

/-- A change that leaves members and registry text of every class alone keeps the accounts. -/
theorem Recorded.of_forall₂ {classes' : List ClassDefinition} (h : Recorded classes items n)
    (hsame : List.Forall₂ (fun c c' : ClassDefinition => c'.fields = c.fields ∧
      c'.methods = c.methods ∧ c'.registryText = c.registryText) classes classes') :
    Recorded classes' items n := by
  have hlength := hsame.length_eq
  have hback : ∀ (k : Nat) (c' : ClassDefinition), classes'[k]? = some c' →
      ∃ c, classes[k]? = some c ∧ c'.fields = c.fields ∧ c'.methods = c.methods := by
    intro k c' hk
    obtain ⟨hlt, hget⟩ := List.getElem?_eq_some_iff.mp hk
    have hlt' : k < classes.length := by omega
    have hat := hsame.get hlt' hlt
    refine ⟨classes[k], List.getElem?_eq_getElem hlt', ?_⟩
    subst hget
    exact ⟨hat.1, hat.2.1⟩
  refine ⟨?_, ?_, ?_, h.paid, ?_⟩
  · intro item hitem
    rw [← hlength]
    exact h.indexed item hitem
  · intro k c' hk
    obtain ⟨c, hc, hfields, -⟩ := hback k c' hk
    rw [hfields]
    exact h.fields k c hc
  · intro k c' hk
    obtain ⟨c, hc, -, hmethods⟩ := hback k c' hk
    rw [hmethods]
    exact h.methods k c hc
  · have htexts : classes'.map ClassDefinition.registryText =
        classes.map ClassDefinition.registryText := by
      clear h hback hlength
      induction hsame with
      | nil => rfl
      | cons hat _ ih => rw [List.map_cons, List.map_cons, hat.2.2, ih]
    rw [htexts]
    exact h.registered

theorem forall₂_modify {α : Type*} {R : α → α → Prop} (hrefl : ∀ a, R a a) {f : α → α}
    (hf : ∀ a, R a (f a)) (l : List α) (k : Nat) : List.Forall₂ R l (l.modify k f) := by
  induction l generalizing k with
  | nil => simp
  | cons a l ih =>
      cases k with
      | zero => exact .cons (hf a) (List.forall₂_same.mpr fun x _ => hrefl x)
      | succ k => exact .cons (hrefl a) (ih k)

theorem Extractor.Recorded.markTruncated (h : e.Recorded) (index : Nat) :
    (e.markTruncated index).Recorded :=
  Classes.Recorded.of_forall₂ h
    (forall₂_modify (fun _ => ⟨rfl, rfl, rfl⟩) (fun _ => ⟨rfl, rfl, rfl⟩) _ _)

theorem Extractor.Recorded.limit (h : e.Recorded) (message : String) :
    (e.limit limits message).Recorded := by
  unfold Extractor.limit
  split
  · exact h
  · exact h

theorem Extractor.Recorded.registryLimit (h : e.Recorded) (message : String) :
    (e.registryLimit limits message).Recorded :=
  Extractor.Recorded.limit (e := { e with registryComplete := false }) h message

theorem Extractor.Recorded.reserveText (h : e.Recorded) (bytes : Nat) :
    (e.reserveText bytes).Recorded :=
  Classes.Recorded.mono h (Nat.le_add_right _ _)

theorem Extractor.Recorded.details (h : e.Recorded) (index : Nat) :
    (e.details limits index).1.Recorded := by
  unfold Extractor.details
  split
  · exact (h.markTruncated index).limit _
  · exact h

theorem Extractor.Recorded.detailTick (h : e.Recorded) (index depth : Nat) :
    (e.detailTick limits index depth).1.Recorded := by
  have hdetails : (e.details limits index).1.Recorded := h.details index
  unfold Extractor.detailTick
  split
  · exact hdetails
  · by_cases hdepth : limits.depth ≤ depth
    · simp only [if_pos hdepth]
      apply Extractor.Recorded.limit
      apply Extractor.Recorded.markTruncated
      exact hdetails
    · simp only [if_neg hdepth]
      exact hdetails

theorem Extractor.Recorded.tick (h : e.Recorded) (depth : Nat) :
    (e.tick limits file depth).1.Recorded := by
  unfold Extractor.tick
  split
  · exact h
  · by_cases hover : limits.depth ≤ depth ∨ limits.visits < e.visits + 1
    · simp only [if_pos hover]
      apply Extractor.Recorded.registryLimit
      exact h
    · simp only [if_neg hover]
      exact h

theorem Recorded.detailsOf_length (h : Recorded classes items n) :
    detailsOf items classes.length = [] := by
  have hnone : (items.filter fun item => item.classIndex = classes.length) = [] := by
    rw [List.filter_eq_nil_iff]
    intro item hitem heq
    have := h.indexed item hitem
    rw [decide_eq_true_eq] at heq
    omega
  unfold detailsOf
  rw [hnone, List.map_nil]

theorem Recorded.push (h : Recorded classes items n) {c : ClassDefinition}
    (hfields : c.fields = []) (hmethods : c.methods = []) :
    Recorded (classes ++ [c]) items (n + c.registryText) := by
  have hnone := h.detailsOf_length
  have hat : ∀ k c', (classes ++ [c])[k]? = some c' →
      classes[k]? = some c' ∨ k = classes.length ∧ c' = c := by
    intro k c' hk
    by_cases hlt : k < classes.length
    · rw [List.getElem?_append_left hlt] at hk; exact .inl hk
    · have hle : classes.length ≤ k := by omega
      rw [List.getElem?_append_right hle, List.getElem?_singleton] at hk
      by_cases hzero : k - classes.length = 0
      · rw [if_pos hzero] at hk; exact .inr ⟨by omega, (Option.some.inj hk).symm⟩
      · rw [if_neg hzero] at hk; cases hk
  refine ⟨?_, ?_, ?_, h.paid, ?_⟩
  · intro item hitem
    have := h.indexed item hitem
    rw [List.length_append]
    omega
  · intro k c' hk
    rcases hat k c' hk with hold | ⟨hkey, hnew⟩
    · exact h.fields k c' hold
    · subst hkey hnew
      unfold fieldsOf
      rw [hnone, hfields, List.filterMap_nil]
  · intro k c' hk
    rcases hat k c' hk with hold | ⟨hkey, hnew⟩
    · exact h.methods k c' hold
    · subst hkey hnew
      unfold methodsOf
      rw [hnone, hmethods, List.filterMap_nil]
  · rw [List.map_append, List.sum_append, List.map_singleton, List.sum_singleton]
    exact Nat.add_le_add_right h.registered _

theorem Extractor.Recorded.declare (h : e.Recorded) (symbol : Option Symbol)
    (outer kind : String) (blocked : Option Nat) :
    (e.declare limits file symbol outer kind blocked).Recorded := by
  unfold Extractor.declare
  by_cases hfull : limits.fileClasses ≤ e.declared
  · rw [if_pos hfull]; exact Extractor.Recorded.registryLimit (e := e.exhaust) h _
  · rw [if_neg hfull]
    cases symbol with
    | none => exact h.registryLimit _
    | some symbol =>
        by_cases hlong : limits.text < byteLength (join outer symbol.name)
        · simp only [if_pos hlong]
          exact (h.reserveText _).registryLimit _
        · simp only [if_neg hlong]
          cases blocked with
          | none => exact h.reserveText _
          | some bytes =>
              have hpush := Classes.Recorded.push h
                (c := ⟨symbol, join outer symbol.name, file.language.text, kind, [], [], false⟩)
                rfl rfl
              exact hpush.mono (Nat.le_add_right _ _)

theorem detailsOf_append (item : DetailItem) (k : Nat) :
    detailsOf (items ++ [item]) k =
      detailsOf items k ++ if item.classIndex = k then [item.value] else [] := by
  unfold detailsOf
  rw [List.filter_append, List.map_append]
  by_cases hk : item.classIndex = k
  · simp [hk]
  · simp [hk]

/-- **A detail is added to both accounts.** -/
theorem Extractor.Recorded.record (h : e.Recorded) {item : DetailItem}
    (hindex : item.classIndex < e.classes.length) (hpaid : item.Paid) :
    (e.record item).Recorded := by
  let add : ClassDefinition → ClassDefinition := fun c => c.add item.value
  have hat : ∀ k c', (e.classes.modify item.classIndex add)[k]? = some c' →
      ∃ c, e.classes[k]? = some c ∧ c' = if item.classIndex = k then add c else c := by
    intro k c' hk
    rw [List.getElem?_modify] at hk
    obtain ⟨c, hc, hc'⟩ := Option.map_eq_some_iff.mp hk
    exact ⟨c, hc, hc'.symm⟩
  refine ⟨?_, ?_, ?_, ?_, ?_⟩
  · intro other hother
    show _ < (e.classes.modify item.classIndex add).length
    rw [List.length_modify]
    rcases List.mem_append.mp hother with hold | hnew
    · exact h.indexed other hold
    · rw [List.mem_singleton.mp hnew]; exact hindex
  · intro k c' hk
    obtain ⟨c, hc, rfl⟩ := hat k c' hk
    have hfields := h.fields k c hc
    show _ = fieldsOf (e.items ++ [item]) k
    unfold fieldsOf at hfields ⊢
    rw [detailsOf_append, List.filterMap_append, ← hfields]
    by_cases hkey : item.classIndex = k
    · rw [if_pos hkey, if_pos hkey]
      show c.fields ++ item.value.field?.toList = _
      cases item.value <;> rfl
    · rw [if_neg hkey, if_neg hkey, List.filterMap_nil, List.append_nil]
  · intro k c' hk
    obtain ⟨c, hc, rfl⟩ := hat k c' hk
    have hmethods := h.methods k c hc
    show _ = methodsOf (e.items ++ [item]) k
    unfold methodsOf at hmethods ⊢
    rw [detailsOf_append, List.filterMap_append, ← hmethods]
    by_cases hkey : item.classIndex = k
    · rw [if_pos hkey, if_pos hkey]
      show c.methods ++ item.value.method?.toList = _
      cases item.value <;> rfl
    · rw [if_neg hkey, if_neg hkey, List.filterMap_nil, List.append_nil]
  · intro other hother
    rcases List.mem_append.mp hother with hold | hnew
    · exact h.paid other hold
    · rw [List.mem_singleton.mp hnew]; exact hpaid
  · have htexts : (e.classes.modify item.classIndex add).map ClassDefinition.registryText =
        e.classes.map ClassDefinition.registryText := by
      apply List.ext_getElem?
      intro k
      rw [List.getElem?_map, List.getElem?_map, List.getElem?_modify]
      cases e.classes[k]? with
      | none => rfl
      | some c =>
          by_cases hkey : item.classIndex = k
          · simp [hkey, add, ClassDefinition.add, ClassDefinition.registryText]
          · simp [hkey]
    show ((e.classes.modify item.classIndex add).map ClassDefinition.registryText).sum ≤ e.textBytes
    rw [htexts]
    exact h.registered

theorem Extractor.Recorded.member (h : e.Recorded) {name : String}
    {typeHint symbolId : Option String} {range : SourceRange} {isMethod : Bool}
    (hindex : index < e.classes.length) :
    (e.member limits file name typeHint symbolId range index isMethod).Recorded := by
  unfold Extractor.member
  split
  · exact h.details index
  · split
    · exact (h.markTruncated index).limit _
    · split
      · exact (h.markTruncated index).limit _
      · refine h.record hindex ?_
        cases isMethod with
        | false | true => exact ⟨Nat.le_refl _, Nat.le_refl _⟩

theorem Extractor.Recorded.reference (h : e.Recorded) {module name kind owner : String}
    {range : SourceRange} (hindex : index < e.classes.length) :
    (e.reference limits file module name kind range owner index).Recorded := by
  unfold Extractor.reference
  split
  · exact h.details index
  · split
    · exact (h.markTruncated index).limit _
    · exact h.record hindex ⟨Nat.le_refl _, Nat.le_add_right _ _⟩

theorem Extractor.Recorded.step {e' : Extractor} (hstep : Step limits file e e')
    (h : e.Recorded) : e'.Recorded := by
  cases hstep with
  | tick depth => exact h.tick depth
  | note message => exact h.registryLimit message
  | exhaust message => exact Extractor.Recorded.registryLimit (e := e.exhaust) h message
  | bind bytes => exact h.reserveText bytes
  | declare symbol outer kind blocked => exact h.declare symbol outer kind blocked
  | details index _ => exact h.details index
  | detailTick index depth _ => exact h.detailTick index depth
  | detailNote index message _ => exact (h.markTruncated index).limit message
  | member name typeHint symbolId range index isMethod hindex => exact h.member hindex
  | scopeText bytes index hindex => exact h.record hindex ⟨Nat.zero_le _, Nat.zero_le _⟩
  | reference module name kind range c index hc =>
      exact h.reference (List.getElem?_eq_some_iff.mp hc).1
  | leave index _ =>
      unfold Extractor.leave
      split
      · exact h.markTruncated index
      · exact h

theorem Extractor.recorded_start : ({} : Extractor).Recorded where
  indexed := by simp
  fields := by simp
  methods := by simp
  paid := by simp
  registered := Nat.le_refl _

theorem Extractor.Recorded.close (h : e.Recorded) : e.close.Recorded := by
  unfold Extractor.close
  split
  · refine Classes.Recorded.of_forall₂ h ?_
    rw [List.forall₂_map_right_iff]
    exact List.forall₂_same.mpr fun _ _ => ⟨rfl, rfl, rfl⟩
  · exact h

theorem Extractor.Recorded.finish (h : e.Recorded) : (e.finish file).Recorded := h

/-- **In every extraction the two accounts agree.** -/
theorem Extracted.recorded {f : FileExtraction} (h : Extracted f) : f.Recorded := by
  obtain ⟨limits, file, walked, hrun, rfl⟩ := h
  have hwalked : walked.Recorded :=
    Runs.keeps_run (I := Extractor.Recorded) (fun _ _ hstep he => he.step hstep) hrun
      Extractor.recorded_start
  unfold extractFile
  split
  · apply Extractor.Recorded.finish
    exact Extractor.recorded_start.registryLimit _
  · exact hwalked.close.finish

end Accounts

end Baleyg.Classes
