/-
Pages of classes.

The classes of a committed revision that match a query are read a page at a time.  A page ends
where so many classes were shown or so many bytes, whichever comes first; a class that is too
large is shown without some of its members, and one that is too large even without any of them is
passed over.  A page says at which offset the next one starts.

A page accounts for the classes from its offset to that of the next (`classesIn_covers`): for a
class passed over the offset moves on, for one that did not fit it does not, and the first class
of a page always fits, since no class is shown larger than a page may be.
-/
import Mathlib.Data.Prod.Lex
import Baleyg.Lib.Paging
import Baleyg.Classes.Catalogue

namespace Baleyg.Classes

open Fallible (ensure)
open Native (byteLength)

/-! ### Committed revisions -/

/-- `Limits::default`. -/
def Limits.standard : Limits where
  fileBytes := 2 * 1024 * 1024
  totalBytes := 256 * 1024 * 1024
  visits := 100000
  depth := 64
  fileClasses := 1000
  classes := 20000
  members := 256
  fileRefs := 8192
  records := 250000
  text := 2048
  outputText := 64 * 1024 * 1024
  registryText := 32 * 1024 * 1024
  files := 100000
  symbols := 1000000

/-- The class rows of a committed revision, and what it says of its catalogue. -/
structure Revision where
  classes : List ClassDefinition
  warnings : List String
  truncated : Bool
  distinct : (classes.map fun c => c.symbol.id).Nodup
  few : classes.length ≤ Limits.standard.classes

def Revision.publish (extracts : List FileExtraction) (fileCount symbolCount : Nat)
    (hrec : ∀ f ∈ extracts, f.Recorded)
    (distinct : ((compose extracts fileCount symbolCount Limits.standard).classes.map
      fun c => c.symbol.id).Nodup) : Revision where
  classes := (compose extracts fileCount symbolCount Limits.standard).classes
  warnings := (compose extracts fileCount symbolCount Limits.standard).warnings
  truncated := (compose extracts fileCount symbolCount Limits.standard).truncated
  distinct := distinct
  few := (compose_limits hrec).1

/-! ### The query -/

/-- A pattern of `LIKE` with its escape character. -/
def like : List Char → List Char → Bool
  | [], text => text.isEmpty
  | '%' :: pattern, text => text.tails.any (like pattern)
  | '_' :: pattern, text =>
      match text with
      | [] => false
      | _ :: text => like pattern text
  | '\x5c' :: c :: pattern, text =>
      match text with
      | [] => false
      | d :: text => c.toLower == d.toLower && like pattern text
  | c :: pattern, text =>
      match text with
      | [] => false
      | d :: text => c.toLower == d.toLower && like pattern text

/-- The query with what means something in a pattern escaped. -/
def escaped (query : List Char) : List Char :=
  query.flatMap fun c => if c = '\x5c' ∨ c = '%' ∨ c = '_' then ['\x5c', c] else [c]

def pattern (query : String) : List Char := '%' :: (escaped query.toList ++ ['%'])

def lower (text : String) : List Char := text.toList.map Char.toLower

/-- The `WHERE` clause. -/
def selects (path : Option String) (query : String) (c : ClassDefinition) : Bool :=
  path.all (fun p => c.symbol.path = p) &&
    (like (pattern query) c.symbol.name.toList || like (pattern query) c.qualifiedName.toList ||
      c.symbol.id = query)

/-- The `ORDER BY` clause. -/
def orderKey (query : String) (c : ClassDefinition) : Bool ×ₗ String ×ₗ String ×ₗ String :=
  toLex (decide (lower c.symbol.name ≠ lower query),
    toLex (c.qualifiedName, toLex (c.symbol.path, c.symbol.id)))

def listing (rev : Revision) (path : Option String) (query : String) : List ClassDefinition :=
  Ranking.ordered (orderKey query) (rev.classes.filter (selects path query))

/-! ### Pages -/

structure Json where
  classBytes : ClassDefinition → Nat
  stringBytes : String → Nat

def classLimit : Nat := 64 * 1024

def pageLimit : Nat := 3 * 1024 * 1024

def byteNotice : String :=
  "Presentation byte limits omitted some class members or relationships; stored source evidence is unchanged."

/-- A class with so many of its fields and of its methods. -/
def ClassDefinition.clip (c : ClassDefinition) (count : Nat) : ClassDefinition :=
  { c with fields := c.fields.take count, methods := c.methods.take count, truncated := true }

/-- `presentation_class`, of the row with an id. -/
def present (json : Json) (c : ClassDefinition) : Option (ClassDefinition × Nat × Bool) :=
  if json.classBytes c ≤ classLimit then some (c, json.classBytes c, false)
  else
    [32, 16, 8, 4, 2, 1, 0].findSome? fun count =>
      if json.classBytes (c.clip count) ≤ classLimit then
        some (c.clip count, json.classBytes (c.clip count), true)
      else none

def presentationClass (json : Json) (rev : Revision) (id : String) :
    Option (ClassDefinition × Nat × Bool) :=
  (rev.classes.find? fun c => c.symbol.id = id).bind (present json)

/-- `class_metadata`: the warnings that fit. -/
def visible (json : Json) (truncated : Bool) : Nat → List String → List String × Bool
  | _, [] => ([], truncated)
  | bytes, warning :: rest =>
      if 256 * 1024 < bytes + (json.stringBytes warning + 1) then
        (["Further catalog warnings omitted by the presentation byte limit."], true)
      else
        let (shown, truncated) := visible json truncated (bytes + (json.stringBytes warning + 1)) rest
        (warning :: shown, truncated)

structure ClassPage where
  items : List ClassDefinition
  nextOffset : Option Nat
  truncated : Bool
  warnings : List String

structure Reading where
  items : List ClassDefinition := []
  consumed : Nat := 0
  bytes : Nat := 0
  byteLimited : Bool := false

def readRows (json : Json) (rev : Revision) : List String → Reading → Reading
  | [], r => r
  | id :: rest, r =>
      match presentationClass json rev id with
      | none =>
          -- A class that is too large by itself is consumed, so that the next page gets past it.
          readRows json rev rest { r with consumed := r.consumed + 1, byteLimited := true }
      | some (c, size, clipped) =>
          if pageLimit < r.bytes + size then { r with byteLimited := true }
          else readRows json rev rest
            { items := r.items ++ [c]
              consumed := r.consumed + 1
              bytes := r.bytes + size
              byteLimited := r.byteLimited || clipped }

def relative (path : String) : Bool :=
  byteLength path ≤ 8192 && path.toList.all (fun c => c ≠ '\x00' && c ≠ '\x5c' && c ≠ ':') &&
    (path.toList.splitOn '/').all fun part => part ≠ [] && part ≠ ['.'] && part ≠ ['.', '.']

/-- `path.filter`. -/
def chosen (path : Option String) : Option String := path.filter fun p => p ≠ ""

def ends (path tail : String) : Bool := tail.toList.isSuffixOf path.toList

def pageAt (json : Json) (rev : Revision) (path : Option String) (query : String)
    (offset limit : Nat) : ClassPage :=
  let (warnings, truncated) := visible json rev.truncated 0 rev.warnings
  let ids := (((listing rev path query).drop offset).take (limit + 1)).map fun c => c.symbol.id
  let r := readRows json rev (ids.take limit) {}
  { items := r.items
    nextOffset := if r.consumed < ids.length then some (offset + r.consumed) else none
    truncated := truncated || r.byteLimited
    warnings := warnings ++ (if r.byteLimited = true then [byteNotice] else []) ++
      if path.any (fun p => !ends p ".java" && !ends p ".py") = true then
        ["Class diagrams currently support Java and Python declarations only."]
      else [] }

/-- `classes_in`, for a revision that was selected. -/
def classesIn (json : Json) (rev : Revision) (path : Option String) (query : String)
    (offset limit : Nat) : Except String ClassPage := do
  let path := chosen path
  ensure (1 ≤ limit ∧ limit ≤ 100 ∧ offset ≤ 1000000 ∧ byteLength query ≤ 512 ∧
      '\x00' ∉ query.toList)
    "Class search allows 1–100 results and a query of at most 512 bytes."
  ensure (path.all relative = true) "Choose a workspace-relative class source path."
  return pageAt json rev path query offset limit

/-! ### What a class is shown as -/

section Present

variable {json : Json} {rev : Revision} {c c' : ClassDefinition} {size : Nat} {clipped : Bool}

/-- A class is shown as it is, or clipped, and never larger than a class may be. -/
theorem present_some (h : present json c = some (c', size, clipped)) :
    size ≤ classLimit ∧ (c' = c ∨ ∃ count, c' = c.clip count) := by
  unfold present at h
  by_cases hfits : json.classBytes c ≤ classLimit
  · rw [if_pos hfits] at h
    cases h
    exact ⟨hfits, .inl rfl⟩
  · rw [if_neg hfits] at h
    obtain ⟨count, -, hcount⟩ := List.exists_of_findSome?_eq_some h
    by_cases hclip : json.classBytes (c.clip count) ≤ classLimit
    · rw [if_pos hclip] at hcount
      cases hcount
      exact ⟨hclip, .inr ⟨count, rfl⟩⟩
    · rw [if_neg hclip] at hcount; cases hcount

theorem present_none (h : present json c = none) :
    classLimit < json.classBytes c ∧ classLimit < json.classBytes (c.clip 0) := by
  unfold present at h
  by_cases hfits : json.classBytes c ≤ classLimit
  · rw [if_pos hfits] at h; cases h
  · rw [if_neg hfits] at h
    have hzero := List.findSome?_eq_none_iff.mp h 0 (by decide)
    by_cases hclip : json.classBytes (c.clip 0) ≤ classLimit
    · rw [if_pos hclip] at hzero; cases hzero
    · exact ⟨Nat.not_le.mp hfits, Nat.not_le.mp hclip⟩

theorem presentationClass_eq (hc : c ∈ rev.classes) :
    presentationClass json rev c.symbol.id = present json c := by
  have hfind : rev.classes.find? (fun other => other.symbol.id = c.symbol.id) = some c := by
    cases hfound : rev.classes.find? fun other => other.symbol.id = c.symbol.id with
    | none =>
        have hnone := List.find?_eq_none.mp hfound c hc
        rw [decide_eq_true_eq] at hnone
        exact absurd rfl hnone
    | some other =>
        have hid := List.find?_some hfound
        rw [decide_eq_true_eq] at hid
        have hmem := List.mem_of_find?_eq_some hfound
        rw [List.inj_on_of_nodup_map rev.distinct hmem hc hid]
  unfold presentationClass
  rw [hfind]
  rfl

end Present

/-! ### What a page accounts for -/

section Pages

variable {json : Json} {rev : Revision} {path : Option String} {query : String} {limit : Nat}

def shown (json : Json) (c : ClassDefinition) : Option ClassDefinition :=
  (present json c).map Prod.fst

theorem mem_listing {c : ClassDefinition} :
    c ∈ listing rev path query ↔ c ∈ rev.classes ∧ selects path query c = true := by
  unfold listing
  rw [Ranking.mem_ordered, List.mem_filter]

/-- **The loop over the rows stops behind those it has shown or passed over.** -/
theorem readRows_spec (json : Json) {rows : List ClassDefinition} (hrows : ∀ c ∈ rows, c ∈ rev.classes)
    (r : Reading) : ∃ count ≤ rows.length,
      (readRows json rev (rows.map fun c => c.symbol.id) r).items =
        r.items ++ (rows.take count).filterMap (shown json) ∧
      (readRows json rev (rows.map fun c => c.symbol.id) r).consumed = r.consumed + count ∧
      (rows ≠ [] → r.bytes = 0 → 0 < count) := by
  induction rows generalizing r with
  | nil => exact ⟨0, Nat.le_refl _, by simp [readRows], by simp [readRows], fun h => absurd rfl h⟩
  | cons c rest ih =>
      have hc : presentationClass json rev c.symbol.id = present json c :=
        presentationClass_eq (hrows c List.mem_cons_self)
      have hrest := ih fun d hd => hrows d (List.mem_cons_of_mem c hd)
      rw [List.map_cons]
      unfold readRows
      rw [hc]
      cases hp : present json c with
      | none =>
          obtain ⟨count, hle, hitems, hconsumed, -⟩ :=
            hrest { r with consumed := r.consumed + 1, byteLimited := true }
          refine ⟨count + 1, Nat.succ_le_succ hle, ?_, ?_, fun _ _ => Nat.succ_pos count⟩
          · have hnone : shown json c = none := by
              unfold shown
              rw [hp]
              rfl
            rw [List.take_succ_cons, List.filterMap_cons_none hnone]
            exact hitems
          · refine hconsumed.trans ?_
            show r.consumed + 1 + count = r.consumed + (count + 1)
            omega
      | some held =>
          obtain ⟨c', size, clipped⟩ := held
          by_cases hfull : pageLimit < r.bytes + size
          · refine ⟨0, Nat.zero_le _, ?_, ?_, ?_⟩
            · simp only [if_pos hfull]
              rw [List.take_zero, List.filterMap_nil, List.append_nil]
            · simp only [if_pos hfull]
              rfl
            · -- The first class of a page fits, whatever its size.
              intro _ hbytes
              have hsize := (present_some hp).1
              unfold classLimit at hsize
              unfold pageLimit at hfull
              omega
          · obtain ⟨count, hle, hitems, hconsumed, -⟩ := hrest
              { items := r.items ++ [c']
                consumed := r.consumed + 1
                bytes := r.bytes + size
                byteLimited := r.byteLimited || clipped }
            refine ⟨count + 1, Nat.succ_le_succ hle, ?_, ?_, fun _ _ => Nat.succ_pos count⟩
            · simp only [if_neg hfull]
              have hsome : shown json c = some c' := by
                unfold shown
                rw [hp]
                rfl
              rw [List.take_succ_cons, List.filterMap_cons_some hsome]
              refine hitems.trans ?_
              rw [List.append_assoc, List.singleton_append]
            · simp only [if_neg hfull]
              refine hconsumed.trans ?_
              show r.consumed + 1 + count = r.consumed + (count + 1)
              omega

def rowsAt (rev : Revision) (path : Option String) (query : String) (offset limit : Nat) :
    List ClassDefinition :=
  ((listing rev path query).drop offset).take (limit + 1)

theorem mem_of_rowsAt {offset : Nat} {c : ClassDefinition}
    (h : c ∈ rowsAt rev path query offset limit) : c ∈ rev.classes :=
  (mem_listing.mp (List.mem_of_mem_drop (List.mem_of_mem_take h))).1

theorem length_rowsAt (rev : Revision) (path : Option String) (query : String)
    (offset limit : Nat) : (rowsAt rev path query offset limit).length =
    min (limit + 1) ((listing rev path query).length - offset) := by
  unfold rowsAt
  rw [List.length_take, List.length_drop]

/-- **A page accounts for the rows up to where the next one starts.** -/
theorem pageAt_covers (json : Json) (hpos : 1 ≤ limit) {offset : Nat}
    (hoffset : offset ≤ (listing rev path query).length) :
    ∃ count, Paging.Covers (listing rev path query) (shown json) offset
      (pageAt json rev path query offset limit).items
      (pageAt json rev path query offset limit).nextOffset count := by
  have hrows : ∀ c ∈ (rowsAt rev path query offset limit).take limit, c ∈ rev.classes :=
    fun c hc => mem_of_rowsAt (List.mem_of_mem_take hc)
  obtain ⟨count, hle, hitems, hconsumed, hprogress⟩ := readRows_spec json hrows {}
  have hlength := length_rowsAt rev path query offset limit
  have hids : ((rowsAt rev path query offset limit).map fun c => c.symbol.id).take limit =
      ((rowsAt rev path query offset limit).take limit).map fun c => c.symbol.id :=
    List.map_take.symm
  have hcount : count ≤ limit := hle.trans (List.length_take_le _ _)
  have hread : (readRows json rev
      (((rowsAt rev path query offset limit).map fun c => c.symbol.id).take limit) {}).consumed =
        count := by
    rw [hids, hconsumed]
    exact Nat.zero_add count
  have hnext : (pageAt json rev path query offset limit).nextOffset =
      if count < (rowsAt rev path query offset limit).length then some (offset + count)
      else none := by
    have hpage : (pageAt json rev path query offset limit).nextOffset =
        if (readRows json rev
            (((rowsAt rev path query offset limit).map fun c => c.symbol.id).take limit)
              {}).consumed < ((rowsAt rev path query offset limit).map fun c => c.symbol.id).length
        then some (offset + (readRows json rev
            (((rowsAt rev path query offset limit).map fun c => c.symbol.id).take limit)
              {}).consumed)
        else none := rfl
    rw [hpage, hread, List.length_map]
  refine ⟨count, ?_, ?_, ?_⟩
  · have hpage : (pageAt json rev path query offset limit).items = (readRows json rev
        (((rowsAt rev path query offset limit).map fun c => c.symbol.id).take limit) {}).items := rfl
    rw [hpage, hids, hitems, List.take_take, Nat.min_eq_left hcount]
    unfold rowsAt
    rw [List.take_take, Nat.min_eq_left (by omega)]
    rfl
  · intro later hlater
    rw [hnext] at hlater
    by_cases hmore : count < (rowsAt rev path query offset limit).length
    · rw [if_pos hmore] at hlater
      refine ⟨(Option.some.inj hlater).symm, ?_, by omega⟩
      apply hprogress _ rfl
      intro hnil
      have hzero : ((rowsAt rev path query offset limit).take limit).length = 0 := by
        rw [hnil]
        rfl
      rw [List.length_take] at hzero
      omega
    · rw [if_neg hmore] at hlater; cases hlater
  · intro hnone
    rw [hnext] at hnone
    by_cases hmore : count < (rowsAt rev path query offset limit).length
    · rw [if_pos hmore] at hnone; cases hnone
    · omega

structure Admitted (path : Option String) (query : String) (limit : Nat) : Prop where
  some : 1 ≤ limit
  most : limit ≤ 100
  short : byteLength query ≤ 512
  plain : '\x00' ∉ query.toList
  relative : (chosen path).all relative = true

theorem length_listing (rev : Revision) (path : Option String) (query : String) :
    (listing rev path query).length ≤ rev.classes.length := by
  unfold listing
  rw [Ranking.length_ordered]
  exact List.length_filter_le _ _

/-- The identity is part of the order, so no two classes are in the same place. -/
theorem nodup_orderKey (rev : Revision) (path : Option String) (query : String) :
    ((rev.classes.filter (selects path query)).map (orderKey query)).Nodup := by
  apply List.Nodup.of_map fun key : Bool ×ₗ String ×ₗ String ×ₗ String =>
    (ofLex (ofLex (ofLex key).2).2).2
  rw [List.map_map]
  exact rev.distinct.sublist (List.filter_sublist.map _)

theorem classesIn_eq (h : Admitted path query limit) {offset : Nat}
    (hoffset : offset ≤ (listing rev (chosen path) query).length) :
    classesIn json rev path query offset limit =
      .ok (pageAt json rev (chosen path) query offset limit) := by
  have hfew := (length_listing rev (chosen path) query).trans rev.few
  have hrequest : 1 ≤ limit ∧ limit ≤ 100 ∧ offset ≤ 1000000 ∧ byteLength query ≤ 512 ∧
      '\x00' ∉ query.toList := by
    have hstandard : Limits.standard.classes = 20000 := rfl
    exact ⟨h.some, h.most, by omega, h.short, h.plain⟩
  unfold classesIn ensure
  rw [if_pos hrequest]
  simp only [if_pos h.relative]
  rfl

theorem classesIn_ok_iff :
    (∃ page, classesIn json rev path query 0 limit = .ok page) ↔ Admitted path query limit := by
  constructor
  · rintro ⟨page, hpage⟩
    unfold classesIn at hpage
    obtain ⟨hrequest, hpage⟩ := Fallible.ensure_bind_eq_ok.mp hpage
    obtain ⟨hpath, -⟩ := Fallible.ensure_bind_eq_ok.mp hpage
    exact ⟨hrequest.1, hrequest.2.1, hrequest.2.2.2.1, hrequest.2.2.2.2, hpath⟩
  · intro h; exact ⟨_, classesIn_eq h (Nat.zero_le _)⟩

/-- **Following the pages visits every class that matches, once and in order.**  What is not
shown is a class that is too large even without a member, and what is shown differs from what is
stored by members left out at the end and by the mark. -/
theorem pages_visit_once {first : ClassPage}
    (hfirst : classesIn json rev path query 0 limit = .ok first) :
    ∃ pages, Paging.follow (fun offset => classesIn json rev path query offset limit)
        ClassPage.nextOffset (rev.classes.length + 1) 0 = some pages ∧
      pages.flatMap ClassPage.items =
        (listing rev (chosen path) query).filterMap (shown json) ∧
      (∀ c, c ∈ listing rev (chosen path) query ↔
        c ∈ rev.classes ∧ selects (chosen path) query c = true) ∧
      (listing rev (chosen path) query).Pairwise
        (fun c d => orderKey query c < orderKey query d) ∧
      ∀ c ∈ listing rev (chosen path) query,
        (shown json c = none → classLimit < json.classBytes (c.clip 0)) ∧
        ∀ c', shown json c = some c' → c' = c ∨ ∃ count, c' = c.clip count := by
  have h : Admitted path query limit := classesIn_ok_iff.mp ⟨first, hfirst⟩
  have hlength := length_listing rev (chosen path) query
  have hfollow : ∃ pages, Paging.follow
        (fun offset => classesIn json rev path query offset limit) ClassPage.nextOffset
        (rev.classes.length + 1) 0 = some pages ∧
      pages.flatMap ClassPage.items =
        ((listing rev (chosen path) query).drop 0).filterMap (shown json) := by
    refine Paging.follow_covers (fun offset hoffset => ?_) (Nat.zero_le _) (by omega)
    obtain ⟨count, hcovers⟩ := pageAt_covers json h.some hoffset
    exact ⟨_, count, classesIn_eq h hoffset, hcovers⟩
  obtain ⟨pages, hpages, hitems⟩ := hfollow
  refine ⟨pages, hpages, hitems, fun c => mem_listing, ?_, ?_⟩
  · exact Ranking.pairwise_ordered_lt (nodup_orderKey rev (chosen path) query)
  · intro c _
    constructor
    · intro hnone; exact (present_none (Option.map_eq_none_iff.mp hnone)).2
    · intro c' hsome
      obtain ⟨⟨shown, size, clipped⟩, hpresent, rfl⟩ := Option.map_eq_some_iff.mp hsome
      exact (present_some hpresent).2

end Pages

namespace Sample

def json : Json := ⟨fun c => 1000 + 2000 * c.count, fun text => byteLength text⟩

def revision : Revision where
  classes := [⟨symbol "A.java", "A", "java", "class", [], [], false⟩,
    ⟨symbol "B.java", "B", "java", "class",
      List.replicate 40 ⟨"a", none, none, "B.java", range⟩, [], false⟩]
  warnings := []
  truncated := false
  distinct := by decide
  few := by decide

end Sample

theorem pages_visit_once_two : ∃ pages,
    Paging.follow (fun offset => classesIn Sample.json Sample.revision none "a" offset 1)
        ClassPage.nextOffset 3 0 = some pages ∧
      pages.flatMap ClassPage.items =
        (listing Sample.revision (chosen none) "a").filterMap (shown Sample.json) := by
  have hadmitted : Admitted none "a" 1 := ⟨by decide, by decide, by decide, by decide, by decide⟩
  obtain ⟨pages, hpages, hitems, -⟩ :=
    pages_visit_once (classesIn_eq hadmitted (Nat.zero_le _) :
      classesIn Sample.json Sample.revision none "a" 0 1 = .ok _)
  exact ⟨pages, hpages, hitems⟩

end Baleyg.Classes
