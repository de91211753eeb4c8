/-
The directories the dependency catalogue reads.

A directory is listed in pages of its sorted entries, and a listing says where it is not whole: a
name that cannot be written down is left out, and so is what comes after the first 10,000 entries.
A file is read only if it is a regular one, not too large and text.
-/
import Mathlib.Data.Prod.Lex
import Mathlib.Data.String.Basic
import Baleyg.Lib.Paging
import Baleyg.Lib.Ranking

namespace Baleyg.Dependency

def scanLimit : Nat := 10000

def validPath (path : String) : Bool :=
  path.utf8ByteSize ≤ 8192 && (path.toList.all fun c => c ∉ ['\x00', '\x5c', ':']) &&
    (path = "" || (path.toList.splitOn '/').all fun part => part ∉ [[], ['.'], ['.', '.']])

inductive EntryKind where
  | directory
  | file
  | symlink
  | other
  deriving DecidableEq, Repr

structure Entry where
  name : String
  path : String
  kind : EntryKind
  deriving DecidableEq, Repr

/-- An entry as `readdir` and `fstatat` have it: its name if that is text, its kind if it can be
told. -/
structure Raw where
  name : Option String
  kind : Option EntryKind
  deriving DecidableEq, Repr

/-- A directory that is read from, as it is while it is read. -/
structure SourceDir where
  root : String
  /-- The entries of a directory, but `.` and `..`, if it can be opened and read. -/
  readdir : String → Option (List Raw)
  content : String → Option String

def entryPath (path name : String) : String := if path = "" then name else path ++ "/" ++ name

def scan (path : String) : List Raw → Nat → List Entry → Bool → Option (List Entry × Bool)
  | [], _, entries, truncated => some (entries, truncated)
  | raw :: rest, scanned, entries, truncated =>
      if scanned = scanLimit then some (entries, true)
      else
        match raw.name with
        | none => scan path rest (scanned + 1) entries true
        | some name =>
            if validPath name = false then scan path rest (scanned + 1) entries true
            else
              match raw.kind with
              | none => none
              | some kind =>
                  scan path rest (scanned + 1) (entries ++ [⟨name, entryPath path name, kind⟩])
                    truncated

def entryKey (e : Entry) : Bool ×ₗ String := toLex (e.kind != .directory, e.name)

namespace SourceDir

/-- All entries of a directory, in their order, and whether some are left out. -/
def whole (root : SourceDir) (path : String) : Option (List Entry × Bool) :=
  (root.readdir path).bind fun raws =>
    (scan path raws 0 [] false).map fun (entries, truncated) =>
      (Ranking.ordered entryKey entries, truncated)

def list (root : SourceDir) (path : String) (offset limit : Nat) :
    Option (List Entry × Option Nat × Bool) :=
  if validPath path = false ∨ ¬ (1 ≤ limit ∧ limit ≤ 200) ∨ scanLimit < offset then none
  else
    (root.whole path).map fun (entries, truncated) =>
      ((entries.drop offset).take limit,
        if offset + limit < entries.length then some (offset + limit) else none, truncated)

def readFile (root : SourceDir) (path : String) : Option String :=
  if path = "" ∨ validPath path = false then none
  else (root.content path).filter fun text => text.utf8ByteSize ≤ 2 * 1024 * 1024

end SourceDir

/-! ### What a listing says -/

section Listings

variable {root : SourceDir} {path name : String} {raws : List Raw} {raw : Raw}
  {entries found : List Entry} {scanned offset : Nat} {truncated cut : Bool}

theorem scan_truncated (h : scan path raws scanned found true = some (entries, truncated)) :
    truncated = true := by
  induction raws generalizing scanned found with
  | nil => cases h; rfl
  | cons raw rest ih =>
      unfold scan at h
      by_cases hlimit : scanned = scanLimit
      · rw [if_pos hlimit] at h
        cases h
        rfl
      · rw [if_neg hlimit] at h
        cases hname : raw.name with
        | none => rw [hname] at h; exact ih h
        | some name =>
            rw [hname] at h
            dsimp only at h
            by_cases hvalid : validPath name = false
            · rw [if_pos hvalid] at h; exact ih h
            · rw [if_neg hvalid] at h
              cases hkind : raw.kind with
              | none => rw [hkind] at h; cases h
              | some kind => rw [hkind] at h; exact ih h

theorem scan_mem (h : scan path raws scanned found truncated = some (entries, false)) :
    (∀ e ∈ found, e ∈ entries) ∧ ∀ raw ∈ raws, ∃ name kind, raw.name = some name ∧
      raw.kind = some kind ∧ ⟨name, entryPath path name, kind⟩ ∈ entries := by
  induction raws generalizing scanned found truncated with
  | nil => cases h; exact ⟨fun e he => he, fun raw hraw => absurd hraw List.not_mem_nil⟩
  | cons raw rest ih =>
      unfold scan at h
      by_cases hlimit : scanned = scanLimit
      · rw [if_pos hlimit] at h; cases h
      · rw [if_neg hlimit] at h
        cases hname : raw.name with
        | none => rw [hname] at h; exact absurd (scan_truncated h) Bool.noConfusion
        | some name =>
            rw [hname] at h
            dsimp only at h
            by_cases hvalid : validPath name = false
            · rw [if_pos hvalid] at h; exact absurd (scan_truncated h) Bool.noConfusion
            · rw [if_neg hvalid] at h
              cases hkind : raw.kind with
              | none => rw [hkind] at h; cases h
              | some kind =>
                  rw [hkind] at h
                  obtain ⟨hfound, hrest⟩ := ih h
                  refine ⟨fun e he => hfound e (List.mem_append_left _ he), ?_⟩
                  intro other hother
                  rcases List.mem_cons.mp hother with heq | hother
                  · rw [heq]
                    exact ⟨name, kind, hname, hkind,
                      hfound _ (List.mem_append_right _ (List.mem_singleton.mpr rfl))⟩
                  · exact hrest other hother

theorem whole_mem (h : root.whole path = some (entries, false)) (hraws : root.readdir path = some raws)
    (hraw : raw ∈ raws) : ∃ name kind, raw.name = some name ∧ raw.kind = some kind ∧
      ⟨name, entryPath path name, kind⟩ ∈ entries := by
  unfold SourceDir.whole at h
  rw [hraws, Option.bind_some] at h
  obtain ⟨⟨scanned, truncated⟩, hscan, heq⟩ := Option.map_eq_some_iff.mp h
  cases heq
  obtain ⟨name, kind, hname, hkind, hmem⟩ := (scan_mem hscan).2 raw hraw
  exact ⟨name, kind, hname, hkind, Ranking.mem_ordered.mpr hmem⟩

theorem list_eq_some {limit : Nat} {page : List Entry} {next : Option Nat}
    (h : root.list path offset limit = some (page, next, truncated)) :
    ∃ entries, root.whole path = some (entries, truncated) ∧
      page = (entries.drop offset).take limit ∧
      next = if offset + limit < entries.length then some (offset + limit) else none := by
  unfold SourceDir.list at h
  by_cases hinvalid : validPath path = false ∨ ¬ (1 ≤ limit ∧ limit ≤ 200) ∨ scanLimit < offset
  · rw [if_pos hinvalid] at h; cases h
  · rw [if_neg hinvalid] at h
    obtain ⟨⟨entries, truncated'⟩, hwhole, heq⟩ := Option.map_eq_some_iff.mp h
    cases heq
    exact ⟨entries, hwhole, rfl, rfl⟩

theorem scan_length (hscanned : scanned ≤ scanLimit)
    (h : scan path raws scanned found cut = some (entries, truncated)) :
    entries.length + scanned ≤ found.length + scanLimit := by
  induction raws generalizing scanned found cut with
  | nil => cases h; omega
  | cons raw rest ih =>
      unfold scan at h
      by_cases hlimit : scanned = scanLimit
      · rw [if_pos hlimit] at h
        cases h
        omega
      · rw [if_neg hlimit] at h
        have hnext : scanned + 1 ≤ scanLimit := by omega
        split at h
        · exact (Nat.add_le_add_left (Nat.le_succ _) _).trans (ih hnext h)
        · split at h
          · exact (Nat.add_le_add_left (Nat.le_succ _) _).trans (ih hnext h)
          · split at h
            · cases h
            · have hrest := ih hnext h
              rw [List.length_append, List.length_singleton] at hrest
              omega

/-- **The pages of a directory show every entry once.**  From the first offset on each page says
where the next one begins, the last one says that it is the last, and together they are the whole
listing. -/
theorem follow_list {limit : Nat} (hpath : validPath path = true) (hlimit : 1 ≤ limit ∧ limit ≤ 200)
    (hwhole : root.whole path = some (entries, truncated)) :
    ∃ pages, Paging.follow (fun offset => (root.list path offset limit).elim (.error ()) .ok)
        (fun page => page.2.1) (entries.length + 1) 0 = some pages ∧
      pages.flatMap Prod.fst = entries := by
  have hlength : entries.length ≤ scanLimit := by
    obtain ⟨raws, -, hmap⟩ := Option.bind_eq_some_iff.mp hwhole
    obtain ⟨⟨scanned, _⟩, hscan, heq⟩ := Option.map_eq_some_iff.mp hmap
    cases heq
    rw [Ranking.length_ordered]
    simpa using scan_length (Nat.zero_le _) hscan
  have hpage : ∀ offset ≤ entries.length, ∃ page count,
      (root.list path offset limit).elim (.error ()) Except.ok = .ok page ∧
        Paging.Covers entries some offset page.1 page.2.1 count := by
    intro offset hoffset
    unfold SourceDir.list
    rw [if_neg (by simp [hpath, hlimit]; omega), hwhole]
    refine ⟨_, limit, rfl, by simp, fun later hnext => ?_, fun hnext => ?_⟩
    · obtain ⟨hlt, hlater⟩ := Option.ite_none_right_eq_some.mp hnext
      exact ⟨(Option.some.inj hlater).symm, hlimit.1, hlt.le⟩
    · by_contra hlt
      have hmore : (if offset + limit < entries.length then some (offset + limit) else none)
          = none := hnext
      rw [if_pos (Nat.lt_of_not_le hlt)] at hmore
      cases hmore
  simpa using Paging.follow_covers hpage (Nat.zero_le _) (Nat.lt_succ_self _)

def several : List Entry :=
  [⟨"src", "src", .directory⟩, ⟨"tests", "tests", .directory⟩, ⟨"Cargo.toml", "Cargo.toml", .file⟩,
    ⟨"README", "README", .symlink⟩, ⟨"build.rs", "build.rs", .file⟩]

def severalDir : SourceDir where
  root := "/"
  readdir _ := some (several.map fun e => ⟨some e.name, some e.kind⟩)
  content _ := none

/-- Three pages, two of which name the next. -/
theorem follow_list_several : ∃ pages,
    Paging.follow (fun offset => (severalDir.list "" offset 2).elim (.error ()) .ok)
      (fun page => page.2.1) 6 0 = some pages ∧
    pages.flatMap Prod.fst = several := by
  have hwhole : severalDir.whole "" = some (several, false) := by decide +kernel
  exact follow_list (by decide +kernel) (by decide) hwhole

end Listings

end Baleyg.Dependency
