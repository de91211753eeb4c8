/-
What the ingress may drop.

A capture walks the checkout and never enters some directories; the ingress of the watcher drops
the events that are about nothing else.  The two decide about a directory in their own ways, the
walk by an entry at a time and the ingress down a path, and come to the same: below an excluded
directory the walk has no source, no ignore file, and no directory that leads to one.

What a capture reads beside its walk is another matter.  Two optional inputs and the running
executable may lie anywhere, and the ingress asks whether a path is one of them, by its spelling
and by what it resolves to.  It does not ask whether the path leads to one.  A directory inside an
excluded subtree that holds such an input is dropped with the rest of the subtree, so the ingress
and the capture agree just where no such input lies in such a directory.
-/
import Baleyg.Lib.Fallible
import Baleyg.Watch.Events

namespace Baleyg.Watch

open Fallible (ensure bind_eq_ok ensure_bind_eq_ok)

/-! ### The walk of a capture -/

/-- `filter_entry`, by the parts of a path below the root. -/
def filterEntry (parts : List String) : Bool :=
  match parts.getLast? with
  | none => true
  | some name =>
      if [".git", "node_modules", ".venv", ".trellis"].contains name then false
      else if ["target", "dist", "build"].contains name then javaOutput parts
      else true

mutual

inductive Tree where
  | leaf (type : FileType)
  | directory (entries : Forest)

inductive Forest where
  | nil
  | cons (name : String) (tree : Tree) (rest : Forest)

end

mutual

/-- What the walker comes to from an entry on; `skips` are hidden entries and the rules of the
ignore files. -/
def visit (skips : List String → Bool) (parts : List String) :
    Tree → List (List String × FileType)
  | .leaf type => [(parts, type)]
  | .directory entries => (parts, .directory) :: visitAll skips parts entries

def visitAll (skips : List String → Bool) (parts : List String) :
    Forest → List (List String × FileType)
  | .nil => []
  | .cons name tree rest =>
      (if skips (parts ++ [name]) || !filterEntry (parts ++ [name]) then []
        else visit skips (parts ++ [name]) tree) ++ visitAll skips parts rest

end

/-- A path below the root. -/
def place (root : Path) (parts : List String) : Path := root ++ parts.map .normal

structure Walked where
  directories : List Path
  sources : List Path
  deriving DecidableEq

/-- What is kept of an entry: a directory, or a source, which has to be a regular file. -/
def keep (path : Path) (type : FileType) (w : Walked) : Except String Walked :=
  if type = .directory then pure { w with directories := w.directories ++ [path] }
  else if source path = true then do
    ensure (type = .file) "unsafe source"
    pure { w with sources := w.sources ++ [path] }
  else pure w

def collect (root : Path) : List (List String × FileType) → Walked → Except String Walked
  | [], w => pure w
  | (parts, type) :: rest, w => do
      let w ← keep (place root parts) type w
      ensure (w.sources.length ≤ 100000) "workspace exceeds 100000 source files"
      collect root rest w

def walk (skips : List String → Bool) (root : Path) (tree : Tree) : Except String Walked :=
  collect root (visit skips [] tree) ⟨[], []⟩

/-! ### What a path may alter -/

structure Site where
  root : Path
  selected : List Path
  executable : Option Path

/-- What a capture reads beside its walk. -/
def Site.inputs (site : Site) : List Path := site.selected ++ site.executable.toList

/-- The path is a directory that leads to the other, as it is spelled or as it resolves. -/
def OnTheWay (files : Files) (path input : Path) : Prop :=
  files.symlinkMetadata path = some .directory ∧
    ((path <+: input ∧ path ≠ input) ∨
      ∃ canonical, files.canonicalize input = some canonical ∧ path <+: canonical ∧
        path ≠ canonical)

/-- A change of the path could alter what a capture takes in: the path is something it reads, or
leads to it. -/
inductive Alters (files : Files) (site : Site) (w : Walked) (path : Path) : Prop where
  | source {input : Path} (walked : input ∈ w.sources) (leads : path <+: input)
  | ignoreFile {directory : Path} {name : String} (walked : directory ∈ w.directories)
      (named : name = ".gitignore" ∨ name = ".ignore")
      (leads : path <+: directory ++ [.normal name])
  | rootInput {name : String} (named : name ∈ rootInputs)
      (leads : path <+: site.root ++ [.normal name])
  | input {input : Path} (read : input ∈ site.inputs)
      (same : path = input ∨ ∃ canonical, files.canonicalize path = some canonical ∧
        files.canonicalize input = some canonical)
  | above {input : Path} (read : input ∈ site.inputs) (leads : OnTheWay files path input)

/-! ### Where the walk goes -/

def Free (parts : List String) : Prop := ∀ e, e ≠ [] → e <+: parts → filterEntry e = true

section Walk

variable {skips : List String → Bool} {root path : Path} {parts upper : List String}
  {type : FileType}

theorem free_nil : Free [] := fun _ hne he => absurd (List.prefix_nil.mp he) hne

theorem Free.of_prefix (h : Free parts) (hupper : upper <+: parts) : Free upper :=
  fun e hne he => h e hne (he.trans hupper)

theorem Free.snoc (h : Free parts) {name : String} (hname : filterEntry (parts ++ [name]) = true) :
    Free (parts ++ [name]) := by
  intro e hne he
  rcases List.prefix_concat_iff.mp he with rfl | he
  · exact hname
  · exact h e hne he

theorem place_above : place root upper <+: place root parts ↔ upper <+: parts := by
  unfold place
  rw [List.prefix_append_right_inj]
  refine ⟨fun h => ?_, fun h => h.map _⟩
  obtain ⟨more, hmore, hmap⟩ := List.prefix_map_iff.mp h
  have hsame : upper = more :=
    List.map_injective_iff.mpr (fun a b hab => Component.normal.inj hab) hmap
  rw [hsame]
  exact hmore

theorem place_snoc (name : String) : place root parts ++ [.normal name] = place root (parts ++ [name]) := by
  unfold place
  rw [List.map_append, List.append_assoc]
  rfl

mutual

/-- **The walk comes to nothing behind an entry it filters.** -/
theorem free_of_visit {parts : List String} (h : Free parts) (tree : Tree) {found : List String}
    (hfound : (found, type) ∈ visit skips parts tree) : Free found := by
  cases tree with
  | leaf t =>
      rw [visit, List.mem_singleton] at hfound
      cases hfound
      exact h
  | directory entries =>
      rw [visit, List.mem_cons] at hfound
      rcases hfound with hfound | hfound
      · cases hfound; exact h
      · exact free_of_visitAll h entries hfound

theorem free_of_visitAll {parts : List String} (h : Free parts) (forest : Forest) {found : List String}
    (hfound : (found, type) ∈ visitAll skips parts forest) : Free found := by
  cases forest with
  | nil => rw [visitAll] at hfound; cases hfound
  | cons name tree rest =>
      rw [visitAll, List.mem_append] at hfound
      rcases hfound with hfound | hfound
      · by_cases hskip : (skips (parts ++ [name]) || !filterEntry (parts ++ [name])) = true
        · rw [if_pos hskip] at hfound; cases hfound
        · rw [if_neg hskip] at hfound
          rw [Bool.or_eq_true, not_or, Bool.not_eq_true', Bool.not_eq_false] at hskip
          exact free_of_visit (h.snoc hskip.2) tree hfound
      · exact free_of_visitAll h rest hfound

end

theorem keep_ok {w w' : Walked} (h : keep path type w = .ok w') :
    (∀ p ∈ w'.directories, p ∈ w.directories ∨ p = path) ∧
      ∀ p ∈ w'.sources, p ∈ w.sources ∨ p = path := by
  unfold keep at h
  split at h
  · cases h
    refine ⟨fun p hmem => ?_, fun _ hmem => .inl hmem⟩
    exact (List.mem_append.mp hmem).imp_right List.mem_singleton.mp
  · split at h
    · obtain ⟨-, h⟩ := ensure_bind_eq_ok.mp h
      cases h
      refine ⟨fun _ hmem => .inl hmem, fun p hmem => ?_⟩
      exact (List.mem_append.mp hmem).imp_right List.mem_singleton.mp
    · cases h; exact ⟨fun _ hmem => .inl hmem, fun _ hmem => .inl hmem⟩

theorem collect_ok {entries : List (List String × FileType)} {w w' : Walked}
    (h : collect root entries w = .ok w') (p : Path)
    (hp : p ∈ w'.directories ∨ p ∈ w'.sources) :
    (p ∈ w.directories ∨ p ∈ w.sources) ∨ ∃ entry ∈ entries, p = place root entry.1 := by
  induction entries generalizing w with
  | nil => cases h; exact .inl hp
  | cons entry rest ih =>
      obtain ⟨parts, type⟩ := entry
      obtain ⟨next, hnext, h⟩ := bind_eq_ok.mp h
      obtain ⟨-, h⟩ := ensure_bind_eq_ok.mp h
      obtain ⟨hdirectories, hsources⟩ := keep_ok hnext
      rcases ih h with (hmem | hmem) | ⟨entry, hentry, hpath⟩
      · rcases hdirectories p hmem with hmem | hpath
        · exact .inl (.inl hmem)
        · exact .inr ⟨(parts, type), List.mem_cons_self, hpath⟩
      · rcases hsources p hmem with hmem | hpath
        · exact .inl (.inr hmem)
        · exact .inr ⟨(parts, type), List.mem_cons_self, hpath⟩
      · exact .inr ⟨entry, List.mem_cons_of_mem _ hentry, hpath⟩

/-- **Every directory and every source of a walk lies outside what it filters.** -/
theorem free_of_walk {tree : Tree} {w : Walked} (h : walk skips root tree = .ok w)
    (hpath : path ∈ w.directories ∨ path ∈ w.sources) :
    ∃ parts, path = place root parts ∧ Free parts := by
  have hnone : ¬ (path ∈ ([] : List Path) ∨ path ∈ ([] : List Path)) := fun hmem =>
    hmem.elim List.not_mem_nil List.not_mem_nil
  obtain ⟨⟨parts, type⟩, hentry, hpath⟩ := (collect_ok h path hpath).resolve_left hnone
  exact ⟨parts, hpath, free_of_visit free_nil tree hentry⟩

end Walk

/-! ### Where the ingress drops -/

/-- No part of the way is missing or a symbolic link. -/
def Plain (files : Files) (root : Path) (parts : List String) : Prop :=
  ∀ e, e ≠ [] → e <+: parts →
    ∃ type, files.symlinkMetadata (place root e) = some type ∧ type ≠ .symlink

section Drop

variable {files : Files} {root current path : Path} {parts more : List String} {excluded : Bool}

theorem excludes_eq (parts : List String) (name : String) :
    excludes (parts ++ [name]) name = !filterEntry (parts ++ [name]) := by
  unfold excludes filterEntry
  rw [List.getLast?_append, List.getLast?_singleton, Option.some_or]
  show (if _ then true else _) = !(if _ then false else _)
  split
  · rfl
  · split
    · rfl
    · rfl

theorem prefix_cons_cases {name : String} {e : List String} (hne : e ≠ [])
    (he : e <+: name :: more) : e = [name] ∨ ∃ e', e' ≠ [] ∧ e' <+: more ∧ e = name :: e' := by
  rcases List.prefix_cons_iff.mp he with rfl | ⟨t, rfl, ht⟩
  · exact absurd rfl hne
  · by_cases hnil : t = []
    · rw [hnil]; exact .inl rfl
    · exact .inr ⟨t, hnil, ht, rfl⟩

/-- A way down from the parts before it: nothing on it is missing or a link, and the walk filters
some part of it, or has before. -/
def Dropped (files : Files) (root : Path) (parts : List String) (excluded : Bool)
    (more : List String) : Prop :=
  (∀ e, e ≠ [] → e <+: more →
    ∃ type, files.symlinkMetadata (place root (parts ++ e)) = some type ∧ type ≠ .symlink) ∧
  (excluded = true ∨ ∃ e, e ≠ [] ∧ e <+: more ∧ filterEntry (parts ++ e) = false)

theorem dropped_nil : Dropped files root parts excluded [] ↔ excluded = true := by
  constructor
  · rintro ⟨-, h | ⟨e, hne, he, -⟩⟩
    · exact h
    · exact absurd (List.prefix_nil.mp he) hne
  · intro h; exact ⟨fun e hne he => absurd (List.prefix_nil.mp he) hne, .inl h⟩

theorem dropped_cons {name : String} : Dropped files root parts excluded (name :: more) ↔
    (∃ type, files.symlinkMetadata (place root (parts ++ [name])) = some type ∧
      type ≠ .symlink) ∧
    Dropped files root (parts ++ [name]) (excluded || excludes (parts ++ [name]) name) more := by
  have hsnoc : ∀ e : List String, parts ++ name :: e = (parts ++ [name]) ++ e := fun e => by
    rw [List.append_assoc, List.singleton_append]
  have hlead : ∀ e : List String, e <+: more → name :: e <+: name :: more :=
    fun e he => List.cons_prefix_cons.mpr ⟨rfl, he⟩
  unfold Dropped
  rw [excludes_eq, Bool.or_eq_true, Bool.not_eq_true']
  constructor
  · rintro ⟨hplain, hexcluded⟩
    refine ⟨hplain [name] (List.cons_ne_nil _ _) (hlead [] List.nil_prefix), fun e _ he => ?_, ?_⟩
    · rw [← hsnoc]; exact hplain (name :: e) (List.cons_ne_nil _ _) (hlead e he)
    · rcases hexcluded with h | ⟨e, hne, he, hfilter⟩
      · exact .inl (.inl h)
      · rcases prefix_cons_cases hne he with rfl | ⟨e', hne', he', rfl⟩
        · exact .inl (.inr hfilter)
        · rw [hsnoc] at hfilter; exact .inr ⟨e', hne', he', hfilter⟩
  · rintro ⟨hfirst, hplain, hexcluded⟩
    refine ⟨fun e hne he => ?_, ?_⟩
    · rcases prefix_cons_cases hne he with rfl | ⟨e', hne', he', rfl⟩
      · exact hfirst
      · rw [hsnoc]; exact hplain e' hne' he'
    · rcases hexcluded with (h | h) | ⟨e, hne, he, hfilter⟩
      · exact .inl h
      · exact .inr ⟨[name], List.cons_ne_nil _ _, hlead [] List.nil_prefix, h⟩
      · rw [← hsnoc] at hfilter
        exact .inr ⟨name :: e, List.cons_ne_nil _ _, hlead e he, hfilter⟩

/-- **The walk of the ingress down a path.** -/
theorem walkExcluded_iff (rel : Path) :
    walkExcluded files (place root parts) parts excluded rel = some true ↔
      ∃ more, rel = more.map .normal ∧ Dropped files root parts excluded more := by
  induction rel generalizing parts excluded with
  | nil =>
      rw [walkExcluded, Option.some.injEq]
      constructor
      · intro h; exact ⟨[], rfl, dropped_nil.mpr h⟩
      · rintro ⟨more, hmore, h⟩
        rw [List.map_eq_nil_iff.mp hmore.symm] at h
        exact dropped_nil.mp h
  | cons part rest ih =>
      cases part with
      | normal name =>
          have hmore : (∃ more : List String, Component.normal name :: rest = more.map .normal ∧
              Dropped files root parts excluded more) ↔
              (∃ type, files.symlinkMetadata (place root (parts ++ [name])) = some type ∧
                type ≠ .symlink) ∧
              ∃ more : List String, rest = more.map .normal ∧
                Dropped files root (parts ++ [name])
                  (excluded || excludes (parts ++ [name]) name) more := by
            constructor
            · rintro ⟨more, hmap, h⟩
              cases more with
              | nil => cases hmap
              | cons first more =>
                  cases hmap
                  obtain ⟨hfirst, hrest⟩ := dropped_cons.mp h
                  exact ⟨hfirst, more, rfl, hrest⟩
            · rintro ⟨hfirst, more, rfl, hrest⟩
              exact ⟨name :: more, rfl, dropped_cons.mpr ⟨hfirst, hrest⟩⟩
          rw [hmore, ← ih, walkExcluded, place_snoc]
          cases files.symlinkMetadata (place root (parts ++ [name])) with
          | none =>
              constructor
              · intro h; cases h
              · rintro ⟨⟨type, htype, -⟩, -⟩
                cases htype
          | some type =>
              have hsome : (∃ t, some type = some t ∧ t ≠ .symlink) ↔ type ≠ .symlink :=
                ⟨fun ⟨t, ht, hne⟩ => Option.some.inj ht ▸ hne, fun hne => ⟨type, rfl, hne⟩⟩
              rw [hsome]
              cases type with
              | symlink =>
                  constructor
                  · intro h; cases h
                  · rintro ⟨hne, -⟩
                    exact absurd rfl hne
              | file | directory | other => exact ⟨fun h => ⟨FileType.noConfusion, h⟩, And.right⟩
      | root | current | parent =>
          constructor
          · intro h; cases h
          · rintro ⟨more, hmap, -⟩
            cases more <;> cases hmap

end Drop

/-! ### Agreement -/

/-- What a file system and the checks of a capture warrant: the root is absolute, a path without
links below it resolves to itself, and what is read is no directory. -/
structure Site.Lawful (files : Files) (site : Site) : Prop where
  absolute : site.root.isAbsolute = true
  plain : ∀ parts, Plain files site.root parts →
    files.canonicalize (place site.root parts) = some (place site.root parts)
  regular : ∀ input ∈ site.inputs, ∀ canonical, files.canonicalize input = some canonical →
    files.symlinkMetadata canonical ≠ some .directory

/-- No optional input and not the executable lies, as it is spelled or as it resolves, in a
directory of the checkout that is reached without links and that the walk filters. -/
def Site.Clear (files : Files) (site : Site) : Prop :=
  ∀ executable canonical, site.executable = some executable →
    files.canonicalize executable = some canonical →
    ∀ input ∈ site.inputs, ∀ parts, OnTheWay files (place site.root parts) input →
      Plain files site.root parts → Free parts

/-- Whatever the ingress drops could alter nothing. -/
def Site.Agrees (files : Files) (site : Site) : Prop :=
  ∀ event, certainlyExcluded files event site.root site.selected site.executable = true →
    ∀ path ∈ event.paths, ∀ skips tree w, walk skips site.root tree = .ok w →
      ¬ Alters files site w (site.root.join path)

section Agreement

variable {files : Files} {site : Site} {path executable canonical : Path}

theorem dropped_start {parts : List String} :
    Dropped files site.root [] false parts ↔ Plain files site.root parts ∧ ¬ Free parts := by
  have hfree : (∃ e, e ≠ [] ∧ e <+: parts ∧ filterEntry ([] ++ e) = false) ↔ ¬ Free parts := by
    constructor
    · rintro ⟨e, hne, he, hfilter⟩ hfree
      exact Bool.false_ne_true (hfilter.symm.trans (hfree e hne he))
    · intro hfree
      by_contra hnone
      refine hfree fun e hne he => ?_
      by_contra hfilter
      exact hnone ⟨e, hne, he, Bool.not_eq_true _ ▸ hfilter⟩
  unfold Dropped
  rw [hfree]
  refine and_congr_right fun _ => ⟨fun h => ?_, .inr⟩
  rcases h with h | h
  · cases h
  · exact h

theorem below_eq_some {root path rel : Path} : root.below path = some rel ↔ path = root ++ rel := by
  unfold Path.below
  constructor
  · intro h
    split at h
    · rename_i hprefix
      obtain ⟨more, rfl⟩ := List.isPrefixOf_iff_prefix.mp hprefix
      rw [List.drop_left] at h
      rw [Option.some.inj h]
    · cases h
  · rintro rfl
    rw [if_pos (List.isPrefixOf_iff_prefix.mpr (List.prefix_append root rel)), List.drop_left]

theorem place_nil (root : Path) : place root [] = root := List.append_nil root

/-- **When the ingress drops a path.** -/
theorem excludedPath_iff : excludedPath files site.root site.selected executable canonical path = true ↔
    (site.root.join path ∉ site.selected ∧ executable ≠ site.root.join path) ∧
      ∃ resolved, files.canonicalize (site.root.join path) = some resolved ∧
        ((∀ input ∈ site.selected, files.canonicalize input ≠ some resolved) ∧
          canonical ≠ resolved) ∧
        ∃ parts, site.root.join path = place site.root parts ∧ Plain files site.root parts ∧
          ¬ Free parts := by
  have hspelled : ¬ (site.selected.contains (site.root.join path) ||
      executable == site.root.join path) = true ↔
      site.root.join path ∉ site.selected ∧ executable ≠ site.root.join path := by
    rw [Bool.or_eq_true, not_or, List.contains_iff_mem, beq_iff_eq]
  have hresolved : ∀ resolved, ¬ ((site.selected.any fun path =>
      files.canonicalize path == some resolved) || canonical == resolved) = true ↔
      (∀ input ∈ site.selected, files.canonicalize input ≠ some resolved) ∧
        canonical ≠ resolved := by
    intro resolved
    rw [Bool.or_eq_true, not_or, List.any_eq_true, beq_iff_eq]
    simp only [beq_iff_eq, not_exists, not_and, ne_eq]
  have hway : ∀ rel, (walkExcluded files site.root [] false rel == some true) = true ↔
      ∃ parts, rel = parts.map .normal ∧ Plain files site.root parts ∧ ¬ Free parts := by
    intro rel
    have hwalk : walkExcluded files (place site.root []) [] false rel = some true ↔
        ∃ parts, rel = parts.map .normal ∧ Dropped files site.root [] false parts :=
      walkExcluded_iff rel
    rw [place_nil] at hwalk
    rw [beq_iff_eq, hwalk]
    exact exists_congr fun parts => and_congr_right fun _ => dropped_start
  unfold excludedPath
  rw [← hspelled]
  by_cases hsame : (site.selected.contains (site.root.join path) ||
      executable == site.root.join path) = true
  · simp only [hsame, if_true, not_true, false_and, Bool.false_eq_true]
  · simp only [hsame, if_false, Bool.false_eq_true, not_false_eq_true, true_and]
    cases hcanonical : files.canonicalize (site.root.join path) with
    | none =>
        refine ⟨fun h => absurd h Bool.false_ne_true, ?_⟩
        rintro ⟨resolved, hnone, -⟩
        cases hnone
    | some resolved =>
        have hone : ∀ q : Path → Prop, (∃ r, some resolved = some r ∧ q r) ↔ q resolved := fun q =>
          ⟨fun ⟨r, hr, hq⟩ => Option.some.inj hr ▸ hq, fun hq => ⟨resolved, rfl, hq⟩⟩
        rw [hone, ← hresolved]
        by_cases hother : ((site.selected.any fun path =>
            files.canonicalize path == some resolved) || canonical == resolved) = true
        · simp only [hother, if_true, not_true, false_and, Bool.false_eq_true]
        · simp only [hother, if_false, Bool.false_eq_true, not_false_eq_true, true_and]
          cases hbelow : site.root.below (site.root.join path) with
          | none =>
              refine ⟨fun h => absurd h Bool.false_ne_true, ?_⟩
              rintro ⟨parts, hplace, -⟩
              have hsome : site.root.below (site.root.join path) = some (parts.map .normal) :=
                below_eq_some.mpr hplace
              rw [hbelow] at hsome
              cases hsome
          | some rel =>
              have hrel := below_eq_some.mp hbelow
              show (walkExcluded files site.root [] false rel == some true) = true ↔ _
              rw [hway]
              refine exists_congr fun parts => and_congr_left fun _ => ?_
              rw [hrel]
              exact (List.append_right_inj site.root).symm

theorem dropped_path {event : Event}
    (h : certainlyExcluded files event site.root site.selected site.executable = true)
    (hpath : path ∈ event.paths) :
    ∃ executable canonical, site.executable = some executable ∧
      files.canonicalize executable = some canonical ∧
      excludedPath files site.root site.selected executable canonical path = true := by
  unfold certainlyExcluded at h
  split at h
  · cases h
  · cases hexecutable : site.executable with
    | none => rw [hexecutable] at h; cases h
    | some executable =>
        rw [hexecutable] at h
        cases hcanonical : files.canonicalize executable with
        | none =>
            simp only [hcanonical] at h
            cases h
        | some canonical =>
            simp only [hcanonical] at h
            exact ⟨executable, canonical, rfl, hcanonical, List.all_eq_true.mp h path hpath⟩

/-- **The walk and the ingress agree**: below a directory that the walk filters there is nothing
of the walk, and no directory on the way to anything of it. -/
theorem not_walked {skips : List String → Bool} {tree : Tree} {w : Walked} {parts : List String}
    (hwalk : walk skips site.root tree = .ok w) (hfree : ¬ Free parts) :
    (∀ input ∈ w.sources, ¬ place site.root parts <+: input) ∧
      (∀ directory ∈ w.directories, ∀ name, (name = ".gitignore" ∨ name = ".ignore") →
        ¬ place site.root parts <+: directory ++ [.normal name]) ∧
      ∀ name ∈ rootInputs, ¬ place site.root parts <+: site.root ++ [.normal name] := by
  have hnot : ∀ more, Free more → ¬ place site.root parts <+: place site.root more :=
    fun more hmore hprefix => hfree (hmore.of_prefix (place_above.mp hprefix))
  refine ⟨fun input hinput => ?_, fun directory hdirectory name hname => ?_, fun name hname => ?_⟩
  · obtain ⟨more, rfl, hmore⟩ := free_of_walk hwalk (.inr hinput)
    exact hnot more hmore
  · obtain ⟨more, rfl, hmore⟩ := free_of_walk hwalk (.inl hdirectory)
    rw [place_snoc]
    refine hnot _ (hmore.snoc ?_)
    unfold filterEntry
    rw [List.getLast?_concat]
    rcases hname with rfl | rfl
    · rfl
    · rfl
  · have hsingle : site.root ++ [.normal name] = place site.root [name] := rfl
    rw [hsingle]
    refine hnot _ (free_nil.snoc ?_)
    have hall : ∀ n ∈ rootInputs, filterEntry ([] ++ [n]) = true := by decide
    exact hall name hname

/-- **Where nothing is read below what the walk filters, the ingress drops nothing that is
read.** -/
theorem agrees_of_clear (h : site.Clear files) : site.Agrees files := by
  intro event hdropped path hpath skips tree w hwalk halters
  obtain ⟨executable, canonical, hexecutable, hcanonical, hexcluded⟩ := dropped_path hdropped hpath
  obtain ⟨⟨hselected, hself⟩, resolved, hresolved, ⟨hothers, hrunning⟩, parts, hplace, hplain, hfree⟩ :=
    excludedPath_iff.mp hexcluded
  obtain ⟨hsources, hignores, hroots⟩ := not_walked hwalk hfree
  have hinputs : ∀ input ∈ site.inputs, input ∈ site.selected ∨ input = executable := by
    intro input hinput
    rcases List.mem_append.mp hinput with hmem | hmem
    · exact .inl hmem
    · rw [hexecutable] at hmem; exact .inr (List.mem_singleton.mp hmem)
  cases halters with
  | source hwalked hleads => exact hsources _ hwalked (hplace ▸ hleads)
  | ignoreFile hwalked hnamed hleads => exact hignores _ hwalked _ hnamed (hplace ▸ hleads)
  | rootInput hnamed hleads => exact hroots _ hnamed (hplace ▸ hleads)
  | input hread hsame =>
      rcases hinputs _ hread with hmem | rfl
      · rcases hsame with rfl | ⟨c, hc, hinput⟩
        · exact hselected hmem
        · rw [hresolved] at hc
          cases hc
          exact hothers _ hmem hinput
      · rcases hsame with hspelled | ⟨c, hc, hinput⟩
        · exact hself hspelled.symm
        · rw [hresolved] at hc
          cases hc
          rw [hcanonical] at hinput
          exact hrunning (Option.some.inj hinput)
  | above hread hleads =>
      rw [hplace] at hleads
      exact hfree (h executable canonical hexecutable hcanonical _ hread parts hleads hplain)

/-- **And where something is, there is an event that the ingress drops.** -/
theorem clear_of_agrees (hlawful : site.Lawful files) (h : site.Agrees files) : site.Clear files := by
  intro executable canonical hexecutable hcanonical input hinput parts hleads hplain
  by_contra hfree
  have hresolved := hlawful.plain parts hplain
  have hnoinput : ∀ p ∈ site.inputs, files.canonicalize p ≠ some (place site.root parts) :=
    fun p hp hsame => hlawful.regular p hp _ hsame hleads.1
  have hself : executable ∈ site.inputs := by
    refine List.mem_append_right _ ?_
    rw [hexecutable]
    exact List.mem_singleton_self _
  have hjoin : site.root.join (place site.root parts) = place site.root parts := by
    refine if_pos ?_
    have habsolute := hlawful.absolute
    unfold Path.isAbsolute place at *
    cases hroot : site.root with
    | nil => rw [hroot] at habsolute; cases habsolute
    | cons first rest => rw [hroot] at habsolute; exact habsolute
  have hexcluded : excludedPath files site.root site.selected executable canonical
      (place site.root parts) = true := by
    refine excludedPath_iff.mpr ⟨⟨fun hmem => ?_, fun hsame => ?_⟩, place site.root parts, ?_,
      ⟨fun p hp => hnoinput p (List.mem_append_left _ hp), fun hsame => ?_⟩, parts, hjoin, hplain,
      hfree⟩
    · rw [hjoin] at hmem; exact hnoinput _ (List.mem_append_left _ hmem) hresolved
    · rw [hjoin] at hsame; exact hnoinput _ hself (hsame ▸ hresolved)
    · rw [hjoin, hresolved]
    · exact hnoinput _ hself (hsame ▸ hcanonical)
  have hdropped : certainlyExcluded files ⟨.create, [place site.root parts]⟩ site.root site.selected
      site.executable = true := by
    unfold certainlyExcluded
    rw [hexecutable]
    simp only [hcanonical]
    show (if false = true then false else ([place site.root parts].all _)) = true
    rw [if_neg Bool.false_ne_true, List.all_cons, hexcluded]
    rfl
  have hempty : walk (fun _ => false) site.root (.directory .nil) =
      .ok ⟨[place site.root []], []⟩ := rfl
  have hnone := h _ hdropped _ (List.mem_singleton_self _) _ _ _ hempty
  rw [hjoin] at hnone
  exact hnone (.above hinput hleads)

end Agreement

/-- **When the ingress agrees with the capture**: just when no optional input and not the
executable lies in a directory of the checkout that the walk filters. -/
theorem agrees_iff_clear {files : Files} {site : Site} (hlawful : site.Lawful files) :
    site.Agrees files ↔ site.Clear files :=
  ⟨clear_of_agrees hlawful, agrees_of_clear⟩

namespace Built

def root : Path := [.root, .normal "w"]

def files : Files where
  canonicalize := some
  symlinkMetadata path := if path = root ++ [.normal "build"] then some .directory else some .file

def site : Site := ⟨root, [root ++ [.normal "build", .normal "index.scip"]],
  some [.root, .normal "bin", .normal "trellis"]⟩

def outside : Site := ⟨root, [], some [.root, .normal "bin", .normal "trellis"]⟩

end Built

/-- **The directory that holds a selected index is dropped**: it may be moved away and another put
in its place. -/
theorem output_directory_dropped :
    certainlyExcluded Built.files ⟨.modify .name, [Built.root ++ [.normal "build"]]⟩ Built.site.root
        Built.site.selected Built.site.executable = true ∧
      ∃ w, walk (fun _ => false) Built.site.root (.directory .nil) = .ok w ∧
        Alters Built.files Built.site w (Built.root ++ [.normal "build"]) := by
  refine ⟨by decide, _, rfl, ?_⟩
  have hread : Built.root ++ [.normal "build", .normal "index.scip"] ∈ Built.site.inputs := by decide
  exact .above hread ⟨by decide, .inl ⟨by decide, by decide⟩⟩

theorem agrees_iff_clear_outside : Built.outside.Agrees Built.files := by
  refine (agrees_iff_clear ⟨by decide, fun _ _ => rfl, fun input hinput canonical hcanonical => ?_⟩).mpr ?_
  · have hsame : input = [.root, .normal "bin", .normal "trellis"] := List.mem_singleton.mp hinput
    rw [← Option.some.inj hcanonical, hsame]
    decide
  · intro executable canonical _ _ input hinput parts hleads
    have hsame : input = [.root, .normal "bin", .normal "trellis"] := List.mem_singleton.mp hinput
    have hprefix : Built.root ++ parts.map .normal <+: [.root, .normal "bin", .normal "trellis"] := by
      rcases hleads.2 with ⟨hp, -⟩ | ⟨c, hc, hp, -⟩
      · rwa [hsame] at hp
      · cases hc
        rwa [hsame] at hp
    have hroot : Built.root <+: [.root, .normal "bin", .normal "trellis"] :=
      (List.prefix_append _ _).trans hprefix
    exact absurd hroot (by decide)

end Baleyg.Watch
