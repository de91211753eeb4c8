/-
The budgets of the dependency catalogue hold.

What a file does to the walk's state is said once (`Indexed`): it is counted, its bytes are, and of
its symbols so many are added as the budgets have room for.  That no budget is exceeded (`Within`)
is kept by every step from this alone, and as every step but a few goes through entries or takes
a directory off the queue, the walk comes to its end (`run_ends`).
-/
import Mathlib.Algebra.Order.Ring.Nat
import Baleyg.Dependency.Walk
import Baleyg.Lib.Loops

namespace Baleyg.Dependency

open Loops (outcome)

def textBytes (p : Params) (symbols : List CatalogSymbol) : Nat :=
  (symbols.map (symbolTextBytes p)).sum

/-! ### What is added -/

structure Added (p : Params) (symbols : List CatalogSymbol) (s t : State)
    (kept : List CatalogSymbol) : Prop where
  eq : t = { s with
    catalog := { s.catalog with symbols := s.catalog.symbols ++ kept }
    package := t.package
    packageSymbols := s.packageSymbols + kept.length
    symbolBytes := t.symbolBytes }
  id : t.package.id = s.package.id
  fits : kept <+: symbols
  /-- All is added, or the package is marked. -/
  all : t.package.indexState = .incomplete ∨
    (kept = symbols ∧ t.package = s.package ∧ t.symbolBytes = s.symbolBytes + textBytes p symbols)
  least : s.symbolBytes ≤ maxBytes → s.symbolBytes + textBytes p kept ≤ t.symbolBytes
  most : s.symbolBytes ≤ maxBytes → t.symbolBytes ≤ maxBytes

section Steps

variable {p : Params} {path text : String} {symbols : List CatalogSymbol}
  {declarations : Declarations} {s t : State}

theorem textBytes_cons (symbol : CatalogSymbol) :
    textBytes p (symbol :: symbols) = symbolTextBytes p symbol + textBytes p symbols := by
  unfold textBytes
  rw [List.map_cons, List.sum_cons]

/-- **Symbols are added as far as their text goes.** -/
theorem addSymbols_added (p : Params) (symbols : List CatalogSymbol) (s : State) :
    ∃ kept, Added p symbols s (addSymbols p symbols s) kept := by
  induction symbols generalizing s with
  | nil =>
      refine ⟨[], ?_, rfl, List.prefix_refl _, .inr ⟨rfl, rfl, rfl⟩, ?_, ?_⟩
      · rw [List.append_nil]; rfl
      · intro _; exact Nat.le_refl _
      · intro h; exact h
  | cons symbol rest ih =>
      unfold addSymbols
      by_cases hover : maxBytes < s.symbolBytes + symbolTextBytes p symbol
      · rw [if_pos hover]
        refine ⟨[], ?_, rfl, List.nil_prefix, .inl rfl, ?_, ?_⟩
        · rw [List.append_nil]; rfl
        · intro h; exact h
        · intro _; exact Nat.le_refl _
      · rw [if_neg hover]
        obtain ⟨kept, hadded⟩ := ih { s with
          symbolBytes := s.symbolBytes + symbolTextBytes p symbol
          packageSymbols := s.packageSymbols + 1
          catalog := { s.catalog with symbols := s.catalog.symbols ++ [symbol] } }
        have hroom : s.symbolBytes + symbolTextBytes p symbol ≤ maxBytes := Nat.le_of_not_lt hover
        refine ⟨symbol :: kept, ?_, hadded.id, ?_, ?_, ?_, ?_⟩
        · refine hadded.eq.trans ?_
          dsimp only
          rw [List.append_assoc, List.singleton_append, List.length_cons,
            Nat.add_right_comm s.packageSymbols 1]
          rfl
        · exact List.cons_prefix_cons.mpr ⟨rfl, hadded.fits⟩
        · rcases hadded.all with hmarked | ⟨hall, hpackage, hbytes⟩
          · exact .inl hmarked
          · refine .inr ⟨by rw [hall], hpackage, hbytes.trans ?_⟩
            rw [textBytes_cons, Nat.add_assoc]
        · intro _
          have hleast := hadded.least hroom
          rw [textBytes_cons, ← Nat.add_assoc]
          exact hleast
        · intro _; exact hadded.most hroom

theorem report_eq (declarations : Declarations) (s : State) :
    report declarations s = { s with package := (report declarations s).package } ∧
      (report declarations s).package.id = s.package.id ∧
      ((report declarations s).package.indexState = .incomplete ∨
        (report declarations s).package.indexState = s.package.indexState ∧
          declarations.warnings.any saysPartial = false) := by
  unfold report
  by_cases hpartial : declarations.warnings.any saysPartial = true
  · rw [if_pos hpartial]; exact ⟨rfl, rfl, .inl rfl⟩
  · rw [if_neg hpartial]; exact ⟨rfl, rfl, .inr ⟨rfl, Bool.eq_false_iff.mpr hpartial⟩⟩

/-- Symbols that are cut are so many as there is room for, and the package is marked. -/
theorem selected_cases (symbols : List CatalogSymbol) (s : State) :
    (symbols.length ≤ available s ∧ selected symbols s = symbols ∧ markCut symbols s = s) ∨
      ((selected symbols s).length = available s ∧
        (markCut symbols s).package.indexState = .incomplete) := by
  unfold selected markCut
  by_cases hcut : available s < symbols.length
  · rw [if_pos hcut, if_pos hcut, Ranking.length_best]
    exact .inr ⟨Nat.min_eq_left (Nat.le_of_lt hcut), rfl⟩
  · rw [if_neg hcut, if_neg hcut]; exact .inl ⟨Nat.le_of_not_lt hcut, rfl, rfl⟩

theorem markCut_eq (symbols : List CatalogSymbol) (s : State) :
    markCut symbols s = { s with package := (markCut symbols s).package } ∧
      (markCut symbols s).package.id = s.package.id := by
  unfold markCut
  by_cases hcut : available s < symbols.length
  · rw [if_pos hcut]; exact ⟨rfl, rfl⟩
  · rw [if_neg hcut]; exact ⟨rfl, rfl⟩

/-- What the extractor says of a file, in a state that has counted its bytes. -/
def extracted (p : Params) (s : State) (path text : String) : Option Declarations :=
  p.extract path text (sourceRef p s path text)

/-- All there is to a file is in the catalogue, and nothing of it marked the package. -/
structure Whole (p : Params) (path : String) (s t : State) (kept : List CatalogSymbol) : Prop where
  state : t.package.indexState = s.package.indexState
  room : s.totalFiles < maxFiles ∧ s.files < maxPackageFiles ∧
    s.catalog.symbols.length < maxSymbols
  read : ∃ text declarations, p.root.readFile path = some text ∧
    s.bytes + text.utf8ByteSize ≤ maxPackageBytes ∧ s.totalBytes + text.utf8ByteSize ≤ maxBytes ∧
    extracted p s path text = some declarations ∧
    declarations.warnings.any saysPartial = false ∧ kept = declarations.symbols
  reads : t.reads = s.reads ++ [path]
  text : t.symbolBytes = s.symbolBytes + textBytes p kept

/-- **What a file does to a state.** -/
structure Indexed (p : Params) (path : String) (s t : State) (kept : List CatalogSymbol)
    (size : Nat) : Prop where
  dirs : t.dirs = s.dirs
  visited : t.visited = s.visited
  polls : t.polls = s.polls
  id : t.package.id = s.package.id
  counted : (t.files = s.files ∧ t.totalFiles = s.totalFiles) ∨
    (t.files = s.files + 1 ∧ t.totalFiles = s.totalFiles + 1 ∧ s.files < maxPackageFiles ∧
      s.totalFiles < maxFiles)
  bytes : t.bytes = s.bytes + size
  totalBytes : t.totalBytes = s.totalBytes + size
  byteRoom : size = 0 ∨
    (s.bytes + size ≤ maxPackageBytes ∧ s.totalBytes + size ≤ maxBytes)
  symbols : t.catalog.symbols = s.catalog.symbols ++ kept
  packageSymbols : t.packageSymbols = s.packageSymbols + kept.length
  symbolRoom : kept.length ≤ available s
  least : s.symbolBytes ≤ maxBytes → s.symbolBytes + textBytes p kept ≤ t.symbolBytes
  most : s.symbolBytes ≤ maxBytes → t.symbolBytes ≤ maxBytes
  whole : t.package.indexState = .incomplete ∨ Whole p path s t kept

theorem Indexed.unread {size : Nat} (heq : t = { s with
      package := t.package
      files := t.files
      totalFiles := t.totalFiles
      reads := t.reads
      bytes := s.bytes + size
      totalBytes := s.totalBytes + size })
    (hmarked : t.package.indexState = .incomplete) (hid : t.package.id = s.package.id)
    (hcounted : (t.files = s.files ∧ t.totalFiles = s.totalFiles) ∨
      (t.files = s.files + 1 ∧ t.totalFiles = s.totalFiles + 1 ∧ s.files < maxPackageFiles ∧
        s.totalFiles < maxFiles))
    (hroom : size = 0 ∨
      (s.bytes + size ≤ maxPackageBytes ∧ s.totalBytes + size ≤ maxBytes)) :
    Indexed p path s t [] size := by
  refine ⟨by rw [heq], by rw [heq], by rw [heq], hid, hcounted, by rw [heq], by rw [heq], hroom, ?_,
    by rw [heq]; rfl, Nat.zero_le _, fun _ => ?_, fun h => ?_, .inl hmarked⟩
  · rw [heq, List.append_nil]
  · rw [heq]; exact Nat.le_refl _
  · rw [heq]; exact h

/-- What the symbols of a file make of a state. -/
structure Declared (p : Params) (declarations : Declarations) (s w : State)
    (kept : List CatalogSymbol) : Prop where
  eq : w = { s with
    catalog := { s.catalog with symbols := s.catalog.symbols ++ kept }
    package := w.package
    packageSymbols := s.packageSymbols + kept.length
    symbolBytes := w.symbolBytes }
  id : w.package.id = s.package.id
  fits : kept.length ≤ available s
  least : s.symbolBytes ≤ maxBytes → s.symbolBytes + textBytes p kept ≤ w.symbolBytes
  most : s.symbolBytes ≤ maxBytes → w.symbolBytes ≤ maxBytes
  whole : w.package.indexState = .incomplete ∨ w.package.indexState = s.package.indexState ∧
    declarations.warnings.any saysPartial = false ∧ kept = declarations.symbols ∧
    w.symbolBytes = s.symbolBytes + textBytes p kept

theorem addSymbols_declared (p : Params) (declarations : Declarations) (s : State) :
    ∃ kept, Declared p declarations s (addSymbols p
      (selected declarations.symbols (report declarations s))
      (markCut declarations.symbols (report declarations s))) kept := by
  obtain ⟨hreport, hreportId, hreported⟩ := report_eq declarations s
  generalize report declarations s = u at hreport hreportId hreported
  obtain ⟨hcut, hcutId⟩ := markCut_eq declarations.symbols u
  obtain ⟨kept, hadded⟩ := addSymbols_added p (selected declarations.symbols u)
    (markCut declarations.symbols u)
  generalize addSymbols p (selected declarations.symbols u) (markCut declarations.symbols u) = w
    at hadded ⊢
  have hbytes : (markCut declarations.symbols u).symbolBytes = s.symbolBytes := by
    rw [hcut, hreport]
  have havailable : available u = available s := by
    rw [hreport]
    rfl
  refine ⟨kept, ?_, hadded.id.trans (hcutId.trans hreportId), ?_, ?_, ?_, ?_⟩
  · refine hadded.eq.trans ?_
    rw [hcut, hreport]
  · refine Nat.le_trans hadded.fits.length_le ?_
    rw [← havailable]
    rcases selected_cases declarations.symbols u with ⟨hle, hsame, -⟩ | ⟨hlength, -⟩
    · rw [hsame]; exact hle
    · exact Nat.le_of_eq hlength
  · rw [← hbytes]; exact hadded.least
  · rw [← hbytes]; exact hadded.most
  · rcases hadded.all with hmarked | ⟨hkept, hpackage, htext⟩
    · exact .inl hmarked
    · rcases selected_cases declarations.symbols u with ⟨-, hsame, huncut⟩ | ⟨-, hmarked⟩
      · rw [huncut] at hpackage
        rw [hsame] at hkept
        rcases hreported with hmarked | ⟨hstate, hquiet⟩
        · rw [hpackage]; exact .inl hmarked
        · refine .inr ⟨by rw [hpackage, hstate], hquiet, hkept, ?_⟩
          rw [htext, hbytes, hsame, hkept]
      · rw [hpackage]; exact .inl hmarked

/-- **What is extracted is added, and the walk goes on only where there is room.** -/
theorem indexDeclarations_cases (p : Params) (path text : String) (declarations : Declarations)
    (s : State) : ∃ t kept, (indexDeclarations p path text declarations s = .ok t ∧
        t.packageSymbols < maxPackageSymbols ∧ t.symbolBytes < maxBytes ∨
      indexDeclarations p path text declarations s = .error t ∧
        (t.package.indexState = .incomplete ∨
          t.packageSymbols < maxPackageSymbols ∧ maxBytes ≤ t.symbolBytes)) ∧
      t = { s with
        catalog := t.catalog
        package := t.package
        packageSymbols := s.packageSymbols + kept.length
        symbolBytes := t.symbolBytes } ∧
      t.catalog.symbols = s.catalog.symbols ++ kept ∧ t.package.id = s.package.id ∧
      kept.length ≤ available s ∧
      (s.symbolBytes ≤ maxBytes → s.symbolBytes + textBytes p kept ≤ t.symbolBytes) ∧
      (s.symbolBytes ≤ maxBytes → t.symbolBytes ≤ maxBytes) ∧
      (t.package.indexState = .incomplete ∨ t.package.indexState = s.package.indexState ∧
        declarations.warnings.any saysPartial = false ∧ kept = declarations.symbols ∧
        t.symbolBytes = s.symbolBytes + textBytes p kept) := by
  obtain ⟨kept, hw⟩ := addSymbols_declared p declarations s
  unfold indexDeclarations
  dsimp only
  generalize addSymbols p (selected declarations.symbols (report declarations s))
    (markCut declarations.symbols (report declarations s)) = w at hw
  -- The source is put down, and the budgets are looked at.
  have hput : addSource p path text w = { s with
      catalog := ⟨s.catalog.symbols ++ kept, Register.put Prod.fst
        (sourceRef p s path text, ⟨p.root.root, path, p.digest text, s.package.id⟩)
        s.catalog.sources⟩
      package := w.package
      packageSymbols := s.packageSymbols + kept.length
      symbolBytes := w.symbolBytes } := by
    unfold addSource sourceRef
    rw [hw.id, hw.eq]
  by_cases hlimit : maxPackageSymbols ≤ (addSource p path text w).packageSymbols
  · rw [if_pos hlimit]
    refine ⟨_, kept, .inr ⟨rfl, .inl rfl⟩, ?_, ?_, hw.id, hw.fits, hw.least, hw.most, .inl rfl⟩
    · rw [hput]; rfl
    · rw [hput]; rfl
  · rw [if_neg hlimit]
    by_cases htext : maxBytes ≤ (addSource p path text w).symbolBytes
    · rw [if_pos htext]
      refine ⟨_, kept, .inr ⟨rfl, .inr ⟨Nat.lt_of_not_le hlimit, htext⟩⟩, ?_, ?_, hw.id, hw.fits,
        hw.least, hw.most, hw.whole⟩
      · rw [hput]
      · rw [hput]
    · rw [if_neg htext]
      refine ⟨_, kept, .inl ⟨rfl, Nat.lt_of_not_le hlimit, Nat.lt_of_not_le htext⟩, ?_, ?_, hw.id,
        hw.fits, hw.least, hw.most, hw.whole⟩
      · rw [hput]
      · rw [hput]

/-- **A file is read, and the walk goes on only where there is room.** -/
theorem indexFile_indexed (p : Params) (path : String) (s : State) :
    ∃ t kept size, (indexFile p path s = .ok t ∧
        (s.packageSymbols < maxPackageSymbols → s.symbolBytes < maxBytes →
          t.packageSymbols < maxPackageSymbols ∧ t.symbolBytes < maxBytes) ∨
      indexFile p path s = .error t ∧
        (t.package.indexState = .incomplete ∨
          t.packageSymbols < maxPackageSymbols ∧ maxBytes ≤ t.symbolBytes)) ∧
      Indexed p path s t kept size := by
  unfold indexFile
  by_cases hspent : maxFiles ≤ s.totalFiles ∨ maxPackageFiles ≤ s.files ∨
      maxSymbols ≤ s.catalog.symbols.length
  · rw [if_pos hspent]
    exact ⟨_, [], 0, .inr ⟨rfl, .inl rfl⟩, .unread rfl rfl rfl (.inl ⟨rfl, rfl⟩) (.inl rfl)⟩
  · rw [if_neg hspent]
    have hcounted : s.files < maxPackageFiles ∧ s.totalFiles < maxFiles := by omega
    have hfree : s.totalFiles < maxFiles ∧ s.files < maxPackageFiles ∧
        s.catalog.symbols.length < maxSymbols := by omega
    dsimp only
    cases hread : p.root.readFile path with
    | none =>
        dsimp only
        refine ⟨_, [], 0, .inl ⟨rfl, fun hsymbols htext => ⟨hsymbols, htext⟩⟩,
          .unread rfl rfl rfl (.inr ⟨rfl, rfl, hcounted⟩) (.inl rfl)⟩
    | some text =>
        dsimp only
        unfold indexText
        dsimp only
        by_cases hover : maxPackageBytes < s.bytes + text.utf8ByteSize ∨
            maxBytes < s.totalBytes + text.utf8ByteSize
        · rw [if_pos hover]
          exact ⟨_, [], 0, .inr ⟨rfl, .inl rfl⟩,
            .unread rfl rfl rfl (.inr ⟨rfl, rfl, hcounted⟩) (.inl rfl)⟩
        · rw [if_neg hover]
          have hroom : s.bytes + text.utf8ByteSize ≤ maxPackageBytes ∧
              s.totalBytes + text.utf8ByteSize ≤ maxBytes := by omega
          have hextracted : extracted p s path text = p.extract path text (sourceRef p { s with
              files := s.files + 1
              totalFiles := s.totalFiles + 1
              reads := s.reads ++ [path]
              bytes := s.bytes + text.utf8ByteSize
              totalBytes := s.totalBytes + text.utf8ByteSize } path text) := rfl
          rw [← hextracted]
          cases hdeclarations : extracted p s path text with
          | none =>
              exact ⟨_, [], text.utf8ByteSize,
                .inl ⟨rfl, fun hsymbols htext => ⟨hsymbols, htext⟩⟩,
                .unread rfl rfl rfl (.inr ⟨rfl, rfl, hcounted⟩) (.inr hroom)⟩
          | some declarations =>
              dsimp only
              obtain ⟨t, kept, hout, heq, hsymbols, hid, havailable, hleast, hmost, hwhole⟩ :=
                indexDeclarations_cases p path text declarations { s with
                  files := s.files + 1
                  totalFiles := s.totalFiles + 1
                  reads := s.reads ++ [path]
                  bytes := s.bytes + text.utf8ByteSize
                  totalBytes := s.totalBytes + text.utf8ByteSize }
              refine ⟨t, kept, text.utf8ByteSize, ?_, by rw [heq], by rw [heq], by rw [heq], hid,
                .inr ⟨by rw [heq], by rw [heq], hcounted⟩, by rw [heq], by rw [heq], .inr hroom,
                hsymbols, by rw [heq], havailable, hleast, hmost, ?_⟩
              · rcases hout with ⟨hok, hlimits⟩ | herror
                · exact .inl ⟨hok, fun _ _ => hlimits⟩
                · exact .inr herror
              · rcases hwhole with hmarked | ⟨hstate, hquiet, hkept, htext⟩
                · exact .inl hmarked
                · exact .inr ⟨hstate, hfree, ⟨text, declarations, hread, hroom.1, hroom.2,
                    hdeclarations, hquiet, hkept⟩, by rw [heq], htext⟩

/-- What an entry does that is no Rust file, and that a Rust file is indexed. -/
theorem indexEntry_cases (p : Params) (e : Entry) (s : State) :
    (indexEntry p e s = .ok { s with visited := s.visited + 1 } ∧
      (passedOver e.name = true ∨ e.kind = .file ∧ isRust e.name = false)) ∨
    (indexEntry p e s = .ok { s with
        visited := s.visited + 1
        dirs := s.dirs ++ [e.path] } ∧ e.kind = .directory) ∨
    (∃ warning, indexEntry p e s = .ok ({ s with visited := s.visited + 1 }.mark warning)) ∨
    (passedOver e.name = false ∧ e.kind = .file ∧ isRust e.name = true ∧
      indexEntry p e s = indexFile p e.path { s with visited := s.visited + 1 }) := by
  unfold indexEntry
  dsimp only
  by_cases hpassed : passedOver e.name = true
  · rw [if_pos hpassed]; exact .inl ⟨rfl, .inl hpassed⟩
  · rw [if_neg hpassed]
    by_cases hdirectory : e.kind = .directory
    · rw [if_pos hdirectory]
      by_cases hqueue : s.dirs.length < 2000
      · rw [if_pos hqueue]; exact .inr (.inl ⟨rfl, hdirectory⟩)
      · rw [if_neg hqueue]; exact .inr (.inr (.inl ⟨_, rfl⟩))
    · rw [if_neg hdirectory]
      by_cases hfile : e.kind ≠ .file
      · rw [if_pos hfile]; exact .inr (.inr (.inl ⟨_, rfl⟩))
      · rw [if_neg hfile]
        have hkind : e.kind = .file := Decidable.not_not.mp hfile
        by_cases hrust : isRust e.name = false
        · rw [if_pos hrust]; exact .inl ⟨rfl, .inr ⟨hkind, hrust⟩⟩
        · rw [if_neg hrust]
          exact .inr (.inr (.inr ⟨Bool.eq_false_iff.mpr hpassed, hkind,
            Bool.not_eq_false _ |>.mp hrust, rfl⟩))

theorem step_next_nil (h : s.dirs = []) : step p (.next, s) = (.returned, s) := by
  dsimp only [step]
  rw [h]

theorem step_next_cons {dir : String} {dirs : List String} (h : s.dirs = dir :: dirs) :
    step p (.next, s) = (.page dir 0, { s with dirs := dirs }) := by
  dsimp only [step]
  rw [h]

theorem step_page {dir : String} {offset : Nat} :
    step p (.page dir offset, s) = checked p s (readPage p dir offset) := rfl

theorem step_entry {dir : String} {e : Entry} {rest : List Entry} {next : Option Nat} :
    step p (.entries dir (e :: rest) next, s) = checked p s fun s =>
      match indexEntry p e s with
      | .ok s => (.entries dir rest next, s)
      | .error s => (.returned, s) := rfl

end Steps

/-! ### The budgets -/

/-- **No budget is exceeded**, and the totals are what they were and what is counted since. -/
structure Within (p : Params) (init s : State) : Prop where
  files : s.files ≤ maxPackageFiles
  totalFiles : s.totalFiles = init.totalFiles + s.files
  fileRoom : s.files = 0 ∨ s.totalFiles ≤ maxFiles
  bytes : s.bytes ≤ maxPackageBytes
  totalBytes : s.totalBytes = init.totalBytes + s.bytes
  byteRoom : s.bytes = 0 ∨ s.totalBytes ≤ maxBytes
  packageSymbols : s.packageSymbols ≤ maxPackageSymbols
  symbolBytes : s.symbolBytes ≤ max init.symbolBytes maxBytes
  /-- The symbols that are added are counted, and so is their text. -/
  added : ∃ added, s.catalog.symbols = init.catalog.symbols ++ added ∧
    added.length = s.packageSymbols ∧ (added = [] ∨ s.catalog.symbols.length ≤ maxSymbols) ∧
    init.symbolBytes + textBytes p added ≤ s.symbolBytes

/-- There is room where the walk goes through entries. -/
def Roomy : Place × State → Prop
  | (.entries _ _ _, s) => s.packageSymbols < maxPackageSymbols ∧ s.symbolBytes < maxBytes
  | _ => True

section Budgets

variable {p : Params} {path : String} {init s t : State} {c : Place × State}

theorem Within.congr (h : Within p init s) (heq : t = { s with
      package := t.package
      dirs := t.dirs
      visited := t.visited
      polls := t.polls
      reads := t.reads }) : Within p init t := by
  rw [heq]
  exact ⟨h.files, h.totalFiles, h.fileRoom, h.bytes, h.totalBytes, h.byteRoom, h.packageSymbols,
    h.symbolBytes, h.added⟩

/-- **A file keeps the budgets.** -/
theorem Within.indexed (h : Within p init s) (hroomy : s.symbolBytes < maxBytes)
    {kept : List CatalogSymbol} {size : Nat} (hindexed : Indexed p path s t kept size) :
    Within p init t := by
  have hleast := hindexed.least (Nat.le_of_lt hroomy)
  have hmost := hindexed.most (Nat.le_of_lt hroomy)
  have hkept := hindexed.symbolRoom
  unfold available at hkept
  refine ⟨?_, ?_, ?_, ?_, ?_, ?_, ?_, ?_, ?_⟩
  · have hfiles := h.files
    rcases hindexed.counted with ⟨hsame, -⟩ | ⟨hone, -, hlt, -⟩
    · omega
    · omega
  · have htotal := h.totalFiles
    rcases hindexed.counted with ⟨hsame, hsame'⟩ | ⟨hone, hone', -, -⟩
    · omega
    · omega
  · have hroom := h.fileRoom
    rcases hindexed.counted with ⟨hsame, hsame'⟩ | ⟨-, hone', -, hlt⟩
    · rw [hsame, hsame']; exact hroom
    · exact .inr (by omega)
  · have hbytes := h.bytes
    have hsize := hindexed.bytes
    rcases hindexed.byteRoom with hzero | ⟨hle, -⟩
    · omega
    · omega
  · have htotal := h.totalBytes
    have hsize := hindexed.bytes
    have hsize' := hindexed.totalBytes
    omega
  · have hroom := h.byteRoom
    have hsize := hindexed.bytes
    have hsize' := hindexed.totalBytes
    rcases hindexed.byteRoom with hzero | ⟨-, hle⟩
    · rw [hsize, hsize', hzero]; exact hroom
    · exact .inr (by omega)
  · have hsymbols := h.packageSymbols
    have hcount := hindexed.packageSymbols
    omega
  · omega
  · obtain ⟨added, hsymbols, hlength, hfew, htext⟩ := h.added
    refine ⟨added ++ kept, ?_, ?_, ?_, ?_⟩
    · rw [hindexed.symbols, hsymbols, List.append_assoc]
    · rw [List.length_append, hlength, hindexed.packageSymbols]
    · by_cases hnil : kept = []
      · rw [hindexed.symbols, hnil, List.append_nil, List.append_nil]; exact hfew
      · have hpos : 0 < kept.length := List.length_pos_iff.mpr hnil
        refine .inr ?_
        rw [hindexed.symbols, List.length_append]
        omega
    · have happend : textBytes p (added ++ kept) = textBytes p added + textBytes p kept := by
        unfold textBytes
        rw [List.map_append, List.sum_append]
      omega

theorem Within.entry (h : Within p init s) (hroomy : s.symbolBytes < maxBytes) {e : Entry}
    {r : Except State State} (hr : indexEntry p e s = r) : Within p init (outcome r) := by
  subst hr
  rcases indexEntry_cases p e s with ⟨heq, -⟩ | ⟨heq, -⟩ | ⟨warning, heq⟩ | ⟨-, -, -, heq⟩
  · rw [heq]; exact h.congr rfl
  · rw [heq]; exact h.congr rfl
  · rw [heq]; exact h.congr rfl
  · rw [heq]
    obtain ⟨t, kept, size, hout, hindexed⟩ :=
      indexFile_indexed p e.path { s with visited := s.visited + 1 }
    have hwithin : Within p init t := (h.congr (t := { s with visited := s.visited + 1 }) rfl).indexed
      hroomy hindexed
    rcases hout with ⟨hok, -⟩ | ⟨herror, -⟩
    · rw [hok]; exact hwithin
    · rw [herror]; exact hwithin

theorem roomy_entry (hsymbols : s.packageSymbols < maxPackageSymbols)
    (htext : s.symbolBytes < maxBytes) {e : Entry} (hok : indexEntry p e s = .ok t) :
    t.packageSymbols < maxPackageSymbols ∧ t.symbolBytes < maxBytes := by
  rcases indexEntry_cases p e s with ⟨heq, -⟩ | ⟨heq, -⟩ | ⟨warning, heq⟩ | ⟨-, -, -, heq⟩
  · rw [heq] at hok
    cases hok
    exact ⟨hsymbols, htext⟩
  · rw [heq] at hok
    cases hok
    exact ⟨hsymbols, htext⟩
  · rw [heq] at hok
    cases hok
    exact ⟨hsymbols, htext⟩
  · rw [heq] at hok
    obtain ⟨u, kept, size, hout, -⟩ :=
      indexFile_indexed p e.path { s with visited := s.visited + 1 }
    rcases hout with ⟨hok', hroom⟩ | ⟨herror, -⟩
    · rw [hok'] at hok
      cases hok
      exact hroom hsymbols htext
    · rw [herror] at hok; cases hok

theorem readPage_cases (p : Params) (dir : String) (offset : Nat) (s : State) :
    (∃ warning, readPage p dir offset s = (.returned, s.mark warning)) ∨
    (∃ warning, readPage p dir offset s = (.next, s.mark warning)) ∨
    ∃ entries next truncated, p.root.list dir offset 200 = some (entries, next, truncated) ∧
      s.packageSymbols < maxPackageSymbols ∧ ¬ spent s ∧
      readPage p dir offset s = (.entries dir entries next,
        if truncated = true then s.mark "Partial: source directory listing truncated." else s) := by
  unfold readPage
  by_cases hsymbols : maxPackageSymbols ≤ s.packageSymbols
  · rw [if_pos hsymbols]; exact .inl ⟨_, rfl⟩
  · rw [if_neg hsymbols]
    by_cases hspent : spent s
    · rw [if_pos hspent]; exact .inl ⟨_, rfl⟩
    · rw [if_neg hspent]
      cases hlist : p.root.list dir offset 200 with
      | none => exact .inr (.inl ⟨_, rfl⟩)
      | some listed =>
          obtain ⟨entries, next, truncated⟩ := listed
          exact .inr (.inr ⟨entries, next, truncated, rfl, Nat.lt_of_not_le hsymbols, hspent, rfl⟩)

/-- **A step keeps the budgets.** -/
theorem step_within (h : Within p init c.2) (hroomy : Roomy c) :
    Within p init (step p c).2 ∧ Roomy (step p c) := by
  obtain ⟨place, s⟩ := c
  cases place with
  | next =>
      cases hdirs : s.dirs with
      | nil => rw [step_next_nil hdirs]; exact ⟨h, trivial⟩
      | cons dir dirs => rw [step_next_cons hdirs]; exact ⟨h.congr rfl, trivial⟩
  | page dir offset =>
      rw [step_page]
      unfold checked
      by_cases hcancel : p.cancel s.polls = true
      · rw [if_pos hcancel]; exact ⟨h, trivial⟩
      · rw [if_neg hcancel]
        rcases readPage_cases p dir offset { s with polls := s.polls + 1 } with ⟨warning, heq⟩ |
          ⟨warning, heq⟩ | ⟨entries, next, truncated, -, hsymbols, hspent, heq⟩
        · rw [heq]; exact ⟨h.congr rfl, trivial⟩
        · rw [heq]; exact ⟨h.congr rfl, trivial⟩
        · rw [heq]
          have htext : s.symbolBytes < maxBytes := by
            refine Nat.lt_of_not_le fun hle => hspent ?_
            exact .inr (.inr (.inr (.inr (.inr (.inl hle)))))
          cases truncated with
          | false | true => exact ⟨h.congr rfl, hsymbols, htext⟩
  | entries dir rest next =>
      cases rest with
      | nil =>
          cases next with
          | none | some => exact ⟨h, trivial⟩
      | cons e rest =>
          rw [step_entry]
          unfold checked
          by_cases hcancel : p.cancel s.polls = true
          · rw [if_pos hcancel]; exact ⟨h, trivial⟩
          · rw [if_neg hcancel]
            have hpolled : Within p init { s with polls := s.polls + 1 } := h.congr rfl
            dsimp only
            cases hentry : indexEntry p e { s with polls := s.polls + 1 } with
            | ok t =>
                exact ⟨hpolled.entry hroomy.2 hentry,
                  roomy_entry (s := { s with polls := s.polls + 1 }) hroomy.1 hroomy.2 hentry⟩
            | error t => exact ⟨hpolled.entry hroomy.2 hentry, trivial⟩
  | returned | cancelled => exact ⟨h, trivial⟩

/-- **A walk keeps the budgets.** -/
theorem run_within {n : Nat} (h : Within p init c.2) (hroomy : Roomy c) :
    Within p init (run p n c).2 ∧ Roomy (run p n c) := by
  induction n generalizing c with
  | zero => exact ⟨h, hroomy⟩
  | succ n ih =>
      obtain ⟨hwithin, hroomy'⟩ := step_within h hroomy
      exact ih hwithin hroomy'

theorem within_start (p : Params) (catalog : Catalog) (package : Package) (totals : Totals) :
    Within p (start p catalog package totals) (start p catalog package totals) := by
  refine ⟨Nat.zero_le _, rfl, .inl rfl, Nat.zero_le _, rfl, .inl rfl, Nat.zero_le _,
    Nat.le_max_left _ _, [], ?_, rfl, .inl rfl, Nat.le_refl _⟩
  rw [List.append_nil]

end Budgets

/-! ### The walk ends

An entry takes one visit and puts one directory into the queue at most, which weighs
less.
-/

section Ends

variable {p : Params} {c : Place × State}

/-- How far the walk is from its end at most. -/
def weight : Place × State → Nat
  | (.next, s) => 6 * (50200 - s.visited) + 3 * s.dirs.length + 1
  | (.page _ _, s) => 6 * (50200 - s.visited) + 3 * s.dirs.length + 3
  | (.entries _ rest next, s) => 6 * (50200 - (s.visited + rest.length)) + 4 * rest.length +
      3 * s.dirs.length + next.elim 2 fun _ => 4
  | (.returned, _) => 0
  | (.cancelled, _) => 0

def Ended (c : Place × State) : Prop := c.1 = .returned ∨ c.1 = .cancelled

theorem weight_page (dir : String) (offset : Nat) (s : State) :
    weight (readPage p dir offset { s with polls := s.polls + 1 }) <
      weight (.page dir offset, s) := by
  rcases readPage_cases p dir offset { s with polls := s.polls + 1 } with ⟨warning, heq⟩ |
    ⟨warning, heq⟩ | ⟨entries, next, truncated, hlist, -, hspent, heq⟩
  · rw [heq]; exact Nat.succ_pos _
  · rw [heq]; exact Nat.lt_of_lt_of_le (Nat.add_lt_add_left (by decide) _) (Nat.le_refl _)
  · rw [heq]
    obtain ⟨all, -, hentries, hnext⟩ := list_eq_some hlist
    have hvisited : s.visited < 50000 := by
      refine Nat.lt_of_not_le fun hle => hspent ?_
      exact .inr (.inr (.inr (.inr (.inr (.inr hle)))))
    have hlength : entries.length = min 200 (all.length - offset) := by
      rw [hentries, List.length_take, List.length_drop]
    have hstate : ∀ u : State, u.visited = s.visited → u.dirs = s.dirs →
        weight (.entries dir entries next, u) < weight (.page dir offset, s) := by
      intro u hu hdirs
      dsimp only [weight]
      rw [hu, hdirs]
      by_cases hmore : offset + 200 < all.length
      · rw [hnext, if_pos hmore]
        dsimp only [Option.elim]
        omega
      · rw [hnext, if_neg hmore]
        dsimp only [Option.elim]
        omega
    cases truncated with
    | false | true => exact hstate _ rfl rfl

theorem weight_entry (dir : String) (e : Entry) (rest : List Entry) (next : Option Nat)
    (s : State) : weight (match indexEntry p e { s with polls := s.polls + 1 } with
      | .ok s => (.entries dir rest next, s)
      | .error s => (.returned, s)) < weight (.entries dir (e :: rest) next, s) := by
  have hpos : 0 < weight (.entries dir (e :: rest) next, s) := by
    dsimp only [weight]
    rw [List.length_cons]
    omega
  have hstate : ∀ u : State, u.visited = s.visited + 1 → u.dirs.length ≤ s.dirs.length + 1 →
      weight (.entries dir rest next, u) < weight (.entries dir (e :: rest) next, s) := by
    intro u hu hdirs
    dsimp only [weight]
    rw [hu, List.length_cons]
    omega
  rcases indexEntry_cases p e { s with polls := s.polls + 1 } with ⟨heq, -⟩ | ⟨heq, -⟩ |
    ⟨warning, heq⟩ | ⟨-, -, -, heq⟩
  · rw [heq]; exact hstate _ rfl (Nat.le_succ _)
  · rw [heq]
    refine hstate _ rfl (Nat.le_of_eq ?_)
    rw [List.length_append, List.length_singleton]
  · rw [heq]; exact hstate _ rfl (Nat.le_succ _)
  · rw [heq]
    obtain ⟨t, kept, size, hout, hindexed⟩ := indexFile_indexed p e.path
      { s with polls := s.polls + 1, visited := s.visited + 1 }
    rcases hout with ⟨hok, -⟩ | ⟨herror, -⟩
    · rw [hok]
      refine hstate t hindexed.visited ?_
      rw [hindexed.dirs]
      exact Nat.le_succ _
    · rw [herror]; exact hpos

/-- **Every step brings the walk nearer to its end.** -/
theorem weight_step (hgoing : ¬ Ended c) : weight (step p c) < weight c := by
  obtain ⟨place, s⟩ := c
  cases place with
  | next =>
      cases hdirs : s.dirs with
      | nil => rw [step_next_nil hdirs]; exact Nat.succ_pos _
      | cons dir dirs =>
          rw [step_next_cons hdirs]
          dsimp only [weight]
          rw [hdirs, List.length_cons]
          omega
  | page dir offset =>
      rw [step_page]
      unfold checked
      by_cases hcancel : p.cancel s.polls = true
      · rw [if_pos hcancel]; exact Nat.succ_pos _
      · rw [if_neg hcancel]; exact weight_page dir offset s
  | entries dir rest next =>
      cases rest with
      | nil =>
          cases next with
          | none | some => exact Nat.lt_succ_self _
      | cons e rest =>
          rw [step_entry]
          unfold checked
          by_cases hcancel : p.cancel s.polls = true
          · rw [if_pos hcancel]
            dsimp only [weight]
            rw [List.length_cons]
            omega
          · rw [if_neg hcancel]; exact weight_entry dir e rest next s
  | returned => exact absurd (.inl rfl) hgoing
  | cancelled => exact absurd (.inr rfl) hgoing

theorem step_ended (h : Ended c) : step p c = c := by
  obtain ⟨place, s⟩ := c
  rcases h with h | h
  · cases h; rfl
  · cases h; rfl

theorem run_ended {n : Nat} (h : Ended c) : run p n c = c := by
  induction n with
  | zero => rfl
  | succ n ih =>
      unfold run
      rw [step_ended h]
      exact ih

/-- **The walk ends.** -/
theorem run_ends {n : Nat} (h : weight c < n) : Ended (run p n c) := by
  induction n generalizing c with
  | zero => exact absurd h (Nat.not_lt_zero _)
  | succ n ih =>
      by_cases hended : Ended c
      · rw [run_ended hended]; exact hended
      · unfold run
        have hlt := weight_step (p := p) hended
        exact ih (by omega)

theorem run_start (p : Params) (catalog : Catalog) (package : Package) (totals : Totals) :
    Ended (run p turns (.next, start p catalog package totals)) := by
  refine run_ends ?_
  have hweight : weight (.next, start p catalog package totals) = 6 * 50200 + 3 * 1 + 1 := rfl
  rw [hweight]
  decide

end Ends

end Baleyg.Dependency
