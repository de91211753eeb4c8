/-
The walk that fills the dependency catalogue from a package.

`index_package` goes through the directories of a package in breadth, a page of a directory at a
time, and adds what the extractor finds in each Rust file.  It runs against budgets that span
packages and budgets of its own, and whatever it leaves out it says by marking the package partial.

The loops are one step function on where the walk is (`Place`) and what it has (`State`).  The
extractor and the digests are parameters of the walk, and so is the flag that cancels it, as the
answers it gives one after the other.
-/
import Mathlib.Data.List.Infix
import Baleyg.Dependency.Files
import Baleyg.Lib.Register

namespace Baleyg.Dependency

/-! ### The catalogue -/

structure SourceRange where
  startByte : Nat
  endByte : Nat
  startLine : Nat
  startColumn : Nat
  endLine : Nat
  endColumn : Nat
  deriving DecidableEq, Repr

structure CatalogSymbol where
  id : String
  packageId : String
  name : String
  qualifiedName : String
  kind : String
  parent : Option String
  ownerExpression : Option String
  signature : String
  sourceRef : String
  path : String
  range : SourceRange
  deriving DecidableEq, Repr

structure CatalogSource where
  root : String
  path : String
  hash : String
  packageId : String
  deriving DecidableEq, Repr

inductive IndexState where
  | skipped
  | complete
  | incomplete
  deriving DecidableEq, Repr

structure Package where
  id : String
  indexState : IndexState
  warnings : List String
  deriving DecidableEq, Repr

structure Catalog where
  symbols : List CatalogSymbol
  sources : List (String × CatalogSource)
  deriving DecidableEq, Repr

structure Declarations where
  symbols : List CatalogSymbol := []
  warnings : List String := []
  deriving DecidableEq, Repr

/-! ### Budgets

The counts are of the catalogue or of one package; the loops look at both.
-/

def maxFiles : Nat := 2000

def maxBytes : Nat := 64 * 1024 * 1024

def maxSymbols : Nat := 50000

def maxPackageSymbols : Nat := 2500

def maxPackageFiles : Nat := 500

def maxPackageBytes : Nat := 16 * 1024 * 1024

def maxVisited : Nat := 50000

/-! ### The walk's surroundings and its state -/

/-- What a walk is given. -/
structure Params where
  root : SourceDir
  base : String
  /-- The extractor, for a package of this name: of a path, a text and a source reference. -/
  extract : String → String → String → Option Declarations
  digest : String → String
  hash : List String → String
  /-- `size_of::<CatalogSymbol>()`. -/
  recordSize : Nat
  /-- Whether the walk is cancelled when it looks for the so-manieth time. -/
  cancel : Nat → Bool

/-- What a walk has found and counted, of the package and of the whole catalogue. -/
structure State where
  catalog : Catalog
  package : Package
  totalFiles : Nat
  totalBytes : Nat
  symbolBytes : Nat
  dirs : List String
  files : Nat := 0
  bytes : Nat := 0
  visited : Nat := 0
  packageSymbols : Nat := 0
  polls : Nat := 0
  /-- The files that were asked for; nothing depends on it. -/
  reads : List String := []
  deriving DecidableEq, Repr

/-- Where the walk stands. -/
inductive Place where
  | next
  | page (dir : String) (offset : Nat)
  | entries (dir : String) (rest : List Entry) (next : Option Nat)
  | returned
  | cancelled
  deriving DecidableEq, Repr

/-- `partial`. -/
def Package.mark (package : Package) (warning : String) : Package :=
  { package with
    indexState := .incomplete
    warnings := if package.warnings.length < 32 ∧ warning ∉ package.warnings then
      package.warnings ++ [warning] else package.warnings }

def State.mark (s : State) (warning : String) : State :=
  { s with package := s.package.mark warning }

def join (base path : String) : String := if base = "" then path else base ++ "/" ++ path

/-- What a symbol takes of the text budget. -/
def symbolTextBytes (p : Params) (symbol : CatalogSymbol) : Nat :=
  symbol.id.utf8ByteSize + symbol.packageId.utf8ByteSize + symbol.name.utf8ByteSize +
    symbol.qualifiedName.utf8ByteSize + symbol.kind.utf8ByteSize + symbol.signature.utf8ByteSize +
    symbol.sourceRef.utf8ByteSize + symbol.path.utf8ByteSize +
    symbol.parent.elim 0 String.utf8ByteSize + symbol.ownerExpression.elim 0 String.utf8ByteSize +
    p.recordSize

/-! ### A file -/

def saysPartial (warning : String) : Bool :=
  decide ("partial".toList <:+: warning.toList.map Char.toLower)

/-- The warnings of the extractor are kept, and one that says partial marks the package. -/
def report (declarations : Declarations) (s : State) : State :=
  let s := if declarations.warnings.any saysPartial = true then
    s.mark "Partial: declaration extractor reported incomplete source." else s
  { s with package := { s.package with
    warnings := declarations.warnings.foldl (fun warnings warning =>
      if warnings.length < 32 ∧ warning ∉ warnings then warnings ++ [warning] else warnings)
      s.package.warnings } }

/-- The kinds that are kept rather than functions and methods. -/
def isType (kind : String) : Bool :=
  kind ∈ ["struct", "enum", "union", "trait", "type", "module"]

/-- How many symbols there is room for. -/
def available (s : State) : Nat :=
  min (maxSymbols - s.catalog.symbols.length) (maxPackageSymbols - s.packageSymbols)

/-- The symbols of a file that are added, if the text budget has room for them. -/
def selected (symbols : List CatalogSymbol) (s : State) : List CatalogSymbol :=
  if available s < symbols.length then
    Ranking.best (fun symbol : CatalogSymbol => !isType symbol.kind) (available s) symbols
  else symbols

/-- The package is marked where symbols are cut. -/
def markCut (symbols : List CatalogSymbol) (s : State) : State :=
  if available s < symbols.length then
    s.mark (if maxPackageSymbols - s.packageSymbols ≤ maxSymbols - s.catalog.symbols.length then
      "Partial: package declaration limit reached (2500)."
      else "Partial: catalog symbol budget reached.")
  else s

/-- Symbols are added as long as there is room for their text. -/
def addSymbols (p : Params) : List CatalogSymbol → State → State
  | [], s => s
  | symbol :: rest, s =>
      if maxBytes < s.symbolBytes + symbolTextBytes p symbol then
        { s with symbolBytes := maxBytes }.mark
          "Partial: catalog declaration text budget reached (64MiB)."
      else
        addSymbols p rest { s with
          symbolBytes := s.symbolBytes + symbolTextBytes p symbol
          packageSymbols := s.packageSymbols + 1
          catalog := { s.catalog with symbols := s.catalog.symbols ++ [symbol] } }

def sourceRef (p : Params) (s : State) (path text : String) : String :=
  "dependency-source:" ++ p.hash [s.package.id, p.root.root, path, p.digest text]

def addSource (p : Params) (path text : String) (s : State) : State :=
  { s with catalog := { s.catalog with
    sources := Register.put Prod.fst
      (sourceRef p s path text, ⟨p.root.root, path, p.digest text, s.package.id⟩)
      s.catalog.sources } }

/-- What was extracted from a file; the walk is left, as it is, if a budget is used up. -/
def indexDeclarations (p : Params) (path text : String) (declarations : Declarations) (s : State) :
    Except State State :=
  let s := report declarations s
  let t := addSource p path text
    (addSymbols p (selected declarations.symbols s) (markCut declarations.symbols s))
  if maxPackageSymbols ≤ t.packageSymbols then
    throw (t.mark "Partial: package declaration limit reached (2500).")
  else if maxBytes ≤ t.symbolBytes then throw t
  else pure t

/-- The bytes of a file are counted before it is looked into. -/
def indexText (p : Params) (path text : String) (s : State) : Except State State :=
  if maxPackageBytes < s.bytes + text.utf8ByteSize ∨
      maxBytes < s.totalBytes + text.utf8ByteSize then
    throw (s.mark "Partial: source byte budget reached.")
  else
    let s := { s with
      bytes := s.bytes + text.utf8ByteSize
      totalBytes := s.totalBytes + text.utf8ByteSize }
    match p.extract path text (sourceRef p s path text) with
    | none => pure (s.mark "Partial: Rust declaration extraction failed.")
    | some declarations => indexDeclarations p path text declarations s

/-- A file is counted before it is read. -/
def indexFile (p : Params) (path : String) (s : State) : Except State State :=
  if maxFiles ≤ s.totalFiles ∨ maxPackageFiles ≤ s.files ∨
      maxSymbols ≤ s.catalog.symbols.length then
    throw (s.mark "Partial: source file/symbol budget reached.")
  else
    let s := { s with
      files := s.files + 1
      totalFiles := s.totalFiles + 1
      reads := s.reads ++ [path] }
    match p.root.readFile path with
    | none =>
        pure (s.mark "Partial: source file unreadable, non-UTF8, symlink, or over 2MiB.")
    | some text => indexText p path text s

/-! ### An entry, a page, a step -/

/-- Names that are not entered. -/
def passedOver (name : String) : Bool :=
  name.toList.head? = some '.' || name ∈ ["target", "tests", "examples", "benches"]

def isRust (name : String) : Bool := ".rs".toList.isSuffixOf name.toList

def indexEntry (p : Params) (e : Entry) (s : State) : Except State State :=
  let s := { s with visited := s.visited + 1 }
  if passedOver e.name = true then pure s
  else if e.kind = .directory then
    if s.dirs.length < 2000 then pure { s with dirs := s.dirs ++ [e.path] }
    else pure (s.mark "Partial: directory queue budget reached.")
  else if e.kind ≠ .file then
    pure (s.mark "Partial: non-regular source entry not followed.")
  else if isRust e.name = false then pure s
  else indexFile p e.path s

/-- A budget is used up before a page is read. -/
def spent (s : State) : Prop :=
  maxFiles ≤ s.totalFiles ∨ maxBytes ≤ s.totalBytes ∨ maxPackageFiles ≤ s.files ∨
    maxPackageBytes ≤ s.bytes ∨ maxSymbols ≤ s.catalog.symbols.length ∨
    maxBytes ≤ s.symbolBytes ∨ maxVisited ≤ s.visited

instance (s : State) : Decidable (spent s) := by
  unfold spent
  infer_instance

/-- A page of a directory; the budgets are looked at before it is read. -/
def readPage (p : Params) (dir : String) (offset : Nat) (s : State) : Place × State :=
  if maxPackageSymbols ≤ s.packageSymbols then
    (.returned, s.mark "Partial: package declaration limit reached (2500).")
  else if spent s then
    (.returned, s.mark "Partial: source file/byte/symbol/traversal budget reached.")
  else
    match p.root.list dir offset 200 with
    | none =>
        (.next, s.mark "Partial: source directory missing or blocked by secure reader.")
    | some (entries, next, truncated) =>
        (.entries dir entries next,
          if truncated = true then s.mark "Partial: source directory listing truncated." else s)

/-- `check`, and then what is to be done. -/
def checked (p : Params) (s : State) (act : State → Place × State) : Place × State :=
  if p.cancel s.polls = true then (.cancelled, s)
  else act { s with polls := s.polls + 1 }

/-- One turn of the loops. -/
def step (p : Params) : Place × State → Place × State
  | (.next, s) =>
      match s.dirs with
      | [] => (.returned, s)
      | dir :: dirs => (.page dir 0, { s with dirs := dirs })
  | (.page dir offset, s) => checked p s (readPage p dir offset)
  | (.entries dir (e :: rest) next, s) =>
      checked p s fun s =>
        match indexEntry p e s with
        | .ok s => (.entries dir rest next, s)
        | .error s => (.returned, s)
  | (.entries dir [] (some next), s) => (.page dir next, s)
  | (.entries _ [] none, s) => (.next, s)
  | (.returned, s) => (.returned, s)
  | (.cancelled, s) => (.cancelled, s)

def run (p : Params) : Nat → Place × State → Place × State
  | 0, c => c
  | n + 1, c => run p n (step p c)

/-- What was counted of packages before this one. -/
structure Totals where
  files : Nat
  bytes : Nat
  symbolBytes : Nat
  deriving DecidableEq, Repr

def start (p : Params) (catalog : Catalog) (package : Package) (totals : Totals) : State where
  catalog := catalog
  package := package
  totalFiles := totals.files
  totalBytes := totals.bytes
  symbolBytes := totals.symbolBytes
  dirs := [join p.base "src"]

/-- More steps than there are before the walk is at its end. -/
def turns : Nat := 301300

def finished : Place × State → Option State
  | (.returned, s) => some s
  | _ => none

/-- `index_package`, with nothing if it was cancelled. -/
def indexPackage (p : Params) (catalog : Catalog) (package : Package) (totals : Totals) :
    Option State :=
  finished (run p turns (.next, start p catalog package totals))

end Baleyg.Dependency
