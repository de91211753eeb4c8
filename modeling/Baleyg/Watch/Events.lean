/-
File system events as the watcher sees them.

An event is a kind and some paths, and two decisions are taken on it before anything
is captured.  The ingress drops it when it cannot have changed an input: a read, or
paths that are all below a directory capture never enters.  The drain keeps it and
decides whether its paths say enough, or whether only a full inventory will do.

Both look at the disk.  `Files` is what they see of it at that moment; nothing here
assumes that two looks agree.
-/
import Mathlib.Data.Finset.Card

namespace Baleyg.Watch

inductive Component where
  | root
  | current
  | parent
  | normal (name : String)
  deriving DecidableEq, Repr

/-- The part names something below the part before it. -/
def Component.isNormal : Component → Bool
  | .normal _ => true
  | _ => false

abbrev Path := List Component

namespace Path

def isAbsolute (path : Path) : Bool := path.head? == some .root

/-- `root.join(path)`; a `.` inside a path is not a part of it. -/
def join (root path : Path) : Path :=
  if path.isAbsolute then path else root ++ path.filter fun part => part != .current

/-- The rest of a path below `root`. -/
def below (root path : Path) : Option Path :=
  if root.isPrefixOf path then some (path.drop root.length) else none

def fileName (path : Path) : Option String :=
  match path.getLast? with
  | some (.normal name) => some name
  | _ => none

/-- What follows the last dot of the file name; a dot that opens it does not count. -/
def extension (path : Path) : Option String :=
  path.fileName.bind fun name =>
    match (name.splitOn ".").reverse with
    | [] => none
    | [_] => none
    | [_, ""] => none
    | last :: _ => some last

end Path

inductive AccessMode where
  | any
  | execute
  | read
  | write
  | other
  deriving DecidableEq, Repr

inductive AccessKind where
  | any
  | read
  | opened (mode : AccessMode)
  | closed (mode : AccessMode)
  | other
  deriving DecidableEq, Repr

inductive MetadataKind where
  | any
  | accessTime
  | writeTime
  | permissions
  | ownership
  | extended
  | other
  deriving DecidableEq, Repr

inductive ModifyKind where
  | any
  | data
  | metadata (kind : MetadataKind)
  | name
  | other
  deriving DecidableEq, Repr

inductive EventKind where
  | any
  | access (kind : AccessKind)
  | create
  | modify (kind : ModifyKind)
  | remove
  | other
  deriving DecidableEq, Repr

structure Event where
  kind : EventKind
  paths : List Path
  deriving DecidableEq, Repr

inductive FileType where
  | file
  | directory
  | symlink
  | other
  deriving DecidableEq, Repr

/-- What `canonicalize` and `symlink_metadata` answer. -/
structure Files where
  canonicalize : Path → Option Path
  symlinkMetadata : Path → Option FileType

/-! ### What the ingress drops -/

def readOnly : EventKind → Bool
  | .modify (.metadata .accessTime) => true
  | .access .read => true
  | .access (.opened .read) => true
  | .access (.opened .any) => true
  | .access (.opened .execute) => true
  | .access (.closed .read) => true
  | .access (.closed .execute) => true
  | _ => false

/-- Some three parts in a row are a Java source directory, which capture does enter. -/
def javaOutput : List String → Bool
  | first :: second :: third :: rest =>
      (first == "src" && (["main", "test", "testFixtures"].contains second) && third == "java")
        || javaOutput (second :: third :: rest)
  | _ => false

/-- A directory capture never enters, given the parts of the path up to it. -/
def excludes (parts : List String) (part : String) : Bool :=
  if [".git", "node_modules", ".venv", ".trellis"].contains part then true
  else if ["target", "dist", "build"].contains part then !javaOutput parts
  else false

/-- The walk of `certainly_excluded` down one path, from `current`; `none` is the
uncertainty that keeps the event. -/
def walkExcluded (files : Files) (current : Path) (parts : List String) (excluded : Bool) :
    Path → Option Bool
  | [] => some excluded
  | .normal part :: rest =>
      match files.symlinkMetadata (current ++ [.normal part]) with
      | none => none
      | some .symlink => none
      | some _ =>
          walkExcluded files (current ++ [.normal part]) (parts ++ [part])
            (excluded || excludes (parts ++ [part]) part) rest
  | _ :: _ => none

/-- One path of an event lies where capture never looks. -/
def excludedPath (files : Files) (root : Path) (selected : List Path)
    (executable canonicalExecutable path : Path) : Bool :=
  let absolute := root.join path
  if selected.contains absolute || executable == absolute then false
  else
    match files.canonicalize absolute with
    | none => false
    | some canonical =>
        if (selected.any fun path => files.canonicalize path == some canonical)
            || canonicalExecutable == canonical then false
        else
          match root.below absolute with
          | none => false
          | some relative => walkExcluded files root [] false relative == some true

def certainlyExcluded (files : Files) (event : Event) (root : Path) (selected : List Path)
    (executable : Option Path) : Bool :=
  if event.paths.isEmpty || event.kind == .any || event.kind == .other then false
  else
    match executable with
    | none => false
    | some executable =>
        match files.canonicalize executable with
        | none => false
        | some canonicalExecutable =>
            event.paths.all (excludedPath files root selected executable canonicalExecutable)

/-! ### What the drain reads off a path -/

/-- A regular file with only directories above it. -/
def safeRegular (files : Files) (root : Path) : Path → Bool
  | [] => false
  | [part] => files.symlinkMetadata (root ++ [part]) == some .file
  | part :: rest =>
      files.symlinkMetadata (root ++ [part]) == some .directory
        && safeRegular files (root ++ [part]) rest

def source (path : Path) : Bool :=
  match path.extension with
  | some extension => ["js", "mjs", "cjs", "rs", "java", "py"].contains extension
  | none => false

def rootInputs : List String :=
  ["package.json", "tsconfig.json", "jsconfig.json", "package-lock.json", "yarn.lock",
   "pnpm-lock.yaml", "bun.lock", "bun.lockb", "Cargo.toml", "Cargo.lock", "pom.xml",
   "build.gradle", "build.gradle.kts", "settings.gradle", "settings.gradle.kts",
   "gradle.properties", "pyproject.toml", "requirements.txt", "uv.lock", "poetry.lock",
   "Pipfile", "Pipfile.lock", "rust-toolchain", "rust-toolchain.toml"]

/-- A file whose change moves what other files mean. -/
def relevantInput (path : Path) : Bool :=
  (path.fileName == some ".gitignore" || path.fileName == some ".ignore")
    || (path.length == 1 && rootInputs.any fun name => path == [.normal name])

end Baleyg.Watch
