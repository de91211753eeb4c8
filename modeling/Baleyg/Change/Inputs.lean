/-
The inputs of a capture.

Besides the source files a capture holds everything else that may change what is measured:
the files at the root that configure a build, the ignore files of every directory, two optional
files that are only presented, and the executable that measures.  Each is observed when the
capture is admitted, and verified at its end.

What is kept of them afterwards is written down twice.  `persistedInputs` is stored with the
revision: every observation under the roles its path plays.  `nativeInputFingerprints` is
compared between two captures: the digests of those that native evidence depends on.
-/
import Baleyg.Lib.Entries
import Baleyg.Native.Capture

namespace Baleyg.Change

open Fallible (ensure)
open Native (Bytes SourceFile rootInputs selectors startsWith)

/-- A component of a path, which need not be a text. -/
inductive Name where
  | text (s : String)
  | raw (bytes : Bytes)
  deriving DecidableEq

abbrev Path := List Name

/-- What is taken from elsewhere: SHA-256 in hexadecimal, `to_string_lossy`, and whether an edit
is proved to stay inside one body, which asks the parsers. -/
structure Host where
  hash : Bytes → String
  lossy : Path → String
  provedBodyOnly : SourceFile → SourceFile → Bool

namespace Path

def textOf : Name → Option String
  | .text s => some s
  | .raw _ => none

/-- A path with its components put together, where all of them are texts. -/
def joined (path : Path) : Option String := (path.mapM textOf).map ("/".intercalate ·)

def toStr (path : Path) : Option String := (joined path).map ("/" ++ ·)

/-- `strip_prefix`. -/
def below (root path : Path) : Option Path :=
  if root <+: path then some (path.drop root.length) else none

end Path

/-- `replace('\\', "/")`. -/
def slashed (text : String) : String :=
  String.ofList (text.toList.map fun c => if c = '\x5c' then '/' else c)

/-! ### Observations -/

structure Stamp where
  kind : Nat
  len : Nat
  dev : Nat
  ino : Nat
  mtime : Int × Int
  ctime : Int × Int
  deriving DecidableEq

structure CaptureStat where
  version : Nat
  kind : String
  size : Nat
  device : Option Nat
  inode : Option Nat
  mtimeSeconds : Option Int
  mtimeNanoseconds : Option Int
  ctimeSeconds : Option Int
  ctimeNanoseconds : Option Int
  deriving DecidableEq

namespace Stamp

def persisted (s : Stamp) : CaptureStat where
  version := 1
  kind := if s.kind = 1 then "directory" else if s.kind = 2 then "file" else "other"
  size := s.len
  device := some s.dev
  inode := some s.ino
  mtimeSeconds := some s.mtime.1
  mtimeNanoseconds := some s.mtime.2
  ctimeSeconds := some s.ctime.1
  ctimeNanoseconds := some s.ctime.2

def identity (s : Stamp) : Nat × Nat := (s.dev, s.ino)

end Stamp

/-- `CaptureInputObservation`. -/
inductive Observation where
  | absent
  | present (stat : CaptureStat) (hash : String)
  | directory (stat : CaptureStat)
  | root (stat : CaptureStat)
  deriving DecidableEq

/-- An `Arc<[u8]>`. -/
structure Allocation where
  address : Nat
  bytes : Bytes
  deriving DecidableEq

/-- The executable that runs, as it was when the process started. -/
structure RunningExecutable where
  path : Path
  initial : Stamp
  digest : String
  /-- `unsafe or oversized running executable`. -/
  regular : initial.kind = 2

/-- `IndexOptions`, without the root. -/
structure IndexOptions where
  scipPath : Option Path
  manifestPath : Option Path
  maxFileBytes : Nat

structure ReconcileOptions where
  version : Nat
  maxFileBytes : Nat
  scipPath : Option String
  manifestPath : Option String
  deriving DecidableEq

/-- `ReconcileOptions::from`. -/
def IndexOptions.reconcile (host : Host) (options : IndexOptions) : ReconcileOptions where
  version := 1
  maxFileBytes := min options.maxFileBytes (256 * 1024 * 1024)
  scipPath := options.scipPath.map host.lossy
  manifestPath := options.manifestPath.map host.lossy

/-- `Capture`, as far as a change is measured by it. -/
structure Capture where
  rootStamp : Stamp
  root : Path
  inventory : List (Path × Stamp)
  inputs : List (Path × Option Stamp)
  files : List SourceFile
  executablePath : Path
  executableBytes : Option Allocation
  executableDigest : String
  runningExecutable : Option RunningExecutable
  inputBytes : List (Path × Option Allocation)
  reconcileOptions : ReconcileOptions

/-- `ROOT_INPUTS`. -/
def allRootInputs : List String := rootInputs ++ selectors

/-! ### Roles -/

def rootRole (name : String) : String :=
  (if name ∈ selectors then "toolchain" else "config") ++ ":" ++ name

/-- Native evidence depends on the input. -/
def nativeKey (key : String) : Bool :=
  startsWith key "config:" || startsWith key "toolchain:" || startsWith key "ignore:" ||
    startsWith key "executable:"

namespace Capture

variable (host : Host) (c : Capture)

def siteRoles (message : String) (path : Path) : Except String (List String) :=
  match Path.below c.root path with
  | none => pure []
  | some rest =>
    match Path.joined rest with
    | none => throw message
    | some text =>
      let relative := slashed text
      if path.getLast? = some (.text ".gitignore") ∨ path.getLast? = some (.text ".ignore") then
        pure ["ignore:" ++ relative]
      else if relative ∈ selectors then pure ["toolchain:" ++ relative]
      else if relative ∈ rootInputs then pure ["config:" ++ relative]
      else pure []

def executableRoles (path : Path) : List String :=
  if path = c.executablePath then ["executable:" ++ host.lossy path] else []

def presentationRoles (path : Path) : List String :=
  (if c.reconcileOptions.scipPath = Path.toStr path then ["presentation-scip:" ++ host.lossy path]
    else []) ++
  if c.reconcileOptions.manifestPath = Path.toStr path then
    ["presentation-manifest:" ++ host.lossy path]
  else []

/-- `executable_digest`. -/
def digestOf (path : Path) : Option String :=
  if path ≠ c.executablePath then none
  else
    let admitted :=
      match c.runningExecutable with
      | some image =>
          c.inputs.lookup path == some (some image.initial) &&
            c.inputBytes.lookup path == some none && c.executableBytes == none &&
            c.executableDigest == image.digest
      | none =>
          match (c.inputBytes.lookup path).join, c.executableBytes with
          | some entry, some original => entry.address == original.address
          | _, _ => false
    if admitted then some c.executableDigest else none

/-! ### Fingerprints -/

def nativeDigest (path : Path) (expected : Option Stamp) : Except String (Option String) :=
  match c.inputBytes.lookup path with
  | none => throw "missing admitted native input"
  | some bytes =>
    match expected, bytes with
    | none, none => pure none
    | some stat, none =>
        if path = c.executablePath ∧ c.runningExecutable.isSome = true then do
          ensure (stat.kind = 2) "malformed admitted native executable"
          match c.digestOf path with
          | some digest => pure (some digest)
          | none => throw "native executable startup identity mismatch"
        else throw "native input bytes/stamp mismatch"
    | some stat, some entry => do
        ensure (stat.kind = 2 ∧ stat.len = entry.bytes.length) "malformed admitted native input"
        if path = c.executablePath then
          match c.digestOf path with
          | some digest => pure (some digest)
          | none => throw "native executable Arc identity mismatch"
        else pure (some (host.hash entry.bytes))
    | none, some _ => throw "native input bytes/stamp mismatch"

def fingerprintsOf (input : Path × Option Stamp) :
    Except String (List (String × Option String)) := do
  let site ← c.siteRoles "non-UTF8 native input path" input.1
  let roles := c.executableRoles host input.1 ++ site
  if roles = [] then pure []
  else do
    let digest ← c.nativeDigest host input.1 input.2
    pure (roles.map fun role => (role, digest))

def nativeInputFingerprints : Except String (List (String × Option String)) := do
  let result ← Entries.collect "duplicate admitted native input role" (c.fingerprintsOf host) []
    c.inputs
  ensure (∃ entry ∈ result, startsWith entry.1 "executable:" = true)
    "missing admitted native executable role"
  ensure (∀ name ∈ allRootInputs, (result.lookup (rootRole name)).isSome = true)
    "missing admitted native config/toolchain role"
  pure result

/-! ### What is stored -/

def observationOf (path : Path) : Option Stamp → Except String Observation
  | none => pure .absent
  | some stat =>
      if path = c.executablePath ∧ c.runningExecutable.isSome = true then
        match c.digestOf path with
        | some digest => pure (.present stat.persisted digest)
        | none => throw "running executable startup identity missing"
      else
        match (c.inputBytes.lookup path).join with
        | some entry => pure (.present stat.persisted (host.hash entry.bytes))
        | none => throw "present input bytes missing"

def observationsOf (input : Path × Option Stamp) :
    Except String (List (String × Observation)) := do
  let site ← c.siteRoles "non-UTF8 input path" input.1
  let roles := c.executableRoles host input.1 ++ c.presentationRoles host input.1 ++ site
  let observation ← c.observationOf host input.1 input.2
  ensure (roles ≠ []) "capture input lacks a role"
  pure (roles.map fun role => (role, observation))

/-- A later entry of a key takes the place of an earlier one. -/
def assign (key : String) (value : Observation) (m : List (String × Observation)) :
    List (String × Observation) :=
  m.filter (fun entry => entry.1 != key) ++ [(key, value)]

def directories : List (Path × Stamp) → List (String × Observation) →
    Except String (List (String × Observation))
  | [], m => pure m
  | (path, item) :: rest, m =>
      if item.kind = 1 then
        match Path.below c.root path with
        | none => throw "prefix not found"
        | some below =>
          match Path.joined below with
          | none => throw "non-UTF8 input path"
          | some text =>
              directories rest
                (assign ("directory:" ++ slashed text) (.directory item.persisted) m)
      else directories rest m

def persistedInputs : Except String (List (String × Observation)) := do
  let m ← c.directories c.inventory [("root:.", .root c.rootStamp.persisted)]
  Entries.collect "duplicate capture input role" (c.observationsOf host) m c.inputs

end Capture

end Baleyg.Change
