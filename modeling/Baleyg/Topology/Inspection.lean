/-
What an index directory is taken for.

A derived index can be thrown away when the checkout it was made from is gone, was
replaced by another, or has not been opened for thirty days.  `inspectIndex` reads that
off the directory and the recorded root; it also recognises the layouts of released
writers, but only so that a report can name them.  `admitCandidate` is what stands before an
unlink: the layout has to be the current one, down to the last object of the schema, and
the inspection is made again.

The digests of the layouts are SHA-256 of their serialised objects, and a directory is
named by the SHA-256 of its root's spelling; both hashes are parameters of the build.
-/
import Baleyg.Queue.Row
import Baleyg.Topology.Records
import Mathlib.Data.List.Infix

namespace Baleyg.Topology

open Fallible (ensure bind_eq_ok ensure_eq_ok)

/-! ### The recorded root -/

/-- What `symlink_metadata` says of a path. -/
inductive Stat where
  | missing
  | directory (device inode : Nat)
  | symlink
  | other
  | failed
  deriving DecidableEq, Repr

/-- The file system outside the cache, by the components of a path. -/
abbrev Roots := List (List Char) → Stat

def components (spelling : String) : List (List Char) :=
  (spelling.toList.splitOn '/').filter fun part => part ≠ [] ∧ part ≠ ['.']

inductive GcStatus where
  | eligible
  | unknown
  deriving DecidableEq, Repr

inductive GcReason where
  | age30Days
  | recentOpen
  | ageUnknown
  | rootMissing
  | rootReplaced
  | rootIdentityUnknown
  | invalidSupersessionInventory
  | unknownIndexShape
  | unknownIndexSchema
  deriving DecidableEq, Repr

def gcAgeSeconds : Int := 30 * 24 * 60 * 60

def maxTrustedSeconds : Int := 9007199254740991

def classifyIndexAge (now : Int) : Option Int → GcStatus × GcReason
  | some opened =>
      if 0 < opened ∧ opened ≤ maxTrustedSeconds ∧ opened ≤ now then
        if gcAgeSeconds ≤ now - opened then (.eligible, .age30Days) else (.unknown, .recentOpen)
      else (.unknown, .ageUnknown)
  | none => (.unknown, .ageUnknown)

/-- The ancestors of a root from `/` down, until one of them settles the matter. -/
def inspectAncestors (roots : Roots) (root : List (List Char)) :
    List (List (List Char)) → Option (GcStatus × GcReason)
  | [] => none
  | ancestor :: rest =>
      match roots ancestor with
      | .directory _ _ => inspectAncestors roots root rest
      | .symlink => some (.unknown, .rootIdentityUnknown)
      | .other => if ancestor = root then none else some (.unknown, .rootIdentityUnknown)
      | .missing => some (.eligible, .rootMissing)
      | .failed => some (.unknown, .rootIdentityUnknown)

/-- The end of `inspect_index`, on the recorded root. -/
def inspectRoot (roots : Roots) (spelling : String) (device inode : Nat) (now : Int)
    (opened : Option Int) : GcStatus × GcReason :=
  let root := components spelling
  match inspectAncestors roots root root.inits with
  | some verdict => verdict
  | none =>
      match roots root with
      | .missing => (.eligible, .rootMissing)
      | .directory dev ino =>
          if (dev, ino) = (device, inode) then classifyIndexAge now opened
          else (.eligible, .rootReplaced)
      | .other => (.eligible, .rootReplaced)
      | .symlink => (.unknown, .rootIdentityUnknown)
      | .failed => (.unknown, .rootIdentityUnknown)

/-! ### The files of a directory -/

/-- A row of `sqlite_master`. -/
structure SchemaObject where
  type : String
  name : String
  table : String
  sql : Option String
  deriving DecidableEq, Repr

/-- The row of `index_metadata`: its device and inode as the texts parse, its last open
where that is an integer, and whether its two JSON columns are JSON. -/
structure IndexMetadata where
  schemaVersion : Int
  extractorVersion : String
  rootSpelling : String
  rootDevice : Option Nat
  rootInode : Option Nat
  indexGeneration : String
  indexRevision : Int
  lastOpenedAt : Option Int
  statsAreJson : Bool
  diagnosticsAreJson : Bool
  deriving DecidableEq, Repr

/-- `index.db`: what the checks read of it.  A revision is its id and whether it carries
the released marker; a supersession its revision and its time where that is an integer. -/
structure IndexDatabase where
  journalMode : String
  userVersion : Int
  objects : List SchemaObject
  quickCheck : String
  metadata : List IndexMetadata
  revisions : List (String × Bool)
  supersessions : List (String × Option Int)
  deriving DecidableEq, Repr

/-- `requests.db`. -/
structure QueueDatabase where
  journalMode : String
  userVersion : Int
  objects : List SchemaObject
  quickCheck : String
  identity : List (String × String)
  rows : List RowState
  deriving DecidableEq, Repr

structure Managed (α : Type) where
  secure : Bool
  content : α
  deriving DecidableEq, Repr

/-- A directory of an index.  The content of its leader lock is whether it reads as an
incarnation; every entry the code has no name for is among the others. -/
structure IndexDir where
  secure : Bool
  index : Option (Managed IndexDatabase)
  requests : Option (Managed QueueDatabase)
  leader : Option (Managed Bool)
  others : List String
  deriving DecidableEq, Repr

structure Build where
  /-- The layouts `validate_cache_shape` takes. -/
  layouts : List (List SchemaObject)
  /-- The objects of `requests::SCHEMA`. -/
  queueLayout : List SchemaObject
  shapeDigest : List SchemaObject → String
  rootKey : String → String

def extractorVersion : String := "native-v4-delta-v1"

namespace IndexDatabase

variable (b : Build) (db : IndexDatabase)

def hasTable (name : String) : Prop := ∃ o ∈ db.objects, o.type = "table" ∧ o.name = name

instance (name : String) : Decidable (db.hasTable name) :=
  inferInstanceAs (Decidable (∃ o ∈ db.objects, _))

/-- `has_revision_release_debt`. -/
def hasReleaseDebt : Prop := db.hasTable "native_revision_release_debt"

instance : Decidable db.hasReleaseDebt := inferInstanceAs (Decidable (db.hasTable _))

/-- `'pin:v1:'||m.index_generation||':'||m.index_revision`. -/
def headId (m : IndexMetadata) : String :=
  "pin:v1:" ++ m.indexGeneration ++ ":" ++ toString m.indexRevision

/-- The bad rows `validate_supersessions` looks for are absent. -/
def supersessionsOk : Prop :=
  db.hasTable "native_revision_supersessions" →
    ∀ m ∈ db.metadata,
      (∀ s ∈ db.supersessions, s.1 ∈ db.revisions.map Prod.fst ∧ s.1 ≠ headId m ∧
        ∃ time ∈ s.2, 0 ≤ time ∧ time ≤ maxTrustedSeconds) ∧
      ∀ r ∈ db.revisions, r.1 ≠ headId m → r.2 = true ∨ r.1 ∈ db.supersessions.map Prod.fst

instance : Decidable db.supersessionsOk :=
  inferInstanceAs (Decidable (db.hasTable _ → ∀ m ∈ db.metadata, _))

def validateCacheShape : Except String Unit := do
  ensure (db.userVersion ≤ 8) "incompatible_index: unsupported newer schema cannot be rebaselined"
  ensure (db.userVersion = 8) "incompatible_index: unknown schema version"
  ensure (db.objects ∈ b.layouts)
    "incompatible_index: unknown cache object type, name or shape"

def validateSupersessions : Except String Unit :=
  ensure db.supersessionsOk "incompatible_index: invalid revision supersession inventory"

def historicalIndexExtractor (version : Int) : Option String :=
  let shape := b.shapeDigest db.objects
  if version = 4 ∧
      shape = "7293ab78eac10e67b74de81524fa4c79220c01ae4adae4fa4ca04de9b0e3f9e6" then
    some "native-v1"
  else if version = 5 ∧
      shape = "7293ab78eac10e67b74de81524fa4c79220c01ae4adae4fa4ca04de9b0e3f9e6" then
    some "native-no-lexical-v1"
  else if version = 6 ∧
      (shape = "122fb52f9e80b1124248273b28454a8911ae1c6ac6c94ca06059d43a7affaa0e" ∨
        shape = "7038f9d5ba95f13affd80db66b76254cd6e4cee5cb63430b68ff822bc717f118") then
    some "native-paired-v1"
  else if version = 7 ∧
      shape = "20cd03736e753938bbaaa4ba159f36f062075202c697fc2cbc08203aff582172" then
    some "native-paired-v1"
  else if version = 8 ∧
      shape = "93170e588fb8cd6a569b31806df68f652f8888713eba74366cef1e90b86d5555" then
    some "native-v4"
  else if version = 8 ∧
      (shape = "ac245130f19fef856d735638b8825ca6860d89562477cd63bf8da3b0ccca692c" ∨
        shape = "1271e294805e1310bfaf32c07700f870767cdcfa1a5ad629a148fced08cb5a78") then
    some "native-v4-class-compose-v1"
  else if version = 8 ∧
      (shape = "beeed26afe15dc0c4f4f23b11eab1ccfbe65d4343e3e9069b14d0c0a4a78c81d" ∨
        shape = "a701218d85454aa6569dc53422a55826a1c3c10d08521e8fa7a5f8a329d369ac") then
    some "native-v4-delta-v1"
  else none

end IndexDatabase

namespace IndexDir

/-- `readonly_index_db`, of either database of the directory. -/
def openAs {α : Type} (dir : IndexDir) (name : String) (journalMode : α → String) :
    Option (Managed α) → Except String α
  | none => throw "No such file or directory (os error 2)"
  | some file => do
      ensure (file.secure = true) "unsafe managed file"
      ensure (∀ suffix ∈ ["-wal", "-shm", "-journal"], name ++ suffix ∉ dir.others)
        "recovery sidecar present"
      ensure (journalMode file.content = "delete") "incompatible database journal mode"
      pure file.content

def openIndex (dir : IndexDir) : Except String IndexDatabase :=
  dir.openAs "index.db" IndexDatabase.journalMode dir.index

def openQueue (dir : IndexDir) : Except String QueueDatabase :=
  dir.openAs "requests.db" QueueDatabase.journalMode dir.requests

def names (dir : IndexDir) : List String :=
  ((if dir.index.isSome then ["index.db"] else []) ++
    (if dir.leader.isSome then ["leader.lock"] else []) ++
    (if dir.requests.isSome then ["requests.db"] else []) ++ dir.others).mergeSort
      fun a b => a ≤ b

end IndexDir

/-! ### The inspection -/

section Inspect

variable (b : Build) (now : Int) (roots : Roots) (key : String)

/-- `inspect_index`, of an open database: the layout, the identity, then the root. -/
def inspectDatabase (db : IndexDatabase) (marker : String) :
    Except String (GcStatus × GcReason) := do
  ensure (db.metadata.length = 1) "incompatible index metadata cardinality"
  match db.metadata with
  | [] => throw "Query returned no rows"
  | m :: _ => do
      ensure (m.schemaVersion = db.userVersion ∧ m.extractorVersion = marker ∧
          m.rootSpelling.toList.head? = some '/' ∧ b.rootKey m.rootSpelling = key)
        "incompatible index identity"
      ensure (db.quickCheck = "ok") "incompatible index integrity"
      match m.rootDevice, m.rootInode with
      | some device, some inode => do
          ensure (0 < device ∧ 0 < inode) "invalid root identity"
          pure (inspectRoot roots m.rootSpelling device inode now m.lastOpenedAt)
      | _, _ => throw "invalid digit found in string"

def inspectIndex (dir : IndexDir) : Except String (GcStatus × GcReason) := do
  ensure (dir.secure = true) "unsafe managed directory"
  let db ← dir.openIndex
  if db.userVersion = 8 ∧ db.hasReleaseDebt ∧ db.validateCacheShape b = .ok () then
    if db.supersessionsOk then inspectDatabase b now roots key db extractorVersion
    else pure (.unknown, .invalidSupersessionInventory)
  else if 4 ≤ db.userVersion ∧ db.userVersion ≤ 8 then
    match db.historicalIndexExtractor b db.userVersion with
    | some marker => inspectDatabase b now roots key db marker
    | none => pure (.unknown, .unknownIndexShape)
  else pure (.unknown, .unknownIndexSchema)

def validateGcCandidateShape (db : IndexDatabase) : Except String Unit := do
  ensure (db.userVersion = 8) "historical GC schema is report-only"
  ensure db.hasReleaseDebt "historical GC schema is report-only"
  db.validateCacheShape b
  db.validateSupersessions

def validateGcQueue (db : QueueDatabase) (spelling : String) : Except String Unit := do
  ensure (db.objects = b.queueLayout) "incompatible_queue: unknown GC schema"
  ensure (db.userVersion = 1) "incompatible_queue: GC schema version"
  ensure (db.identity.length = 1) "incompatible_queue: GC identity cardinality"
  ensure (db.identity.head? = some (spelling, key)) "incompatible_queue: GC identity"
  ensure (db.quickCheck = "ok") "incompatible_queue: GC integrity"

def canonicalUuid (text : String) : Prop :=
  (text.toList.splitOn '-').map List.length = [8, 4, 4, 4, 12] ∧
    text.toList.all (fun c => c == '-' || isLowerHex c) = true ∧
      text.toList.any (fun c => c != '-' && c != '0') = true

instance (text : String) : Decidable (canonicalUuid text) :=
  inferInstanceAs (Decidable (_ ∧ _ ∧ _))

/-- What `gc_remove_candidate` reads of the one metadata row. -/
def admitMetadata (db : IndexDatabase) : Except String Unit :=
  match db.metadata with
  | [] => throw "Query returned no rows"
  | m :: _ => do
      ensure (canonicalUuid m.indexGeneration ∧ 0 ≤ m.indexRevision)
        "GC metadata generation or revision unknown"
      ensure (m.statsAreJson = true ∧ m.diagnosticsAreJson = true) "expected value"
      ensure (∃ opened ∈ m.lastOpenedAt, 0 < opened ∧ opened ≤ now)
        "GC timestamp unknown or in future"

/-- The part of the admission that reads `requests.db`, where there is one. -/
def admitQueue (dir : IndexDir) (db : IndexDatabase) : Except String Unit :=
  match dir.requests with
  | none => pure ()
  | some _ => do
      let queue ← dir.openQueue
      match db.metadata with
      | [] => throw "Query returned no rows"
      | m :: _ => validateGcQueue b key queue m.rootSpelling

/-- The admission of `gc_remove_candidate`, made under the exclusive use lock. -/
def admitCandidate (dir : IndexDir) : Except String Unit := do
  ensure (dir.secure = true) "unsafe managed directory"
  ensure (dir.others = []) "unknown derived index entry"
  match dir.leader with
  | none => throw "incomplete GC index"
  | some leader => do
      ensure (dir.index.isSome) "incomplete GC index"
      ensure (leader.secure = true) "unsafe managed file"
      ensure (leader.content = true) "index_not_ready: invalid leader incarnation"
      let db ← dir.openIndex
      validateGcCandidateShape b db
      admitMetadata now db
      let verdict ← inspectIndex b now roots key dir
      ensure (verdict.1 = .eligible) "GC index is live or unknown"
      admitQueue b key dir db

end Inspect

/-! ### What is abandoned -/

/-- Nothing is left at the recorded root, or at one of its ancestors. -/
def RootMissing (roots : Roots) (m : IndexMetadata) : Prop :=
  ∃ ancestor ∈ (components m.rootSpelling).inits, roots ancestor = .missing

/-- Something else stands at the recorded root. -/
def RootReplaced (roots : Roots) (m : IndexMetadata) : Prop :=
  roots (components m.rootSpelling) = .other ∨
    ∃ device inode, roots (components m.rootSpelling) = .directory device inode ∧
      (some device, some inode) ≠ (m.rootDevice, m.rootInode)

/-- The index was last opened thirty days ago or earlier. -/
def LastOpenedLongAgo (now : Int) (m : IndexMetadata) : Prop :=
  ∃ opened ∈ m.lastOpenedAt, 0 < opened ∧ opened + gcAgeSeconds ≤ now

def Abandoned (roots : Roots) (now : Int) (m : IndexMetadata) : Prop :=
  RootMissing roots m ∨ RootReplaced roots m ∨ LastOpenedLongAgo now m

/-- The exact layout of the running program, its supersessions and its extractor. -/
structure CurrentShape (b : Build) (db : IndexDatabase) (m : IndexMetadata) : Prop where
  version : db.userVersion = 8
  releaseDebt : db.hasReleaseDebt
  layout : db.objects ∈ b.layouts
  supersessions : db.supersessionsOk
  schema : m.schemaVersion = 8
  extractor : m.extractorVersion = extractorVersion

/-- A directory that may go: only known entries, an index of the current shape that is
kept under its own root's key, and nobody to open it. -/
structure Removable (b : Build) (now : Int) (roots : Roots) (key : String) (dir : IndexDir) :
    Prop where
  others : dir.others = []
  leader : dir.leader = some ⟨true, true⟩
  index : ∃ db m, dir.index = some ⟨true, db⟩ ∧ db.metadata = [m] ∧ CurrentShape b db m ∧
    b.rootKey m.rootSpelling = key ∧ Abandoned roots now m

section Admitted

variable {b : Build} {now : Int} {roots : Roots} {key : String} {dir : IndexDir}

theorem classifyIndexAge_eligible {opened : Option Int}
    (h : (classifyIndexAge now opened).1 = .eligible) :
    ∃ time ∈ opened, 0 < time ∧ time + gcAgeSeconds ≤ now := by
  cases opened with
  | none => cases h
  | some time =>
      unfold classifyIndexAge at h
      by_cases htrusted : 0 < time ∧ time ≤ maxTrustedSeconds ∧ time ≤ now
      · simp only [if_pos htrusted] at h
        by_cases hage : gcAgeSeconds ≤ now - time
        · exact ⟨time, rfl, htrusted.1, by omega⟩
        · simp only [if_neg hage] at h
          cases h
      · simp only [if_neg htrusted] at h
        cases h

theorem inspectAncestors_eligible {root : List (List Char)} {ancestors : List (List (List Char))}
    {verdict : GcStatus × GcReason} (h : inspectAncestors roots root ancestors = some verdict)
    (heligible : verdict.1 = .eligible) : ∃ ancestor ∈ ancestors, roots ancestor = .missing := by
  induction ancestors with
  | nil => cases h
  | cons ancestor rest ih =>
      unfold inspectAncestors at h
      cases hstat : roots ancestor with
      | missing => exact ⟨ancestor, List.mem_cons_self, hstat⟩
      | directory device inode =>
          rw [hstat] at h
          obtain ⟨found, hfound, hmissing⟩ := ih h
          exact ⟨found, List.mem_cons_of_mem ancestor hfound, hmissing⟩
      | symlink | failed =>
          rw [hstat] at h
          cases h
          cases heligible
      | other =>
          simp only [hstat] at h
          by_cases hroot : ancestor = root
          · rw [if_pos hroot] at h; cases h
          · rw [if_neg hroot] at h
            cases h
            cases heligible

/-- **An eligible root is one nobody opens again.** -/
theorem inspectRoot_eligible {m : IndexMetadata} {device inode : Nat}
    (hdevice : m.rootDevice = some device) (hinode : m.rootInode = some inode)
    (h : (inspectRoot roots m.rootSpelling device inode now m.lastOpenedAt).1 = .eligible) :
    Abandoned roots now m := by
  unfold inspectRoot at h
  cases hwalk : inspectAncestors roots (components m.rootSpelling)
      (components m.rootSpelling).inits with
  | some verdict =>
      simp only [hwalk] at h
      exact .inl (inspectAncestors_eligible hwalk h)
  | none =>
      simp only [hwalk] at h
      cases hstat : roots (components m.rootSpelling) with
      | missing =>
          exact .inl ⟨components m.rootSpelling,
            (List.mem_inits _ _).mpr (List.prefix_refl _), hstat⟩
      | directory dev ino =>
          simp only [hstat] at h
          by_cases hsame : (dev, ino) = (device, inode)
          · rw [if_pos hsame] at h; exact .inr (.inr (classifyIndexAge_eligible h))
          · refine .inr (.inl (.inr ⟨dev, ino, hstat, fun heq => hsame ?_⟩))
            rw [hdevice, hinode] at heq
            simpa using heq
      | other => exact .inr (.inl (.inl hstat))
      | symlink | failed =>
          simp only [hstat] at h
          cases h

theorem openAs_eq_ok {α : Type} {name : String} {journalMode : α → String}
    {file : Option (Managed α)} {content : α}
    (h : dir.openAs name journalMode file = .ok content) : file = some ⟨true, content⟩ := by
  cases file with
  | none => cases h
  | some file =>
      obtain ⟨_, hsecure, h⟩ := bind_eq_ok.mp h
      obtain ⟨_, -, h⟩ := bind_eq_ok.mp h
      obtain ⟨_, -, h⟩ := bind_eq_ok.mp h
      cases h
      rw [← ensure_eq_ok.mp hsecure]

theorem validateGcCandidateShape_eq_ok {db : IndexDatabase} {u : Unit}
    (h : validateGcCandidateShape b db = .ok u) :
    db.userVersion = 8 ∧ db.hasReleaseDebt ∧ db.validateCacheShape b = .ok () ∧
      db.supersessionsOk := by
  obtain ⟨_, hversion, h⟩ := bind_eq_ok.mp h
  obtain ⟨_, hdebt, h⟩ := bind_eq_ok.mp h
  obtain ⟨_, hshape, h⟩ := bind_eq_ok.mp h
  exact ⟨ensure_eq_ok.mp hversion, ensure_eq_ok.mp hdebt, hshape, ensure_eq_ok.mp h⟩

theorem inspectDatabase_eligible {db : IndexDatabase} {marker : String}
    {verdict : GcStatus × GcReason} (h : inspectDatabase b now roots key db marker = .ok verdict)
    (heligible : verdict.1 = .eligible) :
    ∃ m, db.metadata = [m] ∧ m.schemaVersion = db.userVersion ∧ m.extractorVersion = marker ∧
      b.rootKey m.rootSpelling = key ∧ Abandoned roots now m := by
  obtain ⟨_, hlength, h⟩ := bind_eq_ok.mp h
  obtain ⟨m, hm⟩ := List.length_eq_one_iff.mp (ensure_eq_ok.mp hlength)
  simp only [hm] at h
  obtain ⟨_, hidentity, h⟩ := bind_eq_ok.mp h
  obtain ⟨hschema, hextractor, -, hkey⟩ := ensure_eq_ok.mp hidentity
  obtain ⟨_, -, h⟩ := bind_eq_ok.mp h
  refine ⟨m, hm, hschema, hextractor, hkey, ?_⟩
  cases hdevice : m.rootDevice with
  | none =>
      simp only [hdevice] at h
      cases h
  | some device =>
      cases hinode : m.rootInode with
      | none =>
          simp only [hdevice, hinode] at h
          cases h
      | some inode =>
          simp only [hdevice, hinode] at h
          obtain ⟨_, -, h⟩ := bind_eq_ok.mp h
          cases h
          exact inspectRoot_eligible hdevice hinode heligible

/-- **What is admitted may go.** -/
theorem removable_of_admitted {u : Unit} (h : admitCandidate b now roots key dir = .ok u) :
    Removable b now roots key dir := by
  obtain ⟨_, -, h⟩ := bind_eq_ok.mp h
  obtain ⟨_, hothers, h⟩ := bind_eq_ok.mp h
  cases hleader : dir.leader with
  | none =>
      simp only [hleader] at h
      cases h
  | some leader =>
      simp only [hleader] at h
      obtain ⟨_, -, h⟩ := bind_eq_ok.mp h
      obtain ⟨_, hsecure, h⟩ := bind_eq_ok.mp h
      obtain ⟨_, hcontent, h⟩ := bind_eq_ok.mp h
      obtain ⟨db, hopen, h⟩ := bind_eq_ok.mp h
      obtain ⟨_, hshape, h⟩ := bind_eq_ok.mp h
      obtain ⟨_, -, h⟩ := bind_eq_ok.mp h
      obtain ⟨verdict, hinspect, h⟩ := bind_eq_ok.mp h
      obtain ⟨_, heligible, -⟩ := bind_eq_ok.mp h
      obtain ⟨hversion, hdebt, hcache, hsupersessions⟩ := validateGcCandidateShape_eq_ok hshape
      have hlayout : db.objects ∈ b.layouts := by
        obtain ⟨_, -, hcache⟩ := bind_eq_ok.mp hcache
        obtain ⟨_, -, hcache⟩ := bind_eq_ok.mp hcache
        exact ensure_eq_ok.mp hcache
      obtain ⟨_, -, hinspect⟩ := bind_eq_ok.mp hinspect
      obtain ⟨db', hopen', hinspect⟩ := bind_eq_ok.mp hinspect
      have hdb : db' = db := by
        rw [hopen] at hopen'
        cases hopen'
        rfl
      subst hdb
      rw [if_pos ⟨hversion, hdebt, hcache⟩, if_pos hsupersessions] at hinspect
      obtain ⟨m, hm, hschema, hextractor, hkey, habandoned⟩ :=
        inspectDatabase_eligible hinspect (ensure_eq_ok.mp heligible)
      refine ⟨ensure_eq_ok.mp hothers, ?_, db', m, openAs_eq_ok hopen, hm,
        ⟨hversion, hdebt, hlayout, hsupersessions, hschema.trans hversion, hextractor⟩, hkey,
        habandoned⟩
      have hsecure' := ensure_eq_ok.mp hsecure
      have hcontent' := ensure_eq_ok.mp hcontent
      cases leader
      simp only at hsecure' hcontent'
      rw [hleader, hsecure', hcontent']

end Admitted

end Baleyg.Topology
