/-
The witnesses of SQLite files.

On POSIX a process loses all its record locks on an inode when it closes any
descriptor of it.  So a descriptor opened to check a database file is kept in a
registry and shared, and is closed only when nobody in the process can be using the
inode: no connection is open on it and nobody has borrowed the descriptor.  The
registry counts the connections itself and leaves the borrowers to the strong counts
of the descriptors.

A connection is counted under the path it was opened by and a descriptor is looked
for under the path it is to be retired from, and the two need not be the same path.
What makes the check of one path enough is `single`: an inode has one descriptor,
however many paths it is entered under, so a second user shows in its strong count.
-/
import Baleyg.Lib.Runs
import Baleyg.Lib.Tally
import Mathlib.Data.Finset.Card

namespace Baleyg.Process

/-! ### The registry -/

/-- `(dev, ino)`, and whether the inode is a regular file. -/
structure Inode where
  dev : Nat
  ino : Nat
  regular : Bool
  deriving DecidableEq, Repr

/-- An open file: what an `Arc<File>` points to. -/
structure Descriptor where
  id : Nat
  inode : Inode
  deriving DecidableEq, Repr

/-- One reference the registry holds, under a path. -/
structure Reference where
  path : String
  file : Descriptor
  deriving DecidableEq, Repr

structure Key where
  path : String
  inode : Inode
  deriving DecidableEq, Repr

/-- `MAX_RETAINED_SQLITE_WITNESSES`. -/
def maxRetained : Nat := 4096

/-- `RetainedSqliteWitnesses`: `by_path` as its references in order, and a path is in it
while it has one. -/
structure Registry where
  byPath : List Reference
  live : List (Key × Nat)
  count : Nat
  retired : List String
  deriving DecidableEq, Repr

/-- The registry, the names in the file system, the references outside the registry,
the open connections, and the descriptors closed so far. -/
structure Witnesses where
  registry : Registry
  names : List (String × Inode)
  borrowers : List Descriptor
  connections : List Key
  opened : Nat
  closed : List Descriptor
  deriving DecidableEq, Repr

namespace Witnesses

def start : Witnesses := ⟨⟨[], [], 0, []⟩, [], [], [], 0, []⟩

variable (w : Witnesses)

/-- `symlink_metadata`. -/
def named (path : String) : Option Inode := (w.names.find? fun n => n.1 = path).map Prod.snd

def nlink (inode : Inode) : Nat := w.names.countP fun n => n.2 = inode

def files (path : String) : List Reference := w.registry.byPath.filter fun e => e.path = path

def liveCount (path : String) (inode : Inode) : Nat := Tally.count ⟨path, inode⟩ w.registry.live

def hasLive (path : String) : Prop := ∃ e ∈ w.registry.live, e.1.path = path

instance (path : String) : Decidable (w.hasLive path) :=
  inferInstanceAs (Decidable (∃ e ∈ w.registry.live, _))

def strongCount (d : Descriptor) : Nat :=
  w.registry.byPath.countP (fun e => e.file = d) + w.borrowers.count d

/-- The entries that are dropped were the last references to their descriptors. -/
def dropEntries (dropped kept : List Reference) : Witnesses :=
  { w with
    registry := { w.registry with byPath := kept, count := w.registry.count - dropped.length }
    closed := w.closed ++ dropped.map Reference.file }

/-! ### Retired paths -/

/-- `clean_retired_sqlite_witness`. -/
def cleanRetired (path : String) : Witnesses :=
  if path ∉ w.registry.retired then w
  else if w.files path = [] then
    { w with registry := { w.registry with retired := w.registry.retired.erase path } }
  else if ∀ e ∈ w.files path, w.liveCount path e.file.inode = 0 ∧ w.strongCount e.file = 1 then
    let cleaned := w.dropEntries (w.files path) (w.registry.byPath.filter fun e => e.path ≠ path)
    { cleaned with
      registry := { cleaned.registry with retired := cleaned.registry.retired.erase path } }
  else w

/-- `SqliteWitnessRetirement`, of one path. -/
def retire (path : String) : Witnesses :=
  { w with
    registry :=
      { w.registry with
        retired :=
          if path ∈ w.registry.retired then w.registry.retired
          else path :: w.registry.retired } }.cleanRetired path

/-! ### Descriptors -/

def lend (d : Descriptor) : Witnesses := { w with borrowers := d :: w.borrowers }

/-- A descriptor is opened, entered under the path and handed out. -/
def enter (path : String) (inode : Inode) : Witnesses :=
  let d : Descriptor := ⟨w.opened, inode⟩
  { w with
    registry :=
      { w.registry with
        byPath := w.registry.byPath ++ [⟨path, d⟩], count := w.registry.count + 1 }
    opened := w.opened + 1
    borrowers := d :: w.borrowers }

/-- The entry a name already has a descriptor in. -/
def entryOf (entries : List Reference) (inode : Inode) : Option Reference :=
  entries.find? fun e => e.file.inode = inode

/-- The descriptors there are for the file a path names, if it names a regular file. -/
def known (path : String) (entries : List Reference) : Option Reference :=
  match w.named path with
  | some inode => if inode.regular then entryOf entries inode else none
  | none => none

/-- `retained_sqlite_file`. A file the open creates has an inode nobody holds. -/
def retainedSqliteFile (path : String) (create : Bool) (fresh : Inode) :
    Except String Witnesses := do
  match w.known path (w.files path) with
  | some e => pure (w.lend e.file)
  | none =>
      match w.known path w.registry.byPath with
      | some e =>
          pure { w with
            registry := { w.registry with byPath := w.registry.byPath ++ [⟨path, e.file⟩] }
            borrowers := e.file :: w.borrowers }
      | none =>
          if w.registry.count < maxRetained then
            match w.named path with
            | some inode => pure (w.enter path inode)
            | none =>
                if create then pure ({ w with names := (path, fresh) :: w.names }.enter path fresh)
                else throw "No such file or directory"
          else throw "incompatible_index: verified SQLite file witness capacity reached"

/-- `create_retained_staged_sqlite_file`. -/
def createRetainedStaged (path : String) (fresh : Inode) : Except String Witnesses :=
  if w.registry.count < maxRetained then
    match w.named path with
    | some _ => throw "File exists"
    | none => pure ({ w with names := (path, fresh) :: w.names }.enter path fresh)
  else throw "incompatible_index: verified SQLite file witness capacity reached"

/-! ### Connections -/

/-- `protected_sqlite_open`; the flag says whether SQLite opens the file. -/
def protectedSqliteOpen (path : String) (opens : Bool) : Except String Witnesses :=
  match w.named path with
  | none => throw "No such file or directory"
  | some inode =>
      if inode.regular = false then throw "unsafe_index: SQLite pathname changed"
      else
        match entryOf (w.files path) inode with
        | none => throw "unsafe_index: SQLite witness missing"
        | some _ =>
            if opens then
              pure { w with
                registry := { w.registry with live := Tally.bump ⟨path, inode⟩ w.registry.live }
                connections := ⟨path, inode⟩ :: w.connections }
            else throw "unable to open database file"

/-- The drop of a `ProtectedSqliteConnection`. -/
def closeConnection (k : Key) : Witnesses :=
  { w with
    registry := { w.registry with live := Tally.drop k w.registry.live }
    connections := w.connections.erase k }.cleanRetired k.path

/-! ### Deleted and replaced files -/

/-- `release_deleted_sqlite_witness_kind`, under its exclusive guard. -/
def releaseDeleted (path : String) (inode : Inode) (failedStage : Bool) :
    Except String Witnesses :=
  if w.liveCount path inode ≠ 0 then
    throw "storage_busy: deleted SQLite inode has live connections"
  else if w.files path = [] then throw "unsafe_index: deleted SQLite witness missing"
  else
    match entryOf (w.files path) inode with
    | none => throw "unsafe_index: deleted SQLite witness identity changed"
    | some e =>
        if w.nlink inode ≠ 0 then throw "unsafe_index: obsolete SQLite inode is still linked"
        else if (w.named path).isSome then
          if failedStage then
            throw "unsafe_index: failed stage pathname occupied by a foreign inode; witness retained"
          else throw "unsafe_index: SQLite pathname occupied; obsolete witness retained"
        else if w.strongCount e.file ≠ 1 then
          throw "storage_busy: deleted SQLite witness still borrowed"
        else pure (w.dropEntries [e] (w.registry.byPath.erase e))

/-- `rename` of a staged file over a path, and its entries with it. -/
def moveStaged (stage path : String) : Witnesses :=
  { w with
    registry :=
      { w.registry with
        byPath := (w.registry.byPath.filter fun e => e.path ≠ stage)
          ++ (w.files stage).map fun e => { e with path := path } }
    names := (w.names.filter fun n => n.1 ≠ stage ∧ n.1 ≠ path)
      ++ ((w.named stage).map fun inode => (path, inode)).toList }

/-- `replace_index_and_release_obsolete`, with the borrowed witness of the old file. -/
def replaceIndex (old : Descriptor) (path stage : String) : Except String Witnesses :=
  if w.named path ≠ some old.inode ∨ old.inode.regular = false ∨ w.nlink old.inode ≠ 1 then
    throw "unsafe_index: protected index pathname changed"
  else if w.liveCount path old.inode ≠ 0 then
    throw "storage_busy: obsolete index has live SQLite connections"
  else if w.files path = [] then throw "unsafe_index: obsolete witness missing"
  else
    match entryOf (w.files path) old.inode with
    | none => throw "unsafe_index: obsolete witness identity changed"
    | some e =>
        if w.strongCount e.file ≠ 2 then
          throw "storage_busy: obsolete index witness still borrowed"
        else if w.hasLive stage then
          throw "storage_busy: staged index still has live SQLite connections"
        else if (w.files stage).length ≠ 1 then
          throw "unsafe_index: unexpected staged witness count"
        else if (w.named stage).isNone then throw "No such file or directory"
        else
          let returned := { w with borrowers := w.borrowers.erase old }
          pure ((returned.dropEntries [e] (w.registry.byPath.erase e)).moveStaged stage path)

/-- The publication of the first index by `initialize`. -/
def publishStaged (stage path : String) : Except String Witnesses :=
  if w.hasLive stage then
    throw "storage_busy: staged index still has live SQLite connections"
  else if w.hasLive path then
    throw "storage_busy: prior index incarnation still has live SQLite connections"
  else if (w.files stage).length ≠ 1 then throw "unsafe_index: unexpected staged witness count"
  else if (w.named stage).isNone then throw "No such file or directory"
  else pure (w.moveStaged stage path)

/-- What `gc_unlink_sqlite` asks of each file before it unlinks the first. -/
def Unlinkable (p : String × Inode) : Prop :=
  p.2.regular = true ∧ w.named p.1 = some p.2 ∧ w.nlink p.2 = 1 ∧ ¬ w.hasLive p.1
    ∧ ∃ e ∈ w.files p.1, w.files p.1 = [e] ∧ e.file.inode = p.2 ∧ w.strongCount e.file = 1

instance (p : String × Inode) : Decidable (w.Unlinkable p) := inferInstanceAs (Decidable (_ ∧ _))

/-- One file of `gc_unlink_sqlite`. -/
def unlinkOne (path : String) : Witnesses :=
  { w with names := w.names.filter fun n => n.1 ≠ path }.dropEntries (w.files path)
    (w.registry.byPath.filter fun e => e.path ≠ path)

/-- `gc_unlink_sqlite`, that gets as far as the first `n` files. -/
def gcUnlink (paths : List (String × Inode)) (n : Nat) : Witnesses :=
  if ∀ p ∈ paths, w.Unlinkable p then (paths.take n).foldl (fun w p => w.unlinkOne p.1) w else w

/-! ### Histories -/

inductive Event where
  | retain (path : String) (create : Bool) (fresh : Inode)
  | stage (path : String) (fresh : Inode)
  /-- A reference outside the registry is cloned. -/
  | clone (d : Descriptor)
  /-- A reference outside the registry is dropped. -/
  | giveBack (d : Descriptor)
  | openConnection (path : String) (opens : Bool)
  | closeConnection (k : Key)
  | retire (path : String)
  | releaseDeleted (path : String) (inode : Inode) (failedStage : Bool)
  | replace (old : Descriptor) (path stage : String)
  | publish (stage path : String)
  | unlink (paths : List (String × Inode)) (n : Nat)
  | files (names : List (String × Inode))
  deriving DecidableEq, Repr

def settle : Except String Witnesses → Witnesses
  | .ok w' => w'
  | .error _ => w

def perform : Event → Witnesses
  | .retain path create fresh => w.settle (w.retainedSqliteFile path create fresh)
  | .stage path fresh => w.settle (w.createRetainedStaged path fresh)
  | .clone d => if d ∈ w.borrowers then w.lend d else w
  | .giveBack d => { w with borrowers := w.borrowers.erase d }
  | .openConnection path opens => w.settle (w.protectedSqliteOpen path opens)
  | .closeConnection k => if k ∈ w.connections then w.closeConnection k else w
  | .retire path => w.retire path
  | .releaseDeleted path inode failedStage =>
      w.settle (w.releaseDeleted path inode failedStage)
  | .replace old path stage =>
      if old ∈ w.borrowers then
        -- the caller's witness is consumed whether the call fails or not
        { w with borrowers := w.borrowers.erase old }.settle (w.replaceIndex old path stage)
      else w
  | .publish stage path => w.settle (w.publishStaged stage path)
  | .unlink paths n => w.gcUnlink paths n
  | .files names => { w with names := names }

/-- The kernel gives a new file an inode that no descriptor holds. -/
def Possible : Event → Prop
  | .retain _ _ fresh => fresh.regular = true ∧ ∀ e ∈ w.registry.byPath, e.file.inode ≠ fresh
  | .stage _ fresh => fresh.regular = true ∧ ∀ e ∈ w.registry.byPath, e.file.inode ≠ fresh
  | _ => True

def Step (w w' : Witnesses) : Prop := ∃ e, w.Possible e ∧ w' = w.perform e

def Reached : Witnesses → Prop := Runs.Reachable (fun w => w = start) Step

/-- Nobody can be using the inode: a close of the descriptor takes no lock away. -/
def Unused (d : Descriptor) : Prop :=
  (∀ k ∈ w.connections, k.inode ≠ d.inode)
    ∧ ∀ b ∈ w.borrowers, d.inode.regular = true → b.inode ≠ d.inode

/-- **What always holds of the registry.** -/
structure Kept (w : Witnesses) : Prop where
  borrowed : ∀ d ∈ w.borrowers, ∃ e ∈ w.registry.byPath, e.file = d
  ids : ∀ e ∈ w.registry.byPath, e.file.id < w.opened
  single : ∀ e ∈ w.registry.byPath, ∀ e' ∈ w.registry.byPath, e.file.inode.regular = true →
    e.file.inode = e'.file.inode → e.file = e'.file
  live : Tally.Counts w.registry.live w.connections
  connected : ∀ k ∈ w.connections, k.inode.regular = true
    ∧ ∃ e ∈ w.registry.byPath, e.path = k.path ∧ e.file.inode = k.inode
  count : w.registry.count = (w.registry.byPath.map Reference.file).toFinset.card

theorem kept_start : start.Kept where
  borrowed := by intro d hd; cases hd
  ids := by intro e he; cases he
  single := by intro e he; cases he
  live := Tally.counts_nil
  connected := by intro k hk; cases hk
  count := rfl

variable {w} {w' : Witnesses}

theorem Kept.liveCount (h : w.Kept) (path : String) (inode : Inode) :
    w.liveCount path inode = w.connections.count ⟨path, inode⟩ := h.live.count _

theorem Kept.hasLive (h : w.Kept) {path : String} :
    w.hasLive path ↔ ∃ k ∈ w.connections, k.path = path := by
  constructor
  · rintro ⟨e, he, rfl⟩
    exact ⟨e.1, h.live.mem_keys.mp (List.mem_map_of_mem he), rfl⟩
  · rintro ⟨k, hk, rfl⟩
    obtain ⟨e, he, rfl⟩ := List.mem_map.mp (h.live.mem_keys.mpr hk)
    exact ⟨e, he, rfl⟩

/-! ### Dropping entries -/

/-- The entry is the only reference to its descriptor, and no connection is counted
under its path. -/
def Idle (w : Witnesses) (e : Reference) : Prop :=
  w.strongCount e.file ≤ 1 ∧ w.liveCount e.path e.file.inode = 0

/-- An idle entry is the only one of its inode, and nobody uses the inode. -/
theorem Kept.unused (h : w.Kept) {e : Reference} (he : e ∈ w.registry.byPath) (hidle : w.Idle e) :
    w.Unused e.file := by
  obtain ⟨hstrong, hlive⟩ := hidle
  unfold strongCount at hstrong
  have hself : 0 < w.registry.byPath.countP (fun x => x.file = e.file) :=
    List.countP_pos_iff.mpr ⟨e, he, by simp⟩
  refine ⟨?_, ?_⟩
  · intro k hk hinode
    obtain ⟨hregular, e', he', hpath, hinode'⟩ := h.connected k hk
    have hsame : e'.file = e.file := by
      refine h.single e' he' e he ?_ (hinode'.trans hinode)
      rw [hinode']
      exact hregular
    by_cases heq : e' = e
    · -- the connection is counted under the entry's own path
      rw [h.liveCount, List.count_eq_zero] at hlive
      refine hlive ?_
      rw [← hinode, ← heq, hpath]
      exact hk
    · have htwo : 1 < w.registry.byPath.countP (fun x => x.file = e.file) := by
        have herase := (List.perm_cons_erase he).countP_eq (fun x => decide (x.file = e.file))
        have hother : 0 < (w.registry.byPath.erase e).countP (fun x => x.file = e.file) :=
          List.countP_pos_iff.mpr ⟨e', (List.mem_erase_of_ne heq).mpr he', by simp [hsame]⟩
        rw [herase, List.countP_cons]
        simp only [decide_true, if_true]
        omega
      omega
  · intro b hb hregular hinode
    obtain ⟨e', he', rfl⟩ := h.borrowed b hb
    have hsame : e'.file = e.file :=
      h.single e' he' e he (by rw [hinode]; exact hregular) hinode
    rw [hsame] at hb
    have hlent : 0 < w.borrowers.count e.file := List.count_pos_iff.mpr hb
    omega

theorem once_of_idle {dropped kept : List Reference} (hperm : w.registry.byPath.Perm (dropped ++ kept))
    (hidle : ∀ e ∈ dropped, w.Idle e) :
    (dropped.map Reference.file).Nodup ∧ ∀ e ∈ dropped, ∀ e' ∈ kept, e'.file ≠ e.file := by
  have hcount : ∀ e ∈ dropped, dropped.countP (fun x => x.file = e.file)
      + kept.countP (fun x => x.file = e.file) ≤ 1 := by
    intro e he
    have hstrong := (hidle e he).1
    unfold strongCount at hstrong
    rw [hperm.countP_eq, List.countP_append] at hstrong
    omega
  refine ⟨?_, ?_⟩
  · rw [List.nodup_iff_count_le_one]
    intro d
    by_cases hd : d ∈ dropped.map Reference.file
    · obtain ⟨e, he, rfl⟩ := List.mem_map.mp hd
      have hone := hcount e he
      have hsame : (dropped.map Reference.file).count e.file
          = dropped.countP (fun x => x.file = e.file) := by
        unfold List.count
        rw [List.countP_map]
        exact List.countP_congr fun x _ => by simp
      omega
    · rw [List.count_eq_zero.mpr hd]; exact Nat.zero_le 1
  · intro e he e' he' hsame
    have hone := hcount e he
    have hdropped : 0 < dropped.countP (fun x => x.file = e.file) :=
      List.countP_pos_iff.mpr ⟨e, he, by simp⟩
    have hkept : 0 < kept.countP (fun x => x.file = e.file) :=
      List.countP_pos_iff.mpr ⟨e', he', by simp [hsame]⟩
    omega

/-- **Idle entries can be dropped**: the invariant stays, and the descriptors that are
closed are nobody's. -/
theorem Kept.dropEntries (h : w.Kept) {dropped kept : List Reference}
    (hperm : w.registry.byPath.Perm (dropped ++ kept)) (hidle : ∀ e ∈ dropped, w.Idle e) :
    (w.dropEntries dropped kept).Kept
      ∧ ∀ d ∈ dropped.map Reference.file, (w.dropEntries dropped kept).Unused d := by
  have hmem : ∀ e, e ∈ w.registry.byPath ↔ e ∈ dropped ∨ e ∈ kept := fun e => by
    rw [hperm.mem_iff, List.mem_append]
  have hunused : ∀ e ∈ dropped, w.Unused e.file := fun e he =>
    h.unused ((hmem e).mpr (Or.inl he)) (hidle e he)
  obtain ⟨hnodup, hapart⟩ := once_of_idle hperm hidle
  refine ⟨?_, ?_⟩
  · refine
      { borrowed := ?_
        ids := fun e he => h.ids e ((hmem e).mpr (Or.inr he))
        single := fun e he e' he' =>
          h.single e ((hmem e).mpr (Or.inr he)) e' ((hmem e').mpr (Or.inr he'))
        live := h.live
        connected := ?_
        count := ?_ }
    · intro d hd
      obtain ⟨e, he, rfl⟩ := h.borrowed d hd
      rcases (hmem e).mp he with hdropped | hkept
      · have hstrong := (hidle e hdropped).1
        have hself : 0 < w.registry.byPath.countP (fun x => x.file = e.file) :=
          List.countP_pos_iff.mpr ⟨e, he, by simp⟩
        have hlent : 0 < w.borrowers.count e.file := List.count_pos_iff.mpr hd
        unfold strongCount at hstrong
        omega
      · exact ⟨e, hkept, rfl⟩
    · intro k hk
      obtain ⟨hregular, e, he, hpath, hinode⟩ := h.connected k hk
      refine ⟨hregular, e, ((hmem e).mp he).resolve_left fun hdropped => ?_, hpath, hinode⟩
      exact (hunused e hdropped).1 k hk hinode.symm
    · show w.registry.count - dropped.length = (kept.map Reference.file).toFinset.card
      have hunion : (w.registry.byPath.map Reference.file).toFinset
          = (dropped.map Reference.file).toFinset ∪ (kept.map Reference.file).toFinset := by
        rw [← List.toFinset_append, ← List.map_append]
        exact List.toFinset_eq_of_perm _ _ (hperm.map _)
      have hdisjoint : Disjoint (dropped.map Reference.file).toFinset
          (kept.map Reference.file).toFinset := by
        rw [Finset.disjoint_left]
        intro d hd hd'
        obtain ⟨e, he, rfl⟩ := List.mem_map.mp (List.mem_toFinset.mp hd)
        obtain ⟨e', he', hsame⟩ := List.mem_map.mp (List.mem_toFinset.mp hd')
        exact hapart e he e' he' hsame
      rw [h.count, hunion, Finset.card_union_of_disjoint hdisjoint,
        List.toFinset_card_of_nodup hnodup, List.length_map]
      omega
  · intro d hd
    obtain ⟨e, he, rfl⟩ := List.mem_map.mp hd
    exact hunused e he

/-! ### What one call keeps -/

/-- A call keeps the invariant, and what it closes is nobody's. -/
structure Holds (w w' : Witnesses) : Prop where
  kept : w'.Kept
  closes : ∃ new, w'.closed = w.closed ++ new ∧ ∀ d ∈ new, w'.Unused d

theorem Holds.quiet (h : w'.Kept) (hclosed : w'.closed = w.closed) : Holds w w' :=
  ⟨h, [], by rw [hclosed, List.append_nil], by intro d hd; cases hd⟩

theorem Kept.retired (h : w.Kept) (retired : List String) :
    Kept { w with registry := { w.registry with retired := retired } } :=
  ⟨h.borrowed, h.ids, h.single, h.live, h.connected, h.count⟩

theorem perm_files (w : Witnesses) (path : String) :
    w.registry.byPath.Perm (w.files path ++ w.registry.byPath.filter fun e => e.path ≠ path) := by
  have hperm := List.filter_append_perm (fun e : Reference => decide (e.path = path)) w.registry.byPath
  simpa [files] using hperm.symm

theorem mem_files {path : String} {e : Reference} :
    e ∈ w.files path ↔ e ∈ w.registry.byPath ∧ e.path = path := by
  unfold files
  rw [List.mem_filter, decide_eq_true_eq]

theorem Kept.cleanRetired (h : w.Kept) (path : String) : Holds w (w.cleanRetired path) := by
  unfold Witnesses.cleanRetired
  by_cases hretired : path ∉ w.registry.retired
  · rw [if_pos hretired]; exact Holds.quiet h rfl
  rw [if_neg hretired]
  by_cases hnone : w.files path = []
  · rw [if_pos hnone]; exact Holds.quiet (h.retired _) rfl
  rw [if_neg hnone]
  by_cases hsafe : ∀ e ∈ w.files path,
      w.liveCount path e.file.inode = 0 ∧ w.strongCount e.file = 1
  · rw [if_pos hsafe]
    have hidle : ∀ e ∈ w.files path, w.Idle e := by
      intro e he
      obtain ⟨hlive, hstrong⟩ := hsafe e he
      refine ⟨hstrong.le, ?_⟩
      rw [(mem_files.mp he).2]
      exact hlive
    obtain ⟨hkept, hunused⟩ := h.dropEntries (w.perm_files path) hidle
    exact ⟨hkept.retired _, _, rfl, hunused⟩
  · rw [if_neg hsafe]; exact Holds.quiet h rfl

theorem Kept.retire (h : w.Kept) (path : String) : Holds w (w.retire path) := by
  obtain ⟨hkept, hcloses⟩ := (h.retired _).cleanRetired path
  exact ⟨hkept, hcloses⟩

/-! ### Descriptors handed out -/

theorem Kept.names (h : w.Kept) (names : List (String × Inode)) :
    Kept { w with names := names } :=
  ⟨h.borrowed, h.ids, h.single, h.live, h.connected, h.count⟩

theorem Kept.lend (h : w.Kept) {e : Reference} (he : e ∈ w.registry.byPath) :
    (w.lend e.file).Kept where
  borrowed := by
    intro d hd
    rcases List.mem_cons.mp hd with rfl | hd
    · exact ⟨e, he, rfl⟩
    · exact h.borrowed d hd
  ids := h.ids
  single := h.single
  live := h.live
  connected := h.connected
  count := h.count

/-- Entries are told apart as long as their files had entries before. -/
theorem Kept.told_apart (h : w.Kept) {entries : List Reference}
    (hback : ∀ x ∈ entries, ∃ y ∈ w.registry.byPath, y.file = x.file) :
    (∀ x ∈ entries, x.file.id < w.opened) ∧ ∀ x ∈ entries, ∀ x' ∈ entries,
      x.file.inode.regular = true → x.file.inode = x'.file.inode → x.file = x'.file := by
  refine ⟨fun x hx => ?_, fun x hx x' hx' hregular hinode => ?_⟩
  · obtain ⟨y, hy, hfile⟩ := hback x hx
    exact hfile ▸ h.ids y hy
  · obtain ⟨y, hy, hfile⟩ := hback x hx
    obtain ⟨y', hy', hfile'⟩ := hback x' hx'
    rw [← hfile] at hregular hinode ⊢
    rw [← hfile'] at hinode ⊢
    exact h.single y hy y' hy' hregular hinode

theorem Kept.share (h : w.Kept) {e : Reference} (he : e ∈ w.registry.byPath) (path : String) :
    Kept { w with
      registry := { w.registry with byPath := w.registry.byPath ++ [⟨path, e.file⟩] } } := by
  have hback : ∀ x ∈ w.registry.byPath ++ [⟨path, e.file⟩],
      ∃ y ∈ w.registry.byPath, y.file = x.file := by
    intro x hx
    rcases List.mem_append.mp hx with hx | hx
    · exact ⟨x, hx, rfl⟩
    · rw [List.mem_singleton.mp hx]; exact ⟨e, he, rfl⟩
  obtain ⟨hids, hsingle⟩ := h.told_apart hback
  refine
    { borrowed := ?_
      ids := hids
      single := hsingle
      live := h.live
      connected := ?_
      count := ?_ }
  · intro d hd
    obtain ⟨x, hx, hfile⟩ := h.borrowed d hd
    exact ⟨x, List.mem_append_left _ hx, hfile⟩
  · intro k hk
    obtain ⟨hregular, x, hx, hpath, hinode⟩ := h.connected k hk
    exact ⟨hregular, x, List.mem_append_left _ hx, hpath, hinode⟩
  · show w.registry.count = _
    have hin : e.file ∈ (w.registry.byPath.map Reference.file).toFinset :=
      List.mem_toFinset.mpr (List.mem_map_of_mem he)
    rw [h.count, List.map_append, List.toFinset_append]
    simp [hin]

theorem Kept.enter (h : w.Kept) (path : String) {inode : Inode}
    (hother : inode.regular = true → ∀ e ∈ w.registry.byPath, e.file.inode ≠ inode) :
    (w.enter path inode).Kept := by
  have hnew : ∀ e ∈ w.registry.byPath, e.file ≠ ⟨w.opened, inode⟩ := by
    intro e he hfile
    have hid := h.ids e he
    rw [hfile] at hid
    exact Nat.lt_irrefl _ hid
  have hcases : ∀ e ∈ w.registry.byPath ++ [⟨path, ⟨w.opened, inode⟩⟩],
      e ∈ w.registry.byPath ∨ e.file = ⟨w.opened, inode⟩ := by
    intro e he
    rcases List.mem_append.mp he with he | he
    · exact Or.inl he
    · rw [List.mem_singleton.mp he]; exact Or.inr rfl
  refine
    { borrowed := ?_
      ids := ?_
      single := ?_
      live := h.live
      connected := ?_
      count := ?_ }
  · intro d hd
    rcases List.mem_cons.mp hd with rfl | hd
    · exact ⟨⟨path, ⟨w.opened, inode⟩⟩, List.mem_append_right _ List.mem_cons_self, rfl⟩
    · obtain ⟨e, he, hfile⟩ := h.borrowed d hd
      exact ⟨e, List.mem_append_left _ he, hfile⟩
  · intro e he
    show e.file.id < w.opened + 1
    rcases hcases e he with hold | hfile
    · exact Nat.lt_succ_of_lt (h.ids e hold)
    · rw [hfile]; exact Nat.lt_succ_self _
  · intro e he e' he' hregular hinode
    rcases hcases e he with hold | hfile
    · rcases hcases e' he' with hold' | hfile'
      · exact h.single e hold e' hold' hregular hinode
      · have hsame : e.file.inode = inode := by rw [hinode, hfile']
        rw [hsame] at hregular
        exact absurd hsame (hother hregular e hold)
    · rcases hcases e' he' with hold' | hfile'
      · rw [hfile] at hregular hinode; exact absurd hinode.symm (hother hregular e' hold')
      · rw [hfile, hfile']
  · intro k hk
    obtain ⟨hregular, e, he, hpath, hinode⟩ := h.connected k hk
    exact ⟨hregular, e, List.mem_append_left _ he, hpath, hinode⟩
  · show w.registry.count + 1 = ((w.registry.byPath ++ [_]).map Reference.file).toFinset.card
    have hnot : (⟨w.opened, inode⟩ : Descriptor)
        ∉ (w.registry.byPath.map Reference.file).toFinset := by
      intro hin
      obtain ⟨e, he, hfile⟩ := List.mem_map.mp (List.mem_toFinset.mp hin)
      exact hnew e he hfile
    rw [h.count, List.map_append, List.toFinset_append, List.map_singleton, List.toFinset_cons,
      List.toFinset_nil, insert_empty_eq, Finset.union_singleton,
      Finset.card_insert_of_notMem hnot]

theorem known_mem {path : String} {entries : List Reference} {e : Reference}
    (h : w.known path entries = some e) : e ∈ entries := by
  unfold known entryOf at h
  split at h
  · split at h
    · exact List.mem_of_find?_eq_some h
    · cases h
  · cases h

theorem known_eq_none {path : String} {entries : List Reference} {inode : Inode}
    (h : w.known path entries = none) (hnamed : w.named path = some inode)
    (hregular : inode.regular = true) : ∀ e ∈ entries, e.file.inode ≠ inode := by
  unfold known entryOf at h
  rw [hnamed] at h
  dsimp only at h
  rw [if_pos hregular] at h
  intro e he
  simpa using List.find?_eq_none.mp h e he

theorem Kept.retain (h : w.Kept) {path : String} {create : Bool} {fresh : Inode}
    (hfresh : fresh.regular = true ∧ ∀ e ∈ w.registry.byPath, e.file.inode ≠ fresh)
    (hok : w.retainedSqliteFile path create fresh = .ok w') :
    w'.Kept ∧ w'.closed = w.closed := by
  unfold retainedSqliteFile at hok
  cases hhere : w.known path (w.files path) with
  | some e =>
      rw [hhere] at hok
      obtain rfl := Except.ok.inj hok
      exact ⟨h.lend (mem_files.mp (known_mem hhere)).1, rfl⟩
  | none =>
      rw [hhere] at hok
      dsimp only at hok
      cases hany : w.known path w.registry.byPath with
      | some e =>
          rw [hany] at hok
          obtain rfl := Except.ok.inj hok
          have he := known_mem hany
          exact ⟨(h.share he path).lend (List.mem_append_left _ he), rfl⟩
      | none =>
          rw [hany] at hok
          dsimp only at hok
          split at hok
          · cases hnamed : w.named path with
            | some inode =>
                rw [hnamed] at hok
                obtain rfl := Except.ok.inj hok
                exact ⟨h.enter path (known_eq_none hany hnamed), rfl⟩
            | none =>
                rw [hnamed] at hok
                dsimp only at hok
                split at hok
                · obtain rfl := Except.ok.inj hok
                  exact ⟨(h.names _).enter path fun _ => hfresh.2, rfl⟩
                · cases hok
          · cases hok

theorem Kept.stage (h : w.Kept) {path : String} {fresh : Inode}
    (hfresh : fresh.regular = true ∧ ∀ e ∈ w.registry.byPath, e.file.inode ≠ fresh)
    (hok : w.createRetainedStaged path fresh = .ok w') : w'.Kept ∧ w'.closed = w.closed := by
  unfold createRetainedStaged at hok
  split at hok
  · cases hnamed : w.named path with
    | some inode => rw [hnamed] at hok; cases hok
    | none =>
        rw [hnamed] at hok
        obtain rfl := Except.ok.inj hok
        exact ⟨(h.names _).enter path fun _ => hfresh.2, rfl⟩
  · cases hok

/-! ### Connections -/

theorem entryOf_eq_some {entries : List Reference} {inode : Inode} {e : Reference}
    (h : entryOf entries inode = some e) : e ∈ entries ∧ e.file.inode = inode := by
  unfold entryOf at h
  exact ⟨List.mem_of_find?_eq_some h, by simpa using List.find?_some h⟩

theorem Kept.opens (h : w.Kept) {path : String} {opens : Bool}
    (hok : w.protectedSqliteOpen path opens = .ok w') : w'.Kept ∧ w'.closed = w.closed := by
  unfold protectedSqliteOpen at hok
  cases hnamed : w.named path with
  | none => rw [hnamed] at hok; cases hok
  | some inode =>
      rw [hnamed] at hok
      dsimp only at hok
      by_cases hregular : inode.regular = false
      · rw [if_pos hregular] at hok; cases hok
      rw [if_neg hregular] at hok
      cases hentry : entryOf (w.files path) inode with
      | none => rw [hentry] at hok; cases hok
      | some e =>
          rw [hentry] at hok
          dsimp only at hok
          split at hok
          · obtain rfl := Except.ok.inj hok
            obtain ⟨he, hinode⟩ := entryOf_eq_some hentry
            refine ⟨⟨h.borrowed, h.ids, h.single, h.live.bump _, ?_, h.count⟩, rfl⟩
            intro k hk
            rcases List.mem_cons.mp hk with rfl | hk
            · rw [Bool.not_eq_false] at hregular
              exact ⟨hregular, e, (mem_files.mp he).1, (mem_files.mp he).2, hinode⟩
            · exact h.connected k hk
          · cases hok

theorem Kept.closeConnection (h : w.Kept) (k : Key) : Holds w (w.closeConnection k) := by
  have hkept : Kept { w with
      registry := { w.registry with live := Tally.drop k w.registry.live }
      connections := w.connections.erase k } :=
    ⟨h.borrowed, h.ids, h.single, h.live.drop k,
      fun k' hk' => h.connected k' (List.mem_of_mem_erase hk'), h.count⟩
  obtain ⟨hcleaned, hcloses⟩ := hkept.cleanRetired k.path
  exact ⟨hcleaned, hcloses⟩

theorem Kept.giveBack (h : w.Kept) (d : Descriptor) :
    Kept { w with borrowers := w.borrowers.erase d } :=
  ⟨fun b hb => h.borrowed b (List.mem_of_mem_erase hb), h.ids, h.single, h.live, h.connected,
    h.count⟩

/-! ### Deleted and replaced files -/

theorem perm_erase {e : Reference} (he : e ∈ w.registry.byPath) :
    w.registry.byPath.Perm ([e] ++ w.registry.byPath.erase e) := List.perm_cons_erase he

theorem Kept.releaseDeleted (h : w.Kept) {path : String} {inode : Inode} {failedStage : Bool}
    (hok : w.releaseDeleted path inode failedStage = .ok w') : Holds w w' := by
  unfold Witnesses.releaseDeleted at hok
  by_cases hlive : w.liveCount path inode ≠ 0
  · rw [if_pos hlive] at hok; cases hok
  rw [if_neg hlive] at hok
  split at hok
  · cases hok
  cases hentry : entryOf (w.files path) inode with
  | none => rw [hentry] at hok; cases hok
  | some e =>
      rw [hentry] at hok
      dsimp only at hok
      split at hok
      · cases hok
      split at hok
      · split at hok <;> cases hok
      by_cases hstrong : w.strongCount e.file ≠ 1
      · rw [if_pos hstrong] at hok; cases hok
      rw [if_neg hstrong] at hok
      obtain rfl := Except.ok.inj hok
      obtain ⟨he, hinode⟩ := entryOf_eq_some hentry
      obtain ⟨hmem, hpath⟩ := mem_files.mp he
      have hidle : ∀ x ∈ [e], w.Idle x := by
        intro x hx
        rw [List.mem_singleton.mp hx]
        refine ⟨by omega, ?_⟩
        rw [hpath, hinode]
        omega
      obtain ⟨hkept, hunused⟩ := h.dropEntries (perm_erase hmem) hidle
      exact ⟨hkept, _, rfl, hunused⟩

theorem moveStaged_files (stage path : String) :
    ((w.moveStaged stage path).registry.byPath.map Reference.file).Perm
      (w.registry.byPath.map Reference.file) := by
  have hmoved : (w.moveStaged stage path).registry.byPath.map Reference.file
      = (w.registry.byPath.filter fun e => e.path ≠ stage).map Reference.file
        ++ (w.files stage).map Reference.file := by
    unfold moveStaged
    rw [List.map_append, List.map_map]
    rfl
  rw [hmoved]
  refine List.perm_append_comm.trans ?_
  rw [← List.map_append]
  exact (w.perm_files stage).symm.map _

/-- **The entries of a stage nobody has a connection on move with it.** -/
theorem Kept.moveStaged (h : w.Kept) {stage path : String} (hlive : ¬ w.hasLive stage) :
    (w.moveStaged stage path).Kept := by
  have hperm := w.moveStaged_files stage path
  have hback : ∀ x ∈ (w.moveStaged stage path).registry.byPath,
      ∃ y ∈ w.registry.byPath, y.file = x.file := fun x hx =>
    List.mem_map.mp (hperm.mem_iff.mp (List.mem_map_of_mem hx))
  obtain ⟨hids, hsingle⟩ := h.told_apart hback
  refine
    { borrowed := ?_
      ids := hids
      single := hsingle
      live := h.live
      connected := ?_
      count := ?_ }
  · intro d hd
    obtain ⟨e, he, rfl⟩ := h.borrowed d hd
    exact List.mem_map.mp (hperm.mem_iff.mpr (List.mem_map_of_mem he))
  · intro k hk
    obtain ⟨hregular, e, he, hpath, hinode⟩ := h.connected k hk
    refine ⟨hregular, e, List.mem_append_left _ (List.mem_filter.mpr ⟨he, ?_⟩), hpath, hinode⟩
    rw [decide_eq_true_eq]
    intro hstage
    exact hlive (h.hasLive.mpr ⟨k, hk, hpath.symm.trans hstage⟩)
  · rw [List.toFinset_eq_of_perm _ _ hperm]; exact h.count

theorem Kept.replaceIndex (h : w.Kept) {old : Descriptor} {path stage : String}
    (hold : old ∈ w.borrowers) (hok : w.replaceIndex old path stage = .ok w') : Holds w w' := by
  unfold Witnesses.replaceIndex at hok
  by_cases hchanged : w.named path ≠ some old.inode ∨ old.inode.regular = false
      ∨ w.nlink old.inode ≠ 1
  · rw [if_pos hchanged] at hok; cases hok
  rw [if_neg hchanged] at hok
  by_cases hlive : w.liveCount path old.inode ≠ 0
  · rw [if_pos hlive] at hok; cases hok
  rw [if_neg hlive] at hok
  split at hok
  · cases hok
  cases hentry : entryOf (w.files path) old.inode with
  | none => rw [hentry] at hok; cases hok
  | some e =>
      rw [hentry] at hok
      dsimp only at hok
      by_cases hstrong : w.strongCount e.file ≠ 2
      · rw [if_pos hstrong] at hok; cases hok
      rw [if_neg hstrong] at hok
      by_cases hstage : w.hasLive stage
      · rw [if_pos hstage] at hok; cases hok
      rw [if_neg hstage] at hok
      split at hok
      · cases hok
      split at hok
      · cases hok
      obtain rfl := Except.ok.inj hok
      obtain ⟨he, hinode⟩ := entryOf_eq_some hentry
      obtain ⟨hmem, hpath⟩ := mem_files.mp he
      -- the caller's witness is the second reference to the entry's descriptor
      have hregular : old.inode.regular = true := by
        by_contra hnot
        exact hchanged (Or.inr (Or.inl (Bool.not_eq_true _ ▸ hnot)))
      obtain ⟨e', he', hfile⟩ := h.borrowed old hold
      have hsame : e.file = old := by
        rw [← hfile]
        refine h.single e hmem e' he' (by rw [hinode]; exact hregular) ?_
        rw [hinode, hfile]
      have hreturned := h.giveBack old
      have hidle : ∀ x ∈ [e], Idle { w with borrowers := w.borrowers.erase old } x := by
        intro x hx
        rw [List.mem_singleton.mp hx]
        refine ⟨?_, ?_⟩
        · have hpos : 0 < w.borrowers.count old := List.count_pos_iff.mpr hold
          unfold strongCount at hstrong ⊢
          rw [hsame] at hstrong ⊢
          dsimp only
          rw [List.count_erase_self]
          omega
        · show w.liveCount e.path e.file.inode = 0
          rw [hpath, hinode]
          omega
      obtain ⟨hkept, hunused⟩ := hreturned.dropEntries (perm_erase hmem) hidle
      have hmoved := @Kept.moveStaged _ hkept stage path hstage
      exact ⟨hmoved, _, rfl, hunused⟩

theorem Kept.publishStaged (h : w.Kept) {path stage : String}
    (hok : w.publishStaged stage path = .ok w') : w'.Kept ∧ w'.closed = w.closed := by
  unfold Witnesses.publishStaged at hok
  by_cases hstage : w.hasLive stage
  · rw [if_pos hstage] at hok; cases hok
  rw [if_neg hstage] at hok
  split at hok
  · cases hok
  split at hok
  · cases hok
  split at hok
  · cases hok
  obtain rfl := Except.ok.inj hok
  exact ⟨h.moveStaged hstage, rfl⟩

theorem idle_unlinkOne {path : String} {e : Reference} (hidle : w.Idle e) :
    (w.unlinkOne path).Idle e := by
  refine ⟨?_, hidle.2⟩
  have hstrong := hidle.1
  have hless : (w.registry.byPath.filter fun x => x.path ≠ path).countP (fun x => x.file = e.file)
      ≤ w.registry.byPath.countP (fun x => x.file = e.file) :=
    List.filter_sublist.countP_le
  unfold strongCount at hstrong ⊢
  show List.countP _ (List.filter _ _) + w.borrowers.count e.file ≤ 1
  omega

theorem Kept.unlinkAll (paths : List (String × Inode)) :
    ∀ {w : Witnesses}, w.Kept → (∀ p ∈ paths, ∀ e ∈ w.files p.1, w.Idle e) →
      ∃ new, (paths.foldl (fun w p => w.unlinkOne p.1) w).closed = w.closed ++ new
        ∧ (paths.foldl (fun w p => w.unlinkOne p.1) w).Kept
        ∧ ∀ d ∈ new, (paths.foldl (fun w p => w.unlinkOne p.1) w).Unused d := by
  induction paths with
  | nil => intro w h _; exact ⟨[], (List.append_nil _).symm, h, by intro d hd; cases hd⟩
  | cons p paths ih =>
      intro w h hidle
      obtain ⟨hkept, hunused⟩ := (h.names (w.names.filter fun n => n.1 ≠ p.1)).dropEntries
        (w.perm_files p.1) (hidle p List.mem_cons_self)
      have hrest : ∀ q ∈ paths, ∀ e ∈ (w.unlinkOne p.1).files q.1, (w.unlinkOne p.1).Idle e := by
        intro q hq e he
        obtain ⟨hmem, hpath⟩ := mem_files.mp he
        refine idle_unlinkOne (hidle q (List.mem_cons_of_mem p hq) e (mem_files.mpr ⟨?_, hpath⟩))
        exact (List.mem_filter.mp hmem).1
      obtain ⟨new, hclosed, hafter, hnew⟩ := ih hkept hrest
      have hsame : ∀ ps : List (String × Inode), ∀ v : Witnesses,
          (ps.foldl (fun w p => w.unlinkOne p.1) v).connections = v.connections
            ∧ (ps.foldl (fun w p => w.unlinkOne p.1) v).borrowers = v.borrowers := by
        intro ps
        induction ps with
        | nil => exact fun v => ⟨rfl, rfl⟩
        | cons q ps ihs => exact fun v => ihs (v.unlinkOne q.1)
      refine ⟨(w.files p.1).map Reference.file ++ new, ?_, hafter, ?_⟩
      · rw [List.foldl_cons]
        refine hclosed.trans ?_
        rw [← List.append_assoc]
        rfl
      · intro d hd
        rcases List.mem_append.mp hd with hd | hd
        · obtain ⟨hconnections, hborrowers⟩ := hunused d hd
          unfold Unused
          rw [List.foldl_cons, (hsame paths _).1, (hsame paths _).2]
          exact ⟨hconnections, hborrowers⟩
        · exact hnew d hd

theorem Kept.gcUnlink (h : w.Kept) (paths : List (String × Inode)) (n : Nat) :
    Holds w (w.gcUnlink paths n) := by
  unfold Witnesses.gcUnlink
  by_cases hall : ∀ p ∈ paths, w.Unlinkable p
  · rw [if_pos hall]
    have hidle : ∀ p ∈ paths.take n, ∀ e ∈ w.files p.1, w.Idle e := by
      intro p hp e he
      obtain ⟨-, -, -, hlive, x, -, hfiles, hinode, hstrong⟩ := hall p (List.mem_of_mem_take hp)
      rw [hfiles] at he
      obtain rfl := List.mem_singleton.mp he
      have hpath : e.path = p.1 := (mem_files.mp (hfiles ▸ List.mem_singleton_self e)).2
      refine ⟨hstrong.le, ?_⟩
      rw [h.liveCount, List.count_eq_zero]
      exact fun hk => hlive (h.hasLive.mpr ⟨_, hk, hpath⟩)
    obtain ⟨new, hclosed, hkept, hunused⟩ := Kept.unlinkAll (paths.take n) h hidle
    exact ⟨hkept, new, hclosed, hunused⟩
  · rw [if_neg hall]; exact Holds.quiet h rfl

/-! ### Histories -/

theorem Holds.settle {r : Except String Witnesses} (h : w.Kept)
    (hok : ∀ w', r = .ok w' → Holds w w') : Holds w (w.settle r) := by
  cases r with
  | ok w' => exact hok w' rfl
  | error e => exact Holds.quiet h rfl

/-- **Every event keeps the invariant and closes nobody's descriptor.** -/
theorem holds_step (hstep : Step w w') (h : w.Kept) : Holds w w' := by
  obtain ⟨e, hpossible, rfl⟩ := hstep
  cases e with
  | retain path create fresh =>
      refine Holds.settle h fun w' hok => ?_
      obtain ⟨hkept, hclosed⟩ := h.retain hpossible hok
      exact Holds.quiet hkept hclosed
  | stage path fresh =>
      refine Holds.settle h fun w' hok => ?_
      obtain ⟨hkept, hclosed⟩ := h.stage hpossible hok
      exact Holds.quiet hkept hclosed
  | clone d =>
      show Holds w (if _ then _ else _)
      split
      · rename_i hd
        obtain ⟨e, he, rfl⟩ := h.borrowed d hd
        exact Holds.quiet (h.lend he) rfl
      · exact Holds.quiet h rfl
  | giveBack d => exact Holds.quiet (h.giveBack d) rfl
  | openConnection path opens =>
      refine Holds.settle h fun w' hok => ?_
      obtain ⟨hkept, hclosed⟩ := h.opens hok
      exact Holds.quiet hkept hclosed
  | closeConnection k =>
      show Holds w (if _ then _ else _)
      split
      · exact h.closeConnection k
      · exact Holds.quiet h rfl
  | retire path => exact h.retire path
  | releaseDeleted path inode failedStage => exact Holds.settle h fun w' hok => h.releaseDeleted hok
  | replace old path stage =>
      show Holds w (if _ then _ else _)
      split
      · rename_i hold
        have hreturned := h.giveBack old
        cases hresult : w.replaceIndex old path stage with
        | ok w' => exact h.replaceIndex hold hresult
        | error e => exact Holds.quiet hreturned rfl
      · exact Holds.quiet h rfl
  | publish stage path =>
      refine Holds.settle h fun w' hok => ?_
      obtain ⟨hkept, hclosed⟩ := h.publishStaged hok
      exact Holds.quiet hkept hclosed
  | unlink paths n => exact h.gcUnlink paths n
  | files names => exact Holds.quiet (h.names names) rfl

theorem Reached.kept (h : Reached w) : w.Kept := by
  have hstep : ∀ u v, Step u v → u.Kept → v.Kept := fun u v huv hu => (holds_step huv hu).kept
  refine Runs.Reachable.keeps ?_ hstep h
  rintro _ rfl
  exact kept_start

end Witnesses

/-- **SQLite file witnesses are never closed early.**  In every history the live count
of a path's inode is the number of connections open on it, the retained count is the
number of descriptors in the registry, and whoever has borrowed a descriptor has one the
registry retains, so that its strong count tells; and no event closes a descriptor of an
inode with an open connection, or of a regular file's inode with a borrower. -/
theorem sqlite_witnesses {w : Witnesses} (h : w.Reached) :
    (∀ path inode, w.liveCount path inode = w.connections.count ⟨path, inode⟩)
      ∧ w.registry.count = (w.registry.byPath.map Reference.file).toFinset.card
      ∧ (∀ d ∈ w.borrowers, ∃ e ∈ w.registry.byPath, e.file = d)
      ∧ ∀ w', Witnesses.Step w w' → ∃ new, w'.closed = w.closed ++ new
        ∧ ∀ d ∈ new, (∀ k ∈ w'.connections, k.inode ≠ d.inode)
          ∧ ∀ b ∈ w'.borrowers, d.inode.regular = true → b.inode ≠ d.inode :=
  ⟨h.kept.liveCount, h.kept.count, h.kept.borrowed,
    fun _ hstep => (Witnesses.holds_step hstep h.kept).closes⟩

theorem Witnesses.Reached.perform {w : Witnesses} (h : w.Reached) {e : Witnesses.Event}
    (he : w.Possible e) : (w.perform e).Reached :=
  Runs.Reachable.then h (.single ⟨e, he, rfl⟩)

/-- Two files with a connection each.  Both paths are retired, and the creator of the first
file still holds its descriptor. -/
def Witnesses.sample : Witnesses :=
  [.stage "/i/a.tmp" ⟨1, 2, true⟩, .publish "/i/a.tmp" "/i/a", .openConnection "/i/a" true,
    .retain "/i/b" true ⟨1, 3, true⟩, .giveBack ⟨1, ⟨1, 3, true⟩⟩, .openConnection "/i/b" true,
    .retire "/i/a", .retire "/i/b"].foldl Witnesses.perform Witnesses.start

theorem Witnesses.reached_sample : Witnesses.sample.Reached := by
  have hstart : Witnesses.start.Reached := Runs.Reachable.start rfl
  have hpublished := (hstart.perform (e := .stage "/i/a.tmp" ⟨1, 2, true⟩)
    ⟨rfl, by decide⟩).perform (e := .publish "/i/a.tmp" "/i/a") trivial
  have hopened := hpublished.perform (e := .openConnection "/i/a" true) trivial
  have hretained := (hopened.perform (e := .retain "/i/b" true ⟨1, 3, true⟩)
    ⟨rfl, by decide⟩).perform (e := .giveBack ⟨1, ⟨1, 3, true⟩⟩) trivial
  have hboth := hretained.perform (e := .openConnection "/i/b" true) trivial
  have hretired := (hboth.perform (e := .retire "/i/a") trivial).perform
    (e := .retire "/i/b") trivial
  unfold Witnesses.sample
  simpa only [List.foldl_cons, List.foldl_nil] using hretired

/-- Closing the second connection closes the second descriptor, and nobody is left on it. -/
theorem sqlite_witnesses_sample :
    (Witnesses.sample.liveCount "/i/a" ⟨1, 2, true⟩ = 1
        ∧ Witnesses.sample.liveCount "/i/a" ⟨1, 2, true⟩
          = Witnesses.sample.connections.count ⟨"/i/a", ⟨1, 2, true⟩⟩)
      ∧ (Witnesses.sample.registry.retired = ["/i/b", "/i/a"]
        ∧ Witnesses.sample.registry.count = 2
        ∧ Witnesses.sample.registry.count
          = (Witnesses.sample.registry.byPath.map Reference.file).toFinset.card)
      ∧ (Witnesses.sample.borrowers = [⟨0, ⟨1, 2, true⟩⟩]
        ∧ ∃ e ∈ Witnesses.sample.registry.byPath, e.file = ⟨0, ⟨1, 2, true⟩⟩)
      ∧ ∃ w', Witnesses.Step Witnesses.sample w' ∧ w'.closed = [⟨1, ⟨1, 3, true⟩⟩]
        ∧ ∃ new, w'.closed = Witnesses.sample.closed ++ new
          ∧ ∀ d ∈ new, (∀ k ∈ w'.connections, k.inode ≠ d.inode)
            ∧ ∀ b ∈ w'.borrowers, d.inode.regular = true → b.inode ≠ d.inode := by
  obtain ⟨hlive, hcount, hborrowed, hcloses⟩ := sqlite_witnesses Witnesses.reached_sample
  have hstep : Witnesses.Step Witnesses.sample
      (Witnesses.sample.perform (.closeConnection ⟨"/i/b", ⟨1, 3, true⟩⟩)) :=
    ⟨.closeConnection ⟨"/i/b", ⟨1, 3, true⟩⟩, trivial, rfl⟩
  exact ⟨⟨by decide +kernel, hlive _ _⟩, ⟨by decide +kernel, by decide +kernel, hcount⟩,
    ⟨by decide +kernel, hborrowed _ (by decide +kernel)⟩,
    _, hstep, by decide +kernel, hcloses _ hstep⟩

/-- **Borrowers are not in the live count.** -/
theorem live_count_without_borrowers :
    ¬ ∀ w : Witnesses, w.Reached → ∀ path inode, w.liveCount path inode
      = w.connections.count ⟨path, inode⟩ + w.borrowers.countP fun d => d.inode = inode := by
  intro hall
  have hcount := hall _ Witnesses.reached_sample "/i/a" ⟨1, 2, true⟩
  revert hcount
  decide +kernel

end Baleyg.Process
