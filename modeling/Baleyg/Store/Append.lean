/-
The writer inside a publication's transaction.

Header, input and manifest rows are new to every revision, and an INSERT of one
whose key is taken fails.  Parent and child rows are content-addressed and may be
there already, from an earlier revision or as what a release has not yet deleted:
the writer inserts a row whose key is absent and otherwise asks for the same row,
column by column.  It notes the parents it found and counts the child rows it was
given for each, and `finish` compares those counts with the tables.

`Appended` says everything a sequence of writes can have done, whatever was in the
tables before it.
-/
import Baleyg.Store.Evidence
import Baleyg.Lib.Fallible

namespace Baleyg.Store

open Fallible

/-- The points where something outside the database can stop a transaction: a
cancellation, a lost leader, a capture that no longer verifies, lock contention. -/
inductive Checkpoint where
  | admission
  | preflight
  | baseline
  | scan
  | write (index : Nat)
  | verify
  | hook
  | reverify
  | commit
  | probe
  | unit
  | priority
  deriving DecidableEq, Repr

inductive Failure where
  | stopped (point : Checkpoint)
  | conflict (expected found : IndexPin)
  | message (text : String)
  | constraint
  | pinExpired
  deriving DecidableEq, Repr

/-- What lies outside the database: which of the checkpoints it lets pass. -/
structure Outside where
  permits : Checkpoint → Bool

def Outside.quiet : Outside := ⟨fun _ => true⟩

@[simp] theorem Outside.quiet_permits (point : Checkpoint) :
    Outside.quiet.permits point = true := rfl

/-- A transaction body: it edits the connection's view of the database. -/
abbrev Tx := EStateM Failure Database

def checkpoint {σ : Type} (o : Outside) (point : Checkpoint) : EStateM Failure σ Unit :=
  ensure (o.permits point = true) (Failure.stopped point)

/-! ### Rows of a revision -/

def insertHeader (row : RevisionHeader) : Tx Unit := do
  let db ← get
  ensure (∀ h ∈ db.headers, h.pin ≠ row.pin) Failure.constraint
  set { db with headers := db.headers ++ [row] }

def insertInput (row : CaptureInput) : Tx Unit := do
  let db ← get
  ensure (∀ i ∈ db.inputs, (i.revision, i.inputKey) ≠ (row.revision, row.inputKey)) Failure.constraint
  set { db with inputs := db.inputs ++ [row] }

/-- Both keys of `revision_documents`. -/
def ManifestRow.clashes (m m' : ManifestRow) : Prop :=
  m.revision = m'.revision ∧ (m.ordinal = m'.ordinal
    ∨ (m.sourceSet = m'.sourceSet ∧ m.language = m'.language ∧ m.path = m'.path))

instance (m m' : ManifestRow) : Decidable (m.clashes m') :=
  inferInstanceAs (Decidable (_ ∧ _))

def insertManifest (row : ManifestRow) : Tx Unit := do
  let db ← get
  ensure (∀ m ∈ db.manifest, ¬ m.clashes row) Failure.constraint
  set { db with manifest := db.manifest ++ [row] }

/-! ### Content-addressed rows -/

/-- `ImmutableAppend` over the connection's view. -/
structure Draft where
  db : Database
  reused : List ParentKey
  expected : List (ChildTable × String)
  deriving DecidableEq, Repr

abbrev Append := EStateM Failure Draft

def Append.onDatabase {α : Type} (x : Tx α) : Append α :=
  zoom Draft.db (fun db d => { d with db := db }) x

def pendingMarker : String := "__pending_release:v1"

def releasedMarker : String := "__released:v1"

inductive Write where
  | header (row : RevisionHeader)
  | input (row : CaptureInput)
  | parent (row : Parent)
  | manifest (row : ManifestRow)
  | child (row : ChildRow)
  deriving DecidableEq, Repr

@[simp] def Draft.reuse (d : Draft) (k : ParentKey) : Draft := { d with reused := d.reused ++ [k] }

@[simp] def Draft.expect (d : Draft) (r : ChildRow) : Draft :=
  { d with expected := d.expected ++ [(r.table, r.owner)] }

@[simp] def Draft.addParent (d : Draft) (p : Parent) : Draft :=
  { d with db := { d.db with parents := d.db.parents ++ [p] } }

@[simp] def Draft.addChild (d : Draft) (r : ChildRow) : Draft :=
  { d with db := { d.db with children := d.db.children ++ [r] } }

def putParent (p : Parent) : Append Unit := do
  let d ← get
  if ∃ q ∈ d.db.parents, q.key = p.key then
    ensure (p ∈ d.db.parents)
      (Failure.message "incompatible_index: immutable row differs from captured evidence")
    set (d.reuse p.key)
  else
    set (d.addParent p)

def putChild (r : ChildRow) : Append Unit := do
  let d ← get
  if ∃ q ∈ d.db.children, q.primaryKey = r.primaryKey then
    ensure (r ∈ d.db.children)
      (Failure.message "incompatible_index: immutable row differs from captured evidence")
    set (d.expect r)
  else
    set ((d.addChild r).expect r)

def putInput (row : CaptureInput) : Append Unit := do
  ensure (row.inputKey ≠ releasedMarker ∧ row.inputKey ≠ pendingMarker)
    (Failure.message "native_evidence_required: reserved release marker")
  Append.onDatabase (insertInput row)

def put : Write → Append Unit
  | .header row => Append.onDatabase (insertHeader row)
  | .input row => putInput row
  | .manifest row => Append.onDatabase (insertManifest row)
  | .parent p => putParent p
  | .child r => putChild r

/-- The writes in order, each of which something outside may stop. -/
def putAll (o : Outside) (ws : List Write) : Append Unit :=
  ws.zipIdx.forM fun w => do
    checkpoint o (.write w.2)
    put w.1

/-- `ImmutableAppend::finish`: a parent that was there already has as many child
rows, table by table, as were written for it. -/
def Draft.Complete (d : Draft) : Prop :=
  ∀ k ∈ d.reused, ∀ t ∈ k.kind.children,
    (d.db.children.filter fun r => r.table = t ∧ r.owner = k.id).length
      = d.expected.count (t, k.id)

instance (d : Draft) : Decidable d.Complete :=
  inferInstanceAs (Decidable (∀ k ∈ d.reused, ∀ t ∈ k.kind.children, _))

def finish : Append Unit := do
  let d ← get
  ensure d.Complete (Failure.message "incompatible_index: incomplete immutable rows")

/-! ### What a sequence of writes does -/

namespace Write

@[simp] def header? : Write → Option RevisionHeader
  | header row => some row
  | _ => none

@[simp] def input? : Write → Option CaptureInput
  | input row => some row
  | _ => none

@[simp] def manifest? : Write → Option ManifestRow
  | manifest row => some row
  | _ => none

@[simp] def parent? : Write → Option Parent
  | parent p => some p
  | _ => none

@[simp] def child? : Write → Option ChildRow
  | child r => some r
  | _ => none

end Write

/-- The rows of a table that was only appended to, the added ones among those given. -/
def Grown {α : Type} (given base rows : List α) : Prop :=
  ∃ added, rows = base ++ added ∧ ∀ a ∈ added, a ∈ given

namespace Grown

variable {α : Type} {given base rows : List α}

theorem refl (given base : List α) : Grown given base base :=
  ⟨[], (List.append_nil base).symm, by intro a ha; cases ha⟩

theorem mem (h : Grown given base rows) {a : α} (ha : a ∈ base) : a ∈ rows := by
  obtain ⟨added, rfl, -⟩ := h
  exact List.mem_append_left added ha

theorem cases (h : Grown given base rows) {a : α} (ha : a ∈ rows) : a ∈ base ∨ a ∈ given := by
  obtain ⟨added, rfl, hin⟩ := h
  exact (List.mem_append.mp ha).imp_right (hin a)

theorem give (h : Grown given base rows) (a : α) : Grown (given ++ [a]) base rows := by
  obtain ⟨added, hadded, hin⟩ := h
  exact ⟨added, hadded, fun b hb => List.mem_append_left _ (hin b hb)⟩

theorem add (h : Grown given base rows) (a : α) : Grown (given ++ [a]) base (rows ++ [a]) := by
  obtain ⟨added, rfl, hin⟩ := h
  refine ⟨added ++ [a], List.append_assoc _ _ _, fun b hb => ?_⟩
  rcases List.mem_append.mp hb with hb | hb
  · exact List.mem_append_left _ (hin b hb)
  · exact List.mem_append_right _ hb

end Grown

/-- **Everything the writing of these rows can have done.** -/
structure Appended (hs : List RevisionHeader) (is : List CaptureInput) (ms : List ManifestRow)
    (ps : List Parent) (rs : List ChildRow) (base db : Database) : Prop where
  metadata : db.metadata = base.metadata
  supersessions : db.supersessions = base.supersessions
  debt : db.debt = base.debt
  candidates : db.candidates = base.candidates
  headers : db.headers = base.headers ++ hs
  headersKeyed : Table.Keyed RevisionHeader.pin base.headers →
    Table.Keyed RevisionHeader.pin db.headers
  inputs : db.inputs = base.inputs ++ is
  inputsKeyed : Table.Keyed (fun i : CaptureInput => (i.revision, i.inputKey)) base.inputs →
    Table.Keyed (fun i : CaptureInput => (i.revision, i.inputKey)) db.inputs
  unreserved : ∀ i ∈ is, i.inputKey ≠ releasedMarker ∧ i.inputKey ≠ pendingMarker
  manifest : db.manifest = base.manifest ++ ms
  manifestApart : base.manifest.Pairwise (fun m m' => ¬ m.clashes m') →
    db.manifest.Pairwise fun m m' => ¬ m.clashes m'
  parents : Grown ps base.parents db.parents
  parentsKeyed : Table.Keyed Parent.key base.parents → Table.Keyed Parent.key db.parents
  parentsPresent : ∀ p ∈ ps, p ∈ db.parents
  children : Grown rs base.children db.children
  childrenKeyed : Table.Keyed ChildRow.primaryKey base.children →
    Table.Keyed ChildRow.primaryKey db.children
  childrenPresent : ∀ r ∈ rs, r ∈ db.children

namespace Appended

variable {hs : List RevisionHeader} {is : List CaptureInput} {ms : List ManifestRow}
  {ps : List Parent} {rs : List ChildRow} {base db : Database}

theorem refl (db : Database) : Appended [] [] [] [] [] db db where
  metadata := rfl
  supersessions := rfl
  debt := rfl
  candidates := rfl
  headers := (List.append_nil _).symm
  headersKeyed := id
  inputs := (List.append_nil _).symm
  inputsKeyed := id
  unreserved := by intro i h; cases h
  manifest := (List.append_nil _).symm
  manifestApart := id
  parents := Grown.refl _ _
  parentsKeyed := id
  parentsPresent := by intro p h; cases h
  children := Grown.refl _ _
  childrenKeyed := id
  childrenPresent := by intro r h; cases h

theorem header (h : Appended hs is ms ps rs base db) {row : RevisionHeader}
    (hfresh : ∀ r ∈ db.headers, r.pin ≠ row.pin) :
    Appended (hs ++ [row]) is ms ps rs base { db with headers := db.headers ++ [row] } :=
  { h with
    headers := by rw [h.headers, List.append_assoc]
    headersKeyed := fun hbase => (h.headersKeyed hbase).append_row hfresh }

theorem input (h : Appended hs is ms ps rs base db) {row : CaptureInput}
    (hkey : row.inputKey ≠ releasedMarker ∧ row.inputKey ≠ pendingMarker)
    (hfresh : ∀ i ∈ db.inputs, (i.revision, i.inputKey) ≠ (row.revision, row.inputKey)) :
    Appended hs (is ++ [row]) ms ps rs base { db with inputs := db.inputs ++ [row] } :=
  { h with
    inputs := by rw [h.inputs, List.append_assoc]
    inputsKeyed := fun hbase => (h.inputsKeyed hbase).append_row hfresh
    unreserved := by
      intro i hi
      rcases List.mem_append.mp hi with hi | hi
      · exact h.unreserved i hi
      · rw [List.mem_singleton.mp hi]; exact hkey }

theorem manifestRow (h : Appended hs is ms ps rs base db) {row : ManifestRow}
    (hfresh : ∀ m ∈ db.manifest, ¬ m.clashes row) :
    Appended hs is (ms ++ [row]) ps rs base { db with manifest := db.manifest ++ [row] } :=
  { h with
    manifest := by rw [h.manifest, List.append_assoc]
    manifestApart := fun hbase => by
      rw [List.pairwise_append]
      refine ⟨h.manifestApart hbase, List.pairwise_singleton _ _, fun m hm m' hm' => ?_⟩
      rw [List.mem_singleton.mp hm']
      exact hfresh m hm }

theorem parentAdded (h : Appended hs is ms ps rs base db) {p : Parent}
    (hfresh : ∀ q ∈ db.parents, q.key ≠ p.key) :
    Appended hs is ms (ps ++ [p]) rs base { db with parents := db.parents ++ [p] } :=
  { h with
    parents := h.parents.add p
    parentsKeyed := fun hbase => (h.parentsKeyed hbase).append_row hfresh
    parentsPresent := by
      intro q hq
      rcases List.mem_append.mp hq with hq | hq
      · exact List.mem_append_left _ (h.parentsPresent q hq)
      · exact List.mem_append_right _ hq }

theorem parentReused (h : Appended hs is ms ps rs base db) {p : Parent} (hp : p ∈ db.parents) :
    Appended hs is ms (ps ++ [p]) rs base db :=
  { h with
    parents := h.parents.give p
    parentsPresent := by
      intro q hq
      rcases List.mem_append.mp hq with hq | hq
      · exact h.parentsPresent q hq
      · rw [List.mem_singleton.mp hq]; exact hp }

theorem childAdded (h : Appended hs is ms ps rs base db) {r : ChildRow}
    (hfresh : ∀ q ∈ db.children, q.primaryKey ≠ r.primaryKey) :
    Appended hs is ms ps (rs ++ [r]) base { db with children := db.children ++ [r] } :=
  { h with
    children := h.children.add r
    childrenKeyed := fun hbase => (h.childrenKeyed hbase).append_row hfresh
    childrenPresent := by
      intro q hq
      rcases List.mem_append.mp hq with hq | hq
      · exact List.mem_append_left _ (h.childrenPresent q hq)
      · exact List.mem_append_right _ hq }

theorem childReused (h : Appended hs is ms ps rs base db) {r : ChildRow} (hr : r ∈ db.children) :
    Appended hs is ms ps (rs ++ [r]) base db :=
  { h with
    children := h.children.give r
    childrenPresent := by
      intro q hq
      rcases List.mem_append.mp hq with hq | hq
      · exact h.childrenPresent q hq
      · rw [List.mem_singleton.mp hq]; exact hr }

end Appended

/-- The rows a list of writes is about, table by table. -/
def Wrote (ws : List Write) (base db : Database) : Prop :=
  Appended (ws.filterMap Write.header?) (ws.filterMap Write.input?)
    (ws.filterMap Write.manifest?) (ws.filterMap Write.parent?) (ws.filterMap Write.child?)
    base db

variable {ws : List Write} {db base : Database}

theorem wrote_snoc {w : Write} : Wrote (ws ++ [w]) base db ↔
      Appended (ws.filterMap Write.header? ++ w.header?.toList)
        (ws.filterMap Write.input? ++ w.input?.toList)
        (ws.filterMap Write.manifest? ++ w.manifest?.toList)
        (ws.filterMap Write.parent? ++ w.parent?.toList)
        (ws.filterMap Write.child? ++ w.child?.toList) base db := by
  unfold Wrote
  simp only [List.filterMap_append]
  cases w <;> rfl

theorem insertHeader_wrote (h : Wrote ws base db) (row : RevisionHeader) :
    Yields (insertHeader row) db (fun _ db' => Wrote (ws ++ [.header row]) base db')
      fun _ _ => True := by
  simp only [insertHeader, yields_bind, yields_get, yields_ensure, yields_set, implies_true,
    and_true]
  intro hfresh
  have hrow := h.header hfresh
  rw [wrote_snoc]
  simpa using hrow

theorem insertInput_wrote (h : Wrote ws base db) {row : CaptureInput}
    (hkey : row.inputKey ≠ releasedMarker ∧ row.inputKey ≠ pendingMarker) :
    Yields (insertInput row) db (fun _ db' => Wrote (ws ++ [.input row]) base db')
      fun _ _ => True := by
  simp only [insertInput, yields_bind, yields_get, yields_ensure, yields_set, implies_true,
    and_true]
  intro hfresh
  have hrow := h.input hkey hfresh
  rw [wrote_snoc]
  simpa using hrow

theorem insertManifest_wrote (h : Wrote ws base db) (row : ManifestRow) :
    Yields (insertManifest row) db (fun _ db' => Wrote (ws ++ [.manifest row]) base db')
      fun _ _ => True := by
  simp only [insertManifest, yields_bind, yields_get, yields_ensure, yields_set, implies_true,
    and_true]
  intro hfresh
  have hrow := h.manifestRow hfresh
  rw [wrote_snoc]
  simpa using hrow

theorem put_wrote {d : Draft} (h : Wrote ws base d.db) (w : Write) :
    Yields (put w) d (fun _ d' => Wrote (ws ++ [w]) base d'.db) fun _ _ => True := by
  cases w with
  | header row =>
      show Yields (Append.onDatabase (insertHeader row)) d _ _
      unfold Append.onDatabase
      rw [yields_zoom]
      exact insertHeader_wrote h row
  | input row =>
      simp only [put, putInput, Append.onDatabase, yields_bind, yields_ensure, yields_zoom,
        implies_true, and_true]
      intro hkey
      exact insertInput_wrote h hkey
  | manifest row =>
      show Yields (Append.onDatabase (insertManifest row)) d _ _
      unfold Append.onDatabase
      rw [yields_zoom]
      exact insertManifest_wrote h row
  | parent p =>
      simp only [put, putParent, yields_bind, yields_get]
      by_cases hex : ∃ q ∈ d.db.parents, q.key = p.key
      · simp only [if_pos hex, yields_bind, yields_ensure, yields_set, implies_true, and_true]
        intro hp
        have hrow := h.parentReused hp
        rw [wrote_snoc]
        simpa using hrow
      · simp only [if_neg hex, yields_set]
        have hrow := h.parentAdded fun q hq hk => hex ⟨q, hq, hk⟩
        rw [wrote_snoc]
        simpa using hrow
  | child r =>
      simp only [put, putChild, yields_bind, yields_get]
      by_cases hex : ∃ q ∈ d.db.children, q.primaryKey = r.primaryKey
      · simp only [if_pos hex, yields_bind, yields_ensure, yields_set, implies_true, and_true]
        intro hr
        have hrow := h.childReused hr
        rw [wrote_snoc]
        simpa using hrow
      · simp only [if_neg hex, yields_set]
        have hrow := h.childAdded fun q hq hk => hex ⟨q, hq, hk⟩
        rw [wrote_snoc]
        simpa using hrow

/-- **The writes of a publication did what `Appended` says, all of them.** -/
theorem putAll_wrote (o : Outside) (ws : List Write) (d : Draft) :
    Yields (putAll o ws) d (fun _ d' => Wrote ws d.db d'.db) fun _ _ => True := by
  unfold putAll
  have hloop : Yields (ws.zipIdx.forM fun w => do
      checkpoint o (.write w.2)
      put w.1) d (fun _ d' => Wrote (ws.zipIdx.map Prod.fst) d.db d'.db) fun _ _ => True := by
    have hstart : Wrote (([] : List (Write × Nat)).map Prod.fst) d.db d.db := Appended.refl d.db
    have hkeep := @yields_forM Draft Failure (Write × Nat) d (fun _ _ => True)
      (fun w => do
        checkpoint o (.write w.2)
        put w.1) ws.zipIdx fun done d' => Wrote (done.map Prod.fst) d.db d'.db
    refine hkeep (fun done w _ d' h => ?_) hstart
    rw [yields_bind]
    unfold checkpoint
    rw [yields_ensure]
    refine ⟨fun _ => ?_, fun _ => trivial⟩
    rw [List.map_append]
    exact put_wrote h w.1
  rwa [List.zipIdx_map_fst] at hloop

end Baleyg.Store
