/-
What an admitted capture holds.

A capture is admitted one input at a time, and nothing says that the file system stands still
meanwhile; what it answers is arbitrary here, as far as the checks let it be.  At the end every
input is verified: the running executable against what it was at the start of the process, and
every other input that is there against its bytes, which are read once more.

From the two together follows what both readers of the inputs rely on (`Held`): an input that
was absent has no bytes, one that was present has as many as its stamp says, and the executable
stands for itself by its digest.
-/
import Baleyg.Change.Inputs

namespace Baleyg.Change

open Native (Bytes rootInputs selectors)

/-! ### Admission -/

structure Admission where
  identities : List ((Nat × Nat) × Path)
  inputs : List (Path × Option Stamp)
  inputBytes : List (Path × Option Allocation)

def record {β : Type} (path : Path) (value : β) (m : List (Path × β)) : List (Path × β) :=
  (path, value) :: m.filter fun entry => entry.1 != path

namespace Admission

def empty : Admission := ⟨[], [], []⟩

/-- The end of `admit_input`. -/
def admitted (a : Admission) (path : Path) (state : Option Stamp) (bytes : Option Allocation) :
    Admission where
  identities :=
    match state with
    | none => a.identities
    | some item =>
        if (a.identities.lookup item.identity).isSome then a.identities
        else (item.identity, path) :: a.identities
  inputs := record path state a.inputs
  inputBytes := record path bytes a.inputBytes

end Admission

/-- `regular_read`, of a file that is not larger than `cap`. -/
structure RegularRead (cap : Nat) (expected : Stamp) (bytes : Bytes) : Prop where
  kind : expected.kind = 2
  cap : expected.len ≤ cap
  length : bytes.length = expected.len

inductive AdmitInput (sources : List (Nat × Nat)) (cap : Nat) (path : Path) (a : Admission) :
    Admission → Prop where
  | absent : AdmitInput sources cap path a (a.admitted path none none)
  /-- Another path names the same file, and has not changed since. -/
  | aliased (item : Stamp) (old : Path) (state : Option Stamp) (bytes : Option Allocation)
      (hkind : item.kind = 2 ∧ item.len ≤ cap) (hsource : item.identity ∉ sources)
      (hold : a.identities.lookup item.identity = some old)
      (hstate : a.inputs.lookup old = some state) (hbytes : a.inputBytes.lookup old = some bytes) :
      AdmitInput sources cap path a (a.admitted path (some item) bytes)
  | read (item : Stamp) (entry : Allocation)
      (hkind : item.kind = 2 ∧ item.len ≤ cap) (hsource : item.identity ∉ sources)
      (hnew : a.identities.lookup item.identity = none)
      (hread : RegularRead cap item entry.bytes) :
      AdmitInput sources cap path a (a.admitted path (some item) (some entry))

inductive AdmitInputs (sources : List (Nat × Nat)) (cap : Nat) :
    List Path → Admission → Admission → Prop where
  | nil (a : Admission) : AdmitInputs sources cap [] a a
  | cons {path : Path} {paths : List Path} {a b d : Admission}
      (hfirst : AdmitInput sources cap path a b) (hrest : AdmitInputs sources cap paths b d) :
      AdmitInputs sources cap (path :: paths) a d

/-- `admit_running_executable`. -/
structure AdmitRunning (sources : List (Nat × Nat)) (image : RunningExecutable)
    (a b : Admission) : Prop where
  source : image.initial.identity ∉ sources
  path : a.inputs.lookup image.path = none
  identity : a.identities.lookup image.initial.identity = none
  result : b = ⟨(image.initial.identity, image.path) :: a.identities,
    record image.path (some image.initial) a.inputs, record image.path none a.inputBytes⟩

/-- The root inputs, and the ignore files of all directories. -/
def sitePaths (root : Path) (inventory : List (Path × Stamp)) : List Path :=
  allRootInputs.map (fun name => root ++ [.text name]) ++
    (inventory.filter fun entry => entry.2.kind = 1).flatMap fun entry =>
      [entry.1 ++ [.text ".gitignore"], entry.1 ++ [.text ".ignore"]]

namespace Capture

def inputCap (c : Capture) (path : Path) : Nat :=
  if path = c.executablePath then 512 * 1024 * 1024
  else if c.reconcileOptions.scipPath = Path.toStr path ∨
      c.reconcileOptions.manifestPath = Path.toStr path then 256 * 1024 * 1024
  else 16 * 1024 * 1024

/-- `verify`, of one input. -/
def VerifiedInput (c : Capture) (path : Path) (expected : Option Stamp) : Prop :=
  if path = c.executablePath ∧ c.runningExecutable.isSome = true then
    ∀ image, c.runningExecutable = some image →
      path = image.path ∧ expected = some image.initial ∧ c.inputBytes.lookup path = some none
  else
    ∀ state, expected = some state → ∃ now, RegularRead (c.inputCap path) state now ∧
      (c.inputBytes.lookup path).join.map Allocation.bytes = some now

/-- **`admit`**, with the executable that runs. -/
structure Admitted (host : Host) (options : IndexOptions) (image : RunningExecutable)
    (c : Capture) : Prop where
  admission : ∃ sources first second last,
    AdmitInputs sources (min options.maxFileBytes (16 * 1024 * 1024))
      (sitePaths c.root c.inventory) .empty first ∧
    AdmitRunning sources image first second ∧
    AdmitInputs sources (256 * 1024 * 1024)
      (options.scipPath.toList ++ options.manifestPath.toList) second last ∧
    c.inputs = last.inputs ∧ c.inputBytes = last.inputBytes
  running : c.runningExecutable = some image
  executablePath : c.executablePath = image.path
  executableBytes : c.executableBytes = none
  executableDigest : c.executableDigest = image.digest
  options : c.reconcileOptions = options.reconcile host
  verified : ∀ input ∈ c.inputs, c.VerifiedInput input.1 input.2

end Capture

/-! ### What is admitted stays -/

section Records

variable {β : Type} {path other : Path} {value : β} {m : List (Path × β)}

@[simp] theorem lookup_record_same : (record path value m).lookup path = some value := by
  simp [record]

theorem lookup_record_other (h : other ≠ path) :
    (record path value m).lookup other = m.lookup other := by
  unfold record
  rw [List.lookup_cons, beq_eq_false_iff_ne.mpr h]
  show (m.filter fun entry => entry.1 != path).lookup other = m.lookup other
  induction m with
  | nil => rfl
  | cons entry m ih =>
      by_cases hentry : entry.1 = path
      · rw [List.filter_cons_of_neg (by simp [hentry]), ih, List.lookup_cons, hentry,
          beq_eq_false_iff_ne.mpr h]
      · rw [List.filter_cons_of_pos (by simp [hentry]), List.lookup_cons, List.lookup_cons, ih]

theorem keys_record (h : (m.map Prod.fst).Nodup) : ((record path value m).map Prod.fst).Nodup := by
  unfold record
  rw [List.map_cons, List.nodup_cons]
  refine ⟨fun hmem => ?_, h.sublist (List.Sublist.map _ List.filter_sublist)⟩
  obtain ⟨entry, hentry, hsame⟩ := List.mem_map.mp hmem
  rw [List.mem_filter] at hentry
  simp [hsame] at hentry

end Records

structure Admission.Sound (a : Admission) : Prop where
  keys : (a.inputs.map Prod.fst).Nodup
  absent : ∀ path, a.inputs.lookup path = some none → a.inputBytes.lookup path = some none

/-- What was admitted under some path still is, and for the path that is admitted now. -/
def Admission.Grows (a b : Admission) : Prop :=
  ∀ path, (a.inputs.lookup path).isSome = true → (b.inputs.lookup path).isSome = true

section Admissions

variable {sources : List (Nat × Nat)} {cap : Nat} {path : Path} {paths : List Path}
  {a b : Admission} {state : Option Stamp} {bytes : Option Allocation}
  {image : RunningExecutable}

theorem sound_record (h : a.Sound) (hbytes : state = none → bytes = none)
    {identities : List ((Nat × Nat) × Path)} :
    Admission.Sound ⟨identities, record path state a.inputs, record path bytes a.inputBytes⟩ := by
  refine ⟨keys_record h.keys, fun other hother => ?_⟩
  by_cases hsame : other = path
  · subst hsame
    rw [lookup_record_same, Option.some.injEq] at hother
    rw [lookup_record_same, hbytes hother]
  · rw [lookup_record_other hsame] at hother ⊢
    exact h.absent other hother

theorem grows_record {identities : List ((Nat × Nat) × Path)} :
    a.Grows ⟨identities, record path state a.inputs, record path bytes a.inputBytes⟩ := by
  intro other hother
  by_cases hsame : other = path
  · subst hsame; simp
  · rw [lookup_record_other hsame]; exact hother

theorem AdmitInput.sound (h : AdmitInput sources cap path a b) (ha : a.Sound) : b.Sound := by
  cases h with
  | absent => exact sound_record ha fun _ => rfl
  | aliased item old state bytes hkind hsource hold hstate hbytes =>
      exact sound_record ha fun hnone => by cases hnone
  | read item entry hkind hsource hnew hread => exact sound_record ha fun hnone => by cases hnone

theorem AdmitInput.grows (h : AdmitInput sources cap path a b) :
    a.Grows b ∧ (b.inputs.lookup path).isSome = true := by
  cases h <;> exact ⟨grows_record, by simp [Admission.admitted]⟩

theorem AdmitInputs.sound (h : AdmitInputs sources cap paths a b) (ha : a.Sound) : b.Sound := by
  induction h with
  | nil => exact ha
  | cons hfirst hrest ih => exact ih (hfirst.sound ha)

theorem AdmitInputs.grows (h : AdmitInputs sources cap paths a b) :
    a.Grows b ∧ ∀ path ∈ paths, (b.inputs.lookup path).isSome = true := by
  induction h with
  | nil => exact ⟨fun _ hpath => hpath, fun _ hpath => absurd hpath List.not_mem_nil⟩
  | @cons path paths a b d hfirst hrest ih =>
      obtain ⟨hgrows, hall⟩ := ih
      refine ⟨fun other hother => hgrows other (hfirst.grows.1 other hother), fun other hother => ?_⟩
      rcases List.mem_cons.mp hother with rfl | hother
      · exact hgrows _ hfirst.grows.2
      · exact hall other hother

theorem AdmitRunning.sound (h : AdmitRunning sources image a b) (ha : a.Sound) : b.Sound := by
  rw [h.result]
  exact sound_record ha fun hnone => by cases hnone

theorem AdmitRunning.grows (h : AdmitRunning sources image a b) :
    a.Grows b ∧ (b.inputs.lookup image.path).isSome = true := by
  rw [h.result]
  exact ⟨grows_record, by simp⟩

end Admissions

/-! ### What both readers of the inputs rely on -/

inductive Capture.Held (c : Capture) (path : Path) : Option Stamp → Prop where
  | absent (hbytes : c.inputBytes.lookup path = some none) : Held c path none
  | running (stat : Stamp) (hpath : path = c.executablePath)
      (hrunning : c.runningExecutable.isSome = true) (hkind : stat.kind = 2)
      (hbytes : c.inputBytes.lookup path = some none)
      (hdigest : c.digestOf path = some c.executableDigest) : Held c path (some stat)
  | present (stat : Stamp) (entry : Allocation) (hpath : path ≠ c.executablePath)
      (hkind : stat.kind = 2) (hlen : stat.len = entry.bytes.length)
      (hbytes : c.inputBytes.lookup path = some (some entry)) : Held c path (some stat)

namespace Capture.Admitted

variable {host : Host} {options : IndexOptions} {image : RunningExecutable} {c : Capture}

theorem sound (h : c.Admitted host options image) :
    (c.inputs.map Prod.fst).Nodup ∧
      ∀ path, c.inputs.lookup path = some none → c.inputBytes.lookup path = some none := by
  obtain ⟨sources, first, second, last, hfirst, hsecond, hlast, hinputs, hbytes⟩ := h.admission
  have hempty : Admission.empty.Sound := ⟨List.nodup_nil, fun _ hpath => by cases hpath⟩
  have hsound := hlast.sound (hsecond.sound (hfirst.sound hempty))
  rw [hinputs, hbytes]
  exact ⟨hsound.keys, hsound.absent⟩

/-- The root inputs and the ignore files are there, and so is the executable. -/
theorem has (h : c.Admitted host options image) :
    (∀ path ∈ sitePaths c.root c.inventory, ∃ state, (path, state) ∈ c.inputs) ∧
      ∃ state, (c.executablePath, state) ∈ c.inputs := by
  obtain ⟨sources, first, second, last, hfirst, hsecond, hlast, hinputs, -⟩ := h.admission
  have hmem : ∀ path, (last.inputs.lookup path).isSome = true →
      ∃ state, (path, state) ∈ c.inputs := fun path hpath => by
    obtain ⟨state, hstate⟩ := Option.isSome_iff_exists.mp hpath
    rw [hinputs]
    exact ⟨state, Lookup.mem_of_lookup hstate⟩
  refine ⟨fun path hpath => hmem path ?_, hmem _ ?_⟩
  · exact hlast.grows.1 path (hsecond.grows.1 path (hfirst.grows.2 path hpath))
  · rw [h.executablePath]; exact hlast.grows.1 _ hsecond.grows.2

/-- **Whatever was admitted is held.** -/
theorem held (h : c.Admitted host options image) {path : Path} {expected : Option Stamp}
    (hmem : (path, expected) ∈ c.inputs) : c.Held path expected := by
  obtain ⟨hkeys, habsent⟩ := h.sound
  have hlookup := Lookup.lookup_of_nodup hmem hkeys
  have hverified : c.VerifiedInput path expected := h.verified _ hmem
  have hrunning : c.runningExecutable.isSome = true := by
    rw [h.running]
    rfl
  unfold Capture.VerifiedInput at hverified
  by_cases hpath : path = c.executablePath
  · rw [if_pos ⟨hpath, hrunning⟩] at hverified
    obtain ⟨-, hexpected, hbytes⟩ := hverified image h.running
    rw [hexpected] at hlookup ⊢
    refine .running _ hpath hrunning image.regular hbytes ?_
    unfold Capture.digestOf
    rw [if_neg (not_not.mpr hpath), h.running]
    simp [hlookup, hbytes, h.executableBytes, h.executableDigest]
  · rw [if_neg fun hboth => hpath hboth.1] at hverified
    cases expected with
    | none => exact .absent (habsent path hlookup)
    | some stat =>
        obtain ⟨now, hread, hnow⟩ := hverified stat rfl
        rw [Option.map_eq_some_iff] at hnow
        obtain ⟨entry, hentry, rfl⟩ := hnow
        exact .present stat entry hpath hread.kind hread.length.symm (Option.join_eq_some_iff.mp hentry)

end Capture.Admitted

end Baleyg.Change
