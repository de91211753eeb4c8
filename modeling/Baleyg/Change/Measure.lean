/-
Measuring a change by what is stored.

Whether an edit is local is measured between two captures, or between a capture and what is
stored of the one before.  The stored form has no bytes, no executable and no presentation to
compare; it has an observation for every role an input plays.  It serves, because the
fingerprint of an admitted capture is a projection of what is stored of it
(`fingerprints_of_persisted`): the roles that native evidence depends on, each with its digest.
Equal observations then have equal digests, and everything else is compared alike.

The stored comparison also compares stamps, so it may find a change where the other finds none,
and then asks for a full measurement.
-/
import Baleyg.Change.Admission

namespace Baleyg.Change

open Fallible (ensure bind_eq_ok ensure_bind_eq_ok ensure_eq_ok mapM_eq_ok)
open Native (Bytes SourceFile rootInputs selectors startsWith)

/-! ### The two measures -/

inductive CapturedChange where
  | unchanged
  | documentLocal (path : String)
  | fullNative (reason : String)
  deriving DecidableEq

/-- A map of the files by their paths: the last of a path is the one that counts. -/
def lastOfEach : List SourceFile → List SourceFile
  | [] => []
  | f :: files =>
      if f.path ∈ files.map SourceFile.path then lastOfEach files else f :: lastOfEach files

def byPath (files : List SourceFile) : List SourceFile :=
  (lastOfEach files).mergeSort fun f g => decide (f.path ≤ g.path)

/-- The loop over the files, which stops at a reason for a full measurement. -/
def changedPair : List (SourceFile × SourceFile) → Option (SourceFile × SourceFile) →
    Except String (Option (SourceFile × SourceFile))
  | [], changed => pure changed
  | (old, new) :: rest, changed => do
      ensure (old.language = new.language) "source language changed"
      if old.hash = new.hash then changedPair rest changed
      else do
        ensure (changed.isNone = true) "multiple source documents changed"
        changedPair rest (some (old, new))

/-- What the files say, and which of them are looked at closely. -/
def compareFiles (host : Host) (previous current : List SourceFile) :
    CapturedChange × List String :=
  let before := byPath previous
  let after := byPath current
  if before.map SourceFile.path ≠ after.map SourceFile.path then
    (.fullNative "source inventory changed (add/delete/rename)", [])
  else
    match changedPair (before.zip after) none with
    | .error reason => (.fullNative reason, [])
    | .ok none => (.unchanged, [])
    | .ok (some (old, new)) =>
        (if host.provedBodyOnly old new then .documentLocal old.path
          else .fullNative "cross-file effect not proved local", [old.path])

/-- `measure_captured_change_observed`, with what is shown to its visitor. -/
def measureCapturedChangeObserved (host : Host) (previous current : Capture) :
    CapturedChange × List String :=
  if previous.reconcileOptions ≠ current.reconcileOptions then
    (.fullNative "capture admission changed", [])
  else
    match previous.nativeInputFingerprints host, current.nativeInputFingerprints host with
    | .ok previousNative, .ok currentNative =>
        if ¬ previousNative.Perm currentNative then
          (.fullNative "captured native input changed", [])
        else compareFiles host previous.files current.files
    | _, _ => (.fullNative "native input authentication unavailable", [])

/-- What is read of the revision before: its files, its options and its inputs. -/
structure Snapshot where
  files : List SourceFile
  options : ReconcileOptions
  inputs : List (String × Observation)

def measurePersistedChange (host : Host) (previous : Snapshot) (current : Capture) :
    Except String CapturedChange :=
  if previous.options ≠ current.reconcileOptions then
    pure (.fullNative "capture admission changed")
  else do
    let currentInputs ← current.persistedInputs host
    if ¬ (previous.inputs.filter fun entry => nativeKey entry.1).Perm
        (currentInputs.filter fun entry => nativeKey entry.1) then
      pure (.fullNative "captured native input changed")
    else pure (compareFiles host previous.files current.files).1

/-- **The snapshot is what was stored of a capture.**  No path was stored twice. -/
structure Snapshot.Records (host : Host) (base : Capture) (s : Snapshot) : Prop where
  inputs : ∃ stored, base.persistedInputs host = .ok stored ∧ s.inputs.Perm stored
  options : s.options = base.reconcileOptions
  files : s.files.Perm base.files
  paths : (s.files.map SourceFile.path).Nodup

/-! ### Keys -/

theorem startsWith_append (lead rest : String) : startsWith (lead ++ rest) lead = true := by
  unfold startsWith
  rw [String.toList_append, ← String.length_toList, List.take_left, beq_self_eq_true]

theorem startsWith_of_head {value lead : String} (hlead : lead.toList ≠ [])
    (h : value.toList.head? ≠ lead.toList.head?) : startsWith value lead = false := by
  unfold startsWith
  rw [beq_eq_false_iff_ne]
  intro hsame
  refine h ?_
  rw [← hsame, List.head?_take, if_neg]
  intro hzero
  rw [hzero, List.take_zero] at hsame
  exact hlead hsame.symm

theorem nativeKey_of_head {key : String} (h : key.toList.head? ∉ [some 'c', some 't', some 'i', some 'e']) :
    nativeKey key = false := by
  simp only [List.mem_cons, List.not_mem_nil, or_false, not_or] at h
  obtain ⟨hc, ht, hi, he⟩ := h
  unfold nativeKey
  rw [startsWith_of_head (by decide) hc, startsWith_of_head (by decide) ht,
    startsWith_of_head (by decide) hi, startsWith_of_head (by decide) he]
  rfl

theorem head_append {lead rest : String} (h : lead.toList ≠ []) :
    (lead ++ rest).toList.head? = lead.toList.head? := by
  rw [String.toList_append, List.head?_append_of_ne_nil _ h]

theorem nativeKey_presentationScip (s : String) : nativeKey ("presentation-scip:" ++ s) = false := by
  refine nativeKey_of_head ?_
  rw [head_append (by decide)]
  decide

theorem nativeKey_presentationManifest (s : String) :
    nativeKey ("presentation-manifest:" ++ s) = false := by
  refine nativeKey_of_head ?_
  rw [head_append (by decide)]
  decide

theorem nativeKey_root : nativeKey "root:." = false := nativeKey_of_head (by decide)

theorem nativeKey_directory (s : String) : nativeKey ("directory:" ++ s) = false := by
  refine nativeKey_of_head ?_
  rw [head_append (by decide)]
  decide

theorem nativeKey_executable (s : String) : nativeKey ("executable:" ++ s) = true := by
  unfold nativeKey
  rw [startsWith_append, Bool.or_true]

theorem nativeKey_ignore (s : String) : nativeKey ("ignore:" ++ s) = true := by
  unfold nativeKey
  rw [startsWith_append "ignore:", Bool.or_true, Bool.true_or]

theorem nativeKey_toolchain (s : String) : nativeKey ("toolchain:" ++ s) = true := by
  unfold nativeKey
  rw [startsWith_append "toolchain:", Bool.or_true, Bool.true_or, Bool.true_or]

theorem nativeKey_config (s : String) : nativeKey ("config:" ++ s) = true := by
  unfold nativeKey
  rw [startsWith_append "config:", Bool.true_or, Bool.true_or, Bool.true_or]

/-! ### The fingerprint is a projection of what is stored -/

def Observation.digest : Observation → Option String
  | .present _ hash => some hash
  | .absent | .directory _ | .root _ => none

/-- The native roles, with their digests. -/
def fingerprint (stored : List (String × Observation)) : List (String × Option String) :=
  (stored.filter fun entry => nativeKey entry.1).map fun entry => (entry.1, entry.2.digest)

theorem fingerprint_append (a b : List (String × Observation)) :
    fingerprint (a ++ b) = fingerprint a ++ fingerprint b := by
  unfold fingerprint
  rw [List.filter_append, List.map_append]

theorem fingerprint_flatten (entries : List (List (String × Observation))) :
    fingerprint entries.flatten = (entries.map fingerprint).flatten := by
  induction entries with
  | nil => rfl
  | cons first rest ih => rw [List.flatten_cons, fingerprint_append, ih, List.map_cons, List.flatten_cons]

theorem keys_fingerprint (stored : List (String × Observation)) :
    ((fingerprint stored).map Prod.fst).Sublist (stored.map Prod.fst) := by
  unfold fingerprint
  rw [List.map_map]
  exact List.Sublist.map _ List.filter_sublist

theorem fingerprint_roles (roles : List String) (observation : Observation) :
    fingerprint (roles.map fun role => (role, observation)) =
      (roles.filter nativeKey).map fun role => (role, observation.digest) := by
  unfold fingerprint
  rw [List.filter_map, List.map_map]
  rfl

namespace Capture

variable {host : Host} {c : Capture} {path : Path} {message : String} {roles : List String}

theorem siteRoles_native (h : c.siteRoles message path = .ok roles) :
    ∀ role ∈ roles, nativeKey role = true := by
  unfold siteRoles at h
  cases hbelow : Path.below c.root path with
  | none =>
      rw [hbelow] at h
      cases h
      exact fun _ hrole => absurd hrole List.not_mem_nil
  | some rest =>
      simp only [hbelow] at h
      cases hjoined : Path.joined rest with
      | none => rw [hjoined] at h; cases h
      | some text =>
          simp only [hjoined] at h
          split_ifs at h <;> cases h <;> intro role hrole <;> simp at hrole <;> subst hrole
          · exact nativeKey_ignore _
          · exact nativeKey_toolchain _
          · exact nativeKey_config _

theorem siteRoles_message (h : c.siteRoles message path = .ok roles) (other : String) :
    c.siteRoles other path = .ok roles := by
  unfold siteRoles at h ⊢
  cases hbelow : Path.below c.root path with
  | none => rw [hbelow] at h; exact h
  | some rest =>
      simp only [hbelow] at h ⊢
      cases hjoined : Path.joined rest with
      | none => rw [hjoined] at h; cases h
      | some text =>
          simp only [hjoined] at h ⊢
          exact h

theorem executableRoles_native : ∀ role ∈ c.executableRoles host path, nativeKey role = true := by
  intro role hrole
  unfold executableRoles at hrole
  split_ifs at hrole
  · rw [List.mem_singleton] at hrole
    rw [hrole]
    exact nativeKey_executable _
  · cases hrole

theorem presentationRoles_native :
    ∀ role ∈ c.presentationRoles host path, nativeKey role = false := by
  intro role hrole
  unfold presentationRoles at hrole
  rw [List.mem_append] at hrole
  rcases hrole with hrole | hrole <;> split_ifs at hrole <;> simp at hrole <;> subst hrole
  · exact nativeKey_presentationScip _
  · exact nativeKey_presentationManifest _

/-- **The digest of a held input is that of its observation.** -/
theorem nativeDigest_of_held {expected : Option Stamp} {observation : Observation}
    (hheld : c.Held path expected) (h : c.observationOf host path expected = .ok observation) :
    c.nativeDigest host path expected = .ok observation.digest := by
  unfold nativeDigest
  cases hheld with
  | absent hbytes =>
      cases h
      rw [hbytes]
      rfl
  | running stat hpath hrunning hkind hbytes hdigest =>
      unfold observationOf at h
      simp only [if_pos (And.intro hpath hrunning), hdigest] at h
      cases h
      simp only [hbytes, if_pos (And.intro hpath hrunning), hdigest]
      exact ensure_bind_eq_ok.mpr ⟨hkind, rfl⟩
  | present stat entry hpath hkind hlen hbytes =>
      unfold observationOf at h
      simp only [if_neg fun hboth : path = c.executablePath ∧ _ => hpath hboth.1, hbytes,
        Option.join_some] at h
      cases h
      simp only [hbytes, if_neg hpath]
      exact ensure_bind_eq_ok.mpr ⟨⟨hkind, hlen⟩, rfl⟩

/-- **What an input adds to the fingerprint is the projection of what it adds to the store.** -/
theorem fingerprintsOf_held {input : Path × Option Stamp} {entries : List (String × Observation)}
    (hheld : c.Held input.1 input.2) (h : c.observationsOf host input = .ok entries) :
    c.fingerprintsOf host input = .ok (fingerprint entries) := by
  unfold observationsOf at h
  simp only [bind_eq_ok, ensure_eq_ok] at h
  obtain ⟨site, hsite, observation, hobservation, -, hroles, h⟩ := h
  cases h
  have hnative : fingerprint ((c.executableRoles host input.1 ++ c.presentationRoles host input.1 ++
      site).map fun role => (role, observation)) =
      (c.executableRoles host input.1 ++ site).map fun role => (role, observation.digest) := by
    rw [fingerprint_roles, List.filter_append, List.filter_append,
      List.filter_eq_self.mpr executableRoles_native,
      List.filter_eq_nil_iff.mpr fun role hrole =>
        Bool.eq_false_iff.mp (presentationRoles_native role hrole),
      List.filter_eq_self.mpr (siteRoles_native hsite), List.append_nil]
  rw [hnative]
  unfold fingerprintsOf
  rw [bind_eq_ok]
  refine ⟨site, siteRoles_message hsite _, ?_⟩
  by_cases hnone : c.executableRoles host input.1 ++ site = []
  · rw [hnone]; exact if_pos rfl
  · simp only [if_neg hnone]
    rw [bind_eq_ok]
    exact ⟨observation.digest, nativeDigest_of_held hheld hobservation, rfl⟩

theorem directories_spec {inventory : List (Path × Stamp)} {m m' : List (String × Observation)}
    (h : c.directories inventory m = .ok m') (hkeys : (m.map Prod.fst).Nodup)
    (hnative : ∀ entry ∈ m, nativeKey entry.1 = false) :
    (m'.map Prod.fst).Nodup ∧ ∀ entry ∈ m', nativeKey entry.1 = false := by
  induction inventory generalizing m with
  | nil => cases h; exact ⟨hkeys, hnative⟩
  | cons first rest ih =>
      obtain ⟨path, item⟩ := first
      unfold directories at h
      split_ifs at h with hkind
      · cases hbelow : Path.below c.root path with
        | none => rw [hbelow] at h; cases h
        | some below =>
            simp only [hbelow] at h
            cases hjoined : Path.joined below with
            | none => rw [hjoined] at h; cases h
            | some text =>
                simp only [hjoined] at h
                refine ih h ?_ fun entry hentry => ?_
                · unfold assign
                  rw [List.map_append, List.map_singleton, ← List.concat_eq_append]
                  refine (hkeys.sublist (List.Sublist.map _ List.filter_sublist)).concat ?_
                  intro hmem
                  obtain ⟨entry, hentry, hsame⟩ := List.mem_map.mp hmem
                  rw [List.mem_filter, bne_iff_ne] at hentry
                  exact hentry.2 hsame
                · unfold assign at hentry
                  rcases List.mem_append.mp hentry with hentry | hentry
                  · exact hnative entry (List.mem_filter.mp hentry).1
                  · rw [List.mem_singleton] at hentry
                    rw [hentry]
                    exact nativeKey_directory _
      · exact ih h hkeys hnative

theorem fingerprint_eq_nil {m : List (String × Observation)}
    (h : ∀ entry ∈ m, nativeKey entry.1 = false) : fingerprint m = [] := by
  unfold fingerprint
  rw [List.filter_eq_nil_iff.mpr fun entry hentry => Bool.eq_false_iff.mp (h entry hentry)]
  rfl

end Capture

/-! ### A fingerprint can be taken -/

theorem allRootInputs_plain : ∀ name ∈ allRootInputs,
    '\x5c' ∉ name.toList ∧ name ≠ ".gitignore" ∧ name ≠ ".ignore" := by
  decide

theorem slashed_of_not_mem {text : String} (h : '\x5c' ∉ text.toList) : slashed text = text := by
  unfold slashed
  have hsame : (text.toList.map fun c => if c = '\x5c' then '/' else c) = text.toList := by
    refine (List.map_congr_left fun c hc => ?_).trans (List.map_id _)
    show (if c = '\x5c' then '/' else c) = c
    refine if_neg ?_
    rintro rfl
    exact h hc
  rw [hsame, String.ofList_toList]

namespace Capture

variable {host : Host} {options : IndexOptions} {image : RunningExecutable} {c : Capture}

theorem siteRoles_root {name : String} (hname : name ∈ allRootInputs) (message : String) :
    c.siteRoles message (c.root ++ [.text name]) = .ok [rootRole name] := by
  obtain ⟨hplain, hgitignore, hignore⟩ := allRootInputs_plain name hname
  have hbelow : Path.below c.root (c.root ++ [.text name]) = some [.text name] := by
    unfold Path.below
    rw [if_pos (List.prefix_append _ _), List.drop_left]
  have hjoined : Path.joined [.text name] = some name := rfl
  unfold siteRoles
  simp only [hbelow, hjoined, slashed_of_not_mem hplain, List.getLast?_append, List.getLast?_singleton,
    Option.some_or, Option.some.injEq, Name.text.injEq]
  rw [if_neg (by simp [hgitignore, hignore])]
  unfold rootRole
  by_cases hselector : name ∈ selectors
  · rw [if_pos hselector, if_pos hselector]; rfl
  · have hroot : name ∈ rootInputs := (List.mem_append.mp hname).resolve_right hselector
    rw [if_neg hselector, if_neg hselector, if_pos hroot]
    rfl

theorem role_mem {added : List (List (String × Observation))}
    (hadded : c.inputs.mapM (c.observationsOf host) = .ok added) {path : Path}
    {state : Option Stamp} (hinput : (path, state) ∈ c.inputs) {role : String}
    (hrole : role ∈ c.executableRoles host path ∨
      ∃ message site, c.siteRoles message path = .ok site ∧ role ∈ site) :
    ∃ observation, (role, observation) ∈ added.flatten := by
  obtain ⟨entries, hentries, h⟩ := Fallible.exists_of_mapM_eq_ok hadded hinput
  unfold observationsOf at h
  simp only [bind_eq_ok, ensure_eq_ok] at h
  obtain ⟨site, hsite, observation, -, -, -, h⟩ := h
  cases h
  refine ⟨observation, List.mem_flatten.mpr ⟨_, hentries, List.mem_map.mpr ⟨role, ?_, rfl⟩⟩⟩
  rcases hrole with hrole | ⟨message, site', hsite', hrole⟩
  · exact List.mem_append_left _ (List.mem_append_left _ hrole)
  · have hsame := (siteRoles_message hsite' "non-UTF8 input path").symm.trans hsite
    cases hsame
    exact List.mem_append_right _ hrole

/-- **The fingerprint of an admitted capture is a projection of what is stored of it.** -/
theorem Admitted.fingerprints_of_persisted (h : c.Admitted host options image)
    {stored : List (String × Observation)} (hstored : c.persistedInputs host = .ok stored) :
    c.nativeInputFingerprints host = .ok (fingerprint stored) := by
  unfold persistedInputs at hstored
  rw [bind_eq_ok] at hstored
  obtain ⟨m, hm, hstored⟩ := hstored
  obtain ⟨hkeys, hnone⟩ := directories_spec hm (List.nodup_singleton _) fun entry hentry => by
    rw [List.mem_singleton] at hentry
    rw [hentry]
    exact nativeKey_root
  obtain ⟨added, hadded, hsame, hnodup⟩ := (Entries.collect_eq_ok hkeys).mp hstored
  have hfingerprint : fingerprint stored = (added.map fingerprint).flatten := by
    rw [hsame, fingerprint_append, fingerprint_eq_nil hnone, List.nil_append, fingerprint_flatten]
  have hkept : ∀ role observation, (role, observation) ∈ added.flatten → nativeKey role = true →
      (role, observation.digest) ∈ fingerprint stored := fun role observation hmem hnative => by
    unfold fingerprint
    refine List.mem_map.mpr ⟨(role, observation), List.mem_filter.mpr ⟨?_, hnative⟩, rfl⟩
    rw [hsame]
    exact List.mem_append_right _ hmem
  unfold nativeInputFingerprints
  rw [bind_eq_ok]
  refine ⟨fingerprint stored, (Entries.collect_eq_ok (m := []) List.nodup_nil).mpr
    ⟨added.map fingerprint, ?_, ?_, ?_⟩, ?_⟩
  · exact Entries.mapM_map_eq_ok hadded fun input hinput entries hentries =>
      fingerprintsOf_held (h.held hinput) hentries
  · rw [hfingerprint, List.nil_append]
  · exact hnodup.sublist (keys_fingerprint stored)
  rw [ensure_bind_eq_ok]
  constructor
  · obtain ⟨state, hstate⟩ := h.has.2
    have hrole : "executable:" ++ host.lossy c.executablePath ∈
        c.executableRoles host c.executablePath := by
      unfold executableRoles
      rw [if_pos rfl]
      exact List.mem_cons_self
    obtain ⟨observation, hmem⟩ := role_mem hadded hstate (.inl hrole)
    exact ⟨_, hkept _ _ hmem (nativeKey_executable _), startsWith_append _ _⟩
  rw [ensure_bind_eq_ok]
  refine ⟨fun name hname => ?_, rfl⟩
  have hpath : c.root ++ [.text name] ∈ sitePaths c.root c.inventory :=
    List.mem_append_left _ (List.mem_map_of_mem hname)
  obtain ⟨state, hstate⟩ := h.has.1 _ hpath
  have hsite := siteRoles_root (c := c) hname "non-UTF8 input path"
  obtain ⟨observation, hmem⟩ :=
    role_mem hadded hstate (.inr ⟨_, _, hsite, List.mem_cons_self⟩)
  have hentry := hkept _ _ hmem (siteRoles_native hsite _ List.mem_cons_self)
  cases hlookup : (fingerprint stored).lookup (rootRole name) with
  | none => exact absurd (List.mem_map_of_mem hentry) (Lookup.lookup_eq_none.mp hlookup)
  | some digest => rfl

end Capture

/-! ### The files -/

theorem lastOfEach_of_nodup {files : List SourceFile}
    (h : (files.map SourceFile.path).Nodup) : lastOfEach files = files := by
  induction files with
  | nil => rfl
  | cons f files ih =>
      rw [List.map_cons, List.nodup_cons] at h
      unfold lastOfEach
      rw [if_neg h.1, ih h.2]

theorem byPath_of_perm {files files' : List SourceFile} (hperm : files.Perm files')
    (h : (files.map SourceFile.path).Nodup) : byPath files = byPath files' := by
  have h' : (files'.map SourceFile.path).Nodup := (hperm.map _).nodup_iff.mp h
  unfold byPath
  rw [lastOfEach_of_nodup h, lastOfEach_of_nodup h']
  have hsorted : ∀ fs : List SourceFile,
      (fs.mergeSort fun f g => decide (f.path ≤ g.path)).Pairwise fun f g =>
        decide (f.path ≤ g.path) = true := by
    refine fun fs => List.pairwise_mergeSort (fun a b c hab hbc => ?_) (fun a b => ?_) fs
    · rw [decide_eq_true_eq] at hab hbc ⊢
      exact String.le_trans hab hbc
    · rw [Bool.or_eq_true, decide_eq_true_eq, decide_eq_true_eq]
      exact String.le_total a.path b.path
  refine List.Perm.eq_of_pairwise ?_ (hsorted files) (hsorted files')
    ((List.mergeSort_perm _ _).trans (hperm.trans (List.mergeSort_perm _ _).symm))
  intro f g hf hg hfg hgf
  have hf' : f ∈ files := (List.mergeSort_perm _ _).mem_iff.mp hf
  have hg' : g ∈ files := hperm.mem_iff.mpr ((List.mergeSort_perm _ _).mem_iff.mp hg)
  exact List.inj_on_of_nodup_map h hf' hg'
    (String.le_antisymm (decide_eq_true_iff.mp hfg) (decide_eq_true_iff.mp hgf))

theorem compareFiles_of_perm (host : Host) {files files' : List SourceFile} (hperm : files.Perm files')
    (h : (files.map SourceFile.path).Nodup) (current : List SourceFile) :
    compareFiles host files current = compareFiles host files' current := by
  unfold compareFiles
  rw [byPath_of_perm hperm h]

/-! ### The stored measure refines the captured one -/

/-- **What is measured by what is stored.**  For admitted captures, and a snapshot that was
stored of the first, the stored measure answers what the captured one answers, or asks for a
full measurement; so where it answers that nothing changed, or that one document did, the
captured measure says the same, of the same document.  It has no answer only for a capture that
cannot be stored. -/
theorem persisted_refines_captured (host : Host) (options options' : IndexOptions)
    (image image' : RunningExecutable) (base current : Capture) (previous : Snapshot)
    (hbase : base.Admitted host options image) (hcurrent : current.Admitted host options' image')
    (hrecords : previous.Records host base) :
    (measurePersistedChange host previous current = .ok .unchanged →
      (measureCapturedChangeObserved host base current).1 = .unchanged) ∧
    (∀ path, measurePersistedChange host previous current = .ok (.documentLocal path) →
      (measureCapturedChangeObserved host base current).1 = .documentLocal path) ∧
    (∀ answer, measurePersistedChange host previous current = .ok answer →
      answer = (measureCapturedChangeObserved host base current).1 ∨
        ∃ reason, answer = .fullNative reason) ∧
    ∀ error, measurePersistedChange host previous current = .error error →
      current.persistedInputs host = .error error := by
  have hrefines : ∀ answer, measurePersistedChange host previous current = .ok answer →
      answer = (measureCapturedChangeObserved host base current).1 ∨
        ∃ reason, answer = .fullNative reason := fun answer hanswer => by
    unfold measurePersistedChange at hanswer
    split_ifs at hanswer with hoptions
    · cases hanswer; exact .inr ⟨_, rfl⟩
    rw [bind_eq_ok] at hanswer
    obtain ⟨currentInputs, hcurrentInputs, hanswer⟩ := hanswer
    by_cases hinputs : ¬ (previous.inputs.filter fun entry => nativeKey entry.1).Perm
      (currentInputs.filter fun entry => nativeKey entry.1)
    · rw [if_pos hinputs] at hanswer
      cases hanswer
      exact .inr ⟨_, rfl⟩
    rw [if_neg hinputs] at hanswer
    rw [not_not] at hinputs
    cases hanswer
    obtain ⟨stored, hstored, hperm⟩ := hrecords.inputs
    refine .inl ?_
    have hsame : base.reconcileOptions = current.reconcileOptions := by
      rw [← hrecords.options]
      exact not_not.mp hoptions
    have hnative : (fingerprint stored).Perm (fingerprint currentInputs) :=
      ((hperm.filter _).symm.trans hinputs).map _
    unfold measureCapturedChangeObserved
    rw [if_neg (not_not.mpr hsame), hbase.fingerprints_of_persisted hstored,
      hcurrent.fingerprints_of_persisted hcurrentInputs]
    simp only [if_neg (not_not.mpr hnative)]
    rw [compareFiles_of_perm host hrecords.files hrecords.paths]
  refine ⟨fun hunchanged => ?_, fun path hlocal => ?_, hrefines, fun error herror => ?_⟩
  · rcases hrefines _ hunchanged with hsame | ⟨reason, hfull⟩
    · exact hsame.symm
    · cases hfull
  · rcases hrefines _ hlocal with hsame | ⟨reason, hfull⟩
    · exact hsame.symm
    · cases hfull
  · unfold measurePersistedChange at herror
    split_ifs at herror with hoptions
    · cases herror
    cases hinputs : current.persistedInputs host with
    | error message =>
        rw [hinputs] at herror
        cases herror
        rfl
    | ok currentInputs =>
        simp only [hinputs] at herror
        revert herror
        show (if _ then _ else _) = _ → _
        split_ifs <;> intro herror <;> cases herror

/-! ### An edit of one body -/

namespace Sample

/-- Digests are the bytes themselves, and an edit of `f` stays inside its body. -/
def host : Host where
  hash := Native.hexEncode
  lossy path := (Path.toStr path).getD ""
  provedBodyOnly old new := startsWith old.text "fn f() " && startsWith new.text "fn f() "

def image : RunningExecutable := ⟨[.text "baleyg"], ⟨2, 1, 0, 1, (0, 0), (0, 0)⟩, "f0", rfl⟩

def options : IndexOptions := ⟨none, none, 2 * 1024 * 1024⟩

def inventory : List (Path × Stamp) :=
  [([.text "w"], ⟨1, 0, 0, 2, (0, 0), (0, 0)⟩),
    ([.text "w", .text "src"], ⟨1, 0, 0, 3, (0, 0), (0, 0)⟩)]

/-- Two of the inputs are there. -/
def held : List (Path × Stamp × Allocation) :=
  [([.text "w", .text "Cargo.toml"], ⟨2, 2, 0, 4, (0, 0), (0, 0)⟩, ⟨7, [0x5b, 0x5d]⟩),
    ([.text "w", .text ".gitignore"], ⟨2, 1, 0, 5, (0, 0), (0, 0)⟩, ⟨8, [0x2a]⟩)]

/-- Admits every path that can be admitted without an alias. -/
def admitPaths (sources : List (Nat × Nat)) (cap : Nat) : List Path → Admission → Option Admission
  | [], a => some a
  | path :: paths, a =>
      match held.lookup path with
      | none => admitPaths sources cap paths (a.admitted path none none)
      | some (item, entry) =>
          if (item.kind = 2 ∧ item.len ≤ cap) ∧ item.identity ∉ sources ∧
              a.identities.lookup item.identity = none ∧ entry.bytes.length = item.len then
            admitPaths sources cap paths (a.admitted path (some item) (some entry))
          else none

theorem admitPaths_sound {sources : List (Nat × Nat)} {cap : Nat} {paths : List Path}
    {a b : Admission} (h : admitPaths sources cap paths a = some b) : AdmitInputs sources cap paths a b := by
  induction paths generalizing a with
  | nil => cases h; exact .nil _
  | cons path paths ih =>
      unfold admitPaths at h
      split at h
      · exact .cons .absent (ih h)
      · rename_i item entry _
        split_ifs at h with hread
        obtain ⟨hkind, hsource, hnew, hlength⟩ := hread
        exact .cons (.read item entry hkind hsource hnew ⟨hkind.1, hkind.2, hlength⟩) (ih h)

/-- The two source files are no inputs. -/
def first : Admission :=
  (admitPaths [(0, 6), (0, 7)] (min options.maxFileBytes (16 * 1024 * 1024))
    (sitePaths [.text "w"] inventory) .empty).getD .empty

def files (text : String) : List SourceFile :=
  [⟨"src/a.rs", Native.hexEncode text.toUTF8.toList, .rust, text⟩, ⟨"src/b.rs", "b0", .rust, ""⟩]

def base : Capture where
  rootStamp := ⟨1, 0, 0, 2, (0, 0), (0, 0)⟩
  root := [.text "w"]
  inventory := inventory
  inputs := record image.path (some image.initial) first.inputs
  files := []
  executablePath := image.path
  executableBytes := none
  executableDigest := image.digest
  runningExecutable := some image
  inputBytes := record image.path none first.inputBytes
  reconcileOptions := options.reconcile host

def capture (text : String) : Capture := { base with files := files text }

theorem first_admitted : AdmitInputs [(0, 6), (0, 7)] (min options.maxFileBytes (16 * 1024 * 1024))
    (sitePaths [.text "w"] inventory) .empty first := by
  have hsome : (admitPaths [(0, 6), (0, 7)] (min options.maxFileBytes (16 * 1024 * 1024))
      (sitePaths [.text "w"] inventory) .empty).isSome = true := by decide +kernel
  obtain ⟨a, ha⟩ := Option.isSome_iff_exists.mp hsome
  unfold first
  rw [ha]
  exact admitPaths_sound ha

theorem running_admitted : first.inputs.lookup image.path = none ∧
    first.identities.lookup image.initial.identity = none := by
  decide +kernel

/-- What is read again at the end is as long as its stamp says. -/
def verifies (state : Stamp) : Option (Option Allocation) → Bool
  | some (some entry) =>
      state.kind = 2 ∧ state.len ≤ 16 * 1024 * 1024 ∧ entry.bytes.length = state.len
  | _ => false

theorem first_verified : ∀ input ∈ first.inputs, Path.toStr input.1 ≠ none ∧ input.2.all (fun state =>
    verifies state ((record image.path none first.inputBytes).lookup input.1)) = true := by
  decide +kernel

theorem verified_of_verifies {c : Capture} {path : Path} {state : Stamp}
    (hcap : c.inputCap path = 16 * 1024 * 1024)
    (h : verifies state (c.inputBytes.lookup path) = true) :
    ∃ now, RegularRead (c.inputCap path) state now ∧
      (c.inputBytes.lookup path).join.map Allocation.bytes = some now := by
  unfold verifies at h
  split at h
  · rename_i entry hentry
    obtain ⟨hkind, hlen, hlength⟩ := of_decide_eq_true h
    refine ⟨entry.bytes, ⟨hkind, hcap ▸ hlen, hlength⟩, ?_⟩
    rw [hentry]
    rfl
  · cases h

theorem capture_admitted (text : String) : (capture text).Admitted host options image := by
  refine ⟨⟨_, first, _, _, first_admitted, ⟨by decide, running_admitted.1, running_admitted.2, rfl⟩,
    .nil _, rfl, rfl⟩, rfl, rfl, rfl, rfl, rfl, fun input hinput => ?_⟩
  obtain ⟨path, expected⟩ := input
  rcases List.mem_cons.mp hinput with hsame | hmem
  · cases hsame
    refine (if_pos ⟨rfl, rfl⟩).mpr fun image' himage => ?_
    cases himage
    exact ⟨rfl, rfl, rfl⟩
  · rw [List.mem_filter, bne_iff_ne] at hmem
    refine (if_neg fun hboth => hmem.2 hboth.1).mpr fun state hstate => ?_
    obtain rfl : expected = some state := hstate
    obtain ⟨htext, hverified⟩ := first_verified _ hmem.1
    refine verified_of_verifies ?_ hverified
    exact (if_neg hmem.2).trans (if_neg fun hnone => htext (hnone.elim Eq.symm Eq.symm))

theorem persistedInputs_files (host : Host) (c : Capture) (files : List SourceFile) :
    { c with files := files }.persistedInputs host = c.persistedInputs host := by
  have hdirectories : ∀ inventory m,
      { c with files := files }.directories inventory m = c.directories inventory m := by
    intro inventory
    induction inventory with
    | nil => exact fun _ => rfl
    | cons entry rest ih =>
        intro m
        unfold Capture.directories
        simp only [ih]
  unfold Capture.persistedInputs
  rw [hdirectories]
  rfl

theorem base_stored : ∃ stored, base.persistedInputs host = .ok stored := by
  have hsome : (base.persistedInputs host).toOption.isSome = true := by decide +kernel
  cases hstored : base.persistedInputs host with
  | ok stored => exact ⟨stored, rfl⟩
  | error message => rw [hstored] at hsome; cases hsome

end Sample

/-- The text of `f` was edited; the stored measure and the captured one say so. -/
theorem persisted_refines_captured_edit : ∃ stored,
    (Sample.capture "fn f() { 1 }").persistedInputs Sample.host = .ok stored ∧
      measurePersistedChange Sample.host ⟨(Sample.files "fn f() { 1 }").reverse,
        (Sample.capture "fn f() { 1 }").reconcileOptions, stored.reverse⟩ (Sample.capture "fn f() { 2 }") =
          .ok (.documentLocal "src/a.rs") ∧
      (measureCapturedChangeObserved Sample.host (Sample.capture "fn f() { 1 }")
        (Sample.capture "fn f() { 2 }")).1 = .documentLocal "src/a.rs" := by
  obtain ⟨stored, hbase⟩ := Sample.base_stored
  have hstored : ∀ text, (Sample.capture text).persistedInputs Sample.host = .ok stored :=
    fun text => (Sample.persistedInputs_files Sample.host Sample.base _).trans hbase
  have hnodup : ∀ text, ((Sample.files text).map SourceFile.path).Nodup := fun _ => by
    simp [Sample.files]
  have hbyPath : ∀ text, byPath (Sample.files text) = Sample.files text := fun text => by
    unfold byPath
    rw [lastOfEach_of_nodup (hnodup text)]
    exact List.mergeSort_of_pairwise (by simp [Sample.files])
  have hpaths := ((List.reverse_perm _).map _).nodup_iff.mpr (hnodup "fn f() { 1 }")
  have hfiles : compareFiles Sample.host (Sample.files "fn f() { 1 }").reverse
      (Sample.files "fn f() { 2 }") = (.documentLocal "src/a.rs", ["src/a.rs"]) := by
    unfold compareFiles
    simp only
    rw [byPath_of_perm (List.reverse_perm _) hpaths, hbyPath, hbyPath]
    decide +kernel
  have hanswer : measurePersistedChange Sample.host ⟨(Sample.files "fn f() { 1 }").reverse,
      (Sample.capture "fn f() { 1 }").reconcileOptions, stored.reverse⟩ (Sample.capture "fn f() { 2 }") =
        .ok (.documentLocal "src/a.rs") := by
    unfold measurePersistedChange
    refine (if_neg (not_not.mpr rfl)).trans ?_
    rw [hstored, bind_eq_ok]
    refine ⟨stored, rfl, (if_neg (not_not.mpr ((List.reverse_perm _).filter _))).trans ?_⟩
    exact congrArg (fun answer : CapturedChange × List String => Except.ok answer.1) hfiles
  exact ⟨stored, hstored _, hanswer, (persisted_refines_captured _ _ _ _ _ _ _ ⟨_, _, stored.reverse⟩
    (Sample.capture_admitted _) (Sample.capture_admitted _) ⟨⟨stored, hstored _, List.reverse_perm _⟩, rfl,
      List.reverse_perm _, hpaths⟩).2.1 _ hanswer⟩

end Baleyg.Change
