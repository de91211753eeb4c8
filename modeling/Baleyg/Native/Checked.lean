/-
What an artifact that passed the check is like.

`Checked` gathers what the loops of the check have seen: every record is of a file that was
captured, lies in it, and has the identity of its content; a registry knows all identities of
declarations, and another one those of calls and regions; and no two records of a kind share
an identity.
-/
import Baleyg.Native.Accept

namespace Baleyg.Native

open Fallible (ensure bind_eq_ok ensure_eq_ok ensure_bind_eq_ok)

/-- **An artifact that passed**, with what the check has built on the way. -/
structure Checked (libs : Libraries) (a : Artifact) (files : List SourceFile) (docs : Documents)
    (proofs : List String) (declared : List (String × Declaration)) (k k' : IdentityRegistry) :
    Prop where
  distinct : (files.map fun f => (f.language, f.path)).Nodup
  documents : ∀ key file, docs.lookup key = some file →
    file ∈ files ∧ file.language = key.language ∧ file.path = key.path
  declarations : DeclarationsAccepted libs a docs proofs k a.declarations
  calls : ∀ c ∈ a.calls, ∃ file owner, CallAccepted libs a docs proofs declared k' c file owner
  controlRegions : ∀ r ∈ a.controlRegions, ∃ file owner,
    ControlAccepted libs a docs proofs declared k' r file owner
  callIds : (a.calls.map Call.id).Nodup
  controlIds : (a.controlRegions.map ControlRegion.id).Nodup

section Check

variable {libs : Libraries} {a : Artifact} {files : List SourceFile} {docs : Documents}
  {proofs : List String} {declared : List (String × Declaration)}
  {occurrence occurrence' : IdentityRegistry}

theorem validateDocuments_ok {last : Option (Nat × String)} {documents : List Document}
    (h : validateDocuments a files last documents = .ok docs) :
    ∀ e ∈ docs, e.2 ∈ files ∧ e.2.language = e.1.language ∧ e.2.path = e.1.path := by
  induction documents generalizing last docs with
  | nil => cases h; exact fun _ he => absurd he List.not_mem_nil
  | cons d rest ih =>
      unfold validateDocuments at h
      obtain ⟨_, -, h⟩ := bind_eq_ok.mp h
      obtain ⟨-, h⟩ := ensure_bind_eq_ok.mp h
      cases hfile : files.find? fun f => f.language = d.key.language ∧ f.path = d.key.path with
      | none => rw [hfile] at h; cases h
      | some file =>
          rw [hfile] at h
          obtain ⟨-, h⟩ := ensure_bind_eq_ok.mp h
          obtain ⟨more, hmore, h⟩ := bind_eq_ok.mp h
          cases h
          have hsame := List.find?_some hfile
          exact List.forall_mem_cons.mpr
            ⟨⟨List.mem_of_find?_eq_some hfile, of_decide_eq_true hsame⟩, ih hmore⟩

theorem validateHeader_ok (h : validateHeader a files = .ok docs) :
    (files.map fun f => (f.language, f.path)).Nodup ∧
      validateDocuments a files none a.revision.documents = .ok docs := by
  unfold validateHeader at h
  obtain ⟨-, h⟩ := ensure_bind_eq_ok.mp h
  obtain ⟨-, h⟩ := ensure_bind_eq_ok.mp h
  obtain ⟨-, h⟩ := ensure_bind_eq_ok.mp h
  obtain ⟨-, h⟩ := ensure_bind_eq_ok.mp h
  obtain ⟨-, h⟩ := ensure_bind_eq_ok.mp h
  obtain ⟨hdistinct, h⟩ := ensure_bind_eq_ok.mp h
  exact ⟨hdistinct, h⟩

theorem validateCalls_nodup {seen : List String} {cs : List Call}
    (h : validateCalls libs a docs proofs declared occurrence seen cs = .ok occurrence') :
    (cs.map Call.id).Nodup ∧ ∀ c ∈ cs, c.id ∉ seen := by
  induction cs generalizing occurrence seen with
  | nil => exact ⟨List.nodup_nil, fun _ hc => absurd hc List.not_mem_nil⟩
  | cons c rest ih =>
      obtain ⟨_, _, _, -, hnew, -, h⟩ := validateCalls_cons h
      obtain ⟨hnodup, hfresh⟩ := ih h
      refine ⟨?_, List.forall_mem_cons.mpr
        ⟨hnew, fun d hd hseen => hfresh d hd (List.mem_cons_of_mem _ hseen)⟩⟩
      rw [List.map_cons, List.nodup_cons]
      refine ⟨fun hmem => ?_, hnodup⟩
      obtain ⟨d, hd, hid⟩ := List.mem_map.mp hmem
      exact hfresh d hd (hid ▸ List.mem_cons_self)

theorem validateControls_nodup {regions out : List (String × ControlRegion)}
    {rs : List ControlRegion}
    (h : validateControls libs a docs proofs declared occurrence regions rs = .ok out) :
    (rs.map ControlRegion.id).Nodup ∧ ∀ r ∈ rs, regions.lookup r.id = none := by
  induction rs generalizing occurrence regions with
  | nil => exact ⟨List.nodup_nil, fun _ hr => absurd hr List.not_mem_nil⟩
  | cons r rest ih =>
      obtain ⟨_, _, _, -, hnew, -, h⟩ := validateControls_cons h
      obtain ⟨hnodup, hfresh⟩ := ih h
      have hne : ∀ q ∈ rest, q.id ≠ r.id := fun q hq hid => by
        have hnone := hfresh q hq
        rw [hid, List.lookup_cons_self] at hnone
        cases hnone
      refine ⟨?_, List.forall_mem_cons.mpr ⟨hnew, fun q hq => ?_⟩⟩
      · rw [List.map_cons, List.nodup_cons]
        refine ⟨fun hmem => ?_, hnodup⟩
        obtain ⟨q, hq, hid⟩ := List.mem_map.mp hmem
        exact hne q hq hid
      · have hnone := hfresh q hq
        rw [List.lookup_cons, beq_false_of_ne (hne q hq)] at hnone
        exact hnone

/-- **What passes is checked.** -/
theorem checked_of_validateStructure (h : validateStructure libs a files = .ok ()) :
    ∃ docs proofs declared k k', Checked libs a files docs proofs declared k k' := by
  obtain ⟨docs, hheader, h⟩ := bind_eq_ok.mp h
  obtain ⟨hdistinct, hdocuments⟩ := validateHeader_ok hheader
  obtain ⟨_, -, h⟩ := bind_eq_ok.mp h
  obtain ⟨proofs, -, h⟩ := bind_eq_ok.mp h
  obtain ⟨declared, hdeclarations, h⟩ := bind_eq_ok.mp h
  obtain ⟨_, -, h⟩ := bind_eq_ok.mp h
  obtain ⟨_, -, h⟩ := bind_eq_ok.mp h
  obtain ⟨_, -, h⟩ := bind_eq_ok.mp h
  obtain ⟨occurrence, hcalls, h⟩ := bind_eq_ok.mp h
  obtain ⟨regions, hcontrols, -⟩ := bind_eq_ok.mp h
  obtain ⟨k, -, haccepted, -⟩ := validateDeclarations_ok hdeclarations
  obtain ⟨-, hcalls'⟩ := validateCalls_ok hcalls
  obtain ⟨k', hwithin, hcontrols'⟩ := validateControls_ok hcontrols
  refine ⟨docs, proofs, declared, k, k', ?_, fun key file hlookup => ?_, haccepted, fun c hc => ?_,
    hcontrols', (validateCalls_nodup hcalls).1, (validateControls_nodup hcontrols).1⟩
  · exact hdistinct
  · exact validateDocuments_ok hdocuments _ (Lookup.mem_of_lookup hlookup)
  · obtain ⟨file, owner, haccepted⟩ := hcalls' c hc
    exact ⟨file, owner, haccepted.mono hwithin⟩

end Check

namespace Checked

variable {libs : Libraries} {a : Artifact} {files : List SourceFile} {docs : Documents}
  {proofs : List String} {declared : List (String × Declaration)} {k k' : IdentityRegistry}

theorem file_eq (h : Checked libs a files docs proofs declared k k') {f file : SourceFile}
    (hf : f ∈ files) {key : DocumentKey} (hlookup : docs.lookup key = some file)
    (hlanguage : f.language = key.language) (hpath : f.path = key.path) : file = f := by
  obtain ⟨hfile, hlanguage', hpath'⟩ := h.documents key file hlookup
  refine List.inj_on_of_nodup_map h.distinct hfile hf ?_
  rw [hlanguage, hpath, hlanguage', hpath']

end Checked

end Baleyg.Native
