/-
Assembling a revision is building it.

A document that was measured once, for whatever revision, has facts that are those of the
new revision once they are bound to it, because measuring it again would find the same.  So
an artifact that is assembled from such documents is the one a full build makes.  The build
can fail where the assembly does not get to: two documents whose identities collide share a
registry only there.  But the assembly checks its artifact in the end, and what passes this
check leaves no registry anything to refuse.
-/
import Baleyg.Native.Agreement
import Baleyg.Native.Checked
import Baleyg.Native.Replay

namespace Baleyg.Native

open Fallible (ensure bind_eq_ok ensure_eq_ok ensure_bind_eq_ok)

/-! ### A full build -/

def MeasuresFor (libs : Libraries) (h : Artifact) (f : SourceFile) (facts : DocumentFacts) : Prop :=
  ∃ revision document ids ids',
    measureDocument libs h.producer h.sourceSet revision f document ids = .ok (facts, ids')

/-- The facts of a file, bound to the revision of a header. -/
def boundTo (libs : Libraries) (h : Artifact) (p : SourceFile × DocumentFacts) : DocumentFacts :=
  p.2.rebind h.revision.id (proofId libs.sha (documentOf h p.1).key h.revision.id)

section Build

variable {libs : Libraries} {h a a' : Artifact} {f : SourceFile} {facts : DocumentFacts}
  {ids ids' : IdentityRegistry}

theorem document_of_measured {revision : Revision} {document : Document}
    (hmeasured : measureDocument libs h.producer h.sourceSet revision f document ids =
      .ok (facts, ids')) :
    document.key = (documentOf h f).key ∧ document.contentHash = f.hash ∧
      document.byteLength = byteLength f.text ∧ f.hash = libs.sha.hash f.text := by
  unfold measureDocument at hmeasured
  obtain ⟨_, -, hmeasured⟩ := bind_eq_ok.mp hmeasured
  obtain ⟨_, hhash, hmeasured⟩ := bind_eq_ok.mp hmeasured
  obtain ⟨_, hcaptured, -⟩ := bind_eq_ok.mp hmeasured
  obtain ⟨hset, hlanguage, hpath, hcontent, hlength⟩ := ensure_eq_ok.mp hcaptured
  refine ⟨?_, hcontent, hlength, ensure_eq_ok.mp hhash⟩
  unfold documentOf
  rw [← hset, ← hlanguage, ← hpath]

/-- **A file that was measured can be measured for this header.** -/
theorem MeasuresFor.replayed (hmeasured : MeasuresFor libs h f facts) (ids : IdentityRegistry) :
    Replayed ids ((contextOf libs h f).FactsKnown facts)
      (measureDocument libs h.producer h.sourceSet h.revision f (documentOf h f) ids)
      fun ids' => (boundTo libs h (f, facts), ids') := by
  obtain ⟨revision, document, ids₀, ids₁, hmeasured⟩ := hmeasured
  obtain ⟨hkey, hcontent, hlength, -⟩ := document_of_measured hmeasured
  have hreplayed := measureDocument_replayed (h := { h with revision := revision }) hmeasured
    h.revision (documentOf h f) ⟨hkey.symm, hcontent.symm, hlength.symm⟩ ids
  exact hreplayed.mono fun k hall => ⟨hall.declarations, hall.controlRegions, hall.calls⟩

/-- **The loop over files that were measured.** -/
theorem extractAll_replayed {entries : List (SourceFile × DocumentFacts)}
    (hall : ∀ p ∈ entries, MeasuresFor libs h p.1 p.2) (hproducer : a.producer = h.producer)
    (hset : a.sourceSet = h.sourceSet) (hrevision : a.revision = h.revision)
    (ids : IdentityRegistry) :
    Replayed ids (fun k => ∀ p ∈ entries, (contextOf libs h p.1).FactsKnown p.2 k)
      (extractAll libs (entries.map fun p => (p.1, documentOf h p.1)) (a, ids))
      fun ids' => ((entries.map (boundTo libs h)).foldl Artifact.add a, ids') := by
  induction entries generalizing a ids with
  | nil => exact .pure
  | cons p entries ih =>
      obtain ⟨f, facts⟩ := p
      have hfirst := hall _ List.mem_cons_self
      have hrest := ih (fun p hp => hall p (List.mem_cons_of_mem _ hp))
        (a := a.add (boundTo libs h (f, facts))) hproducer hset hrevision
      rw [List.map_cons]
      show Replayed ids _ (extractKnown libs a f (documentOf h f) ids >>= _) _
      unfold extractKnown
      rw [hproducer, hset, hrevision]
      have hknown : Replayed ids ((contextOf libs h f).FactsKnown facts)
          (measureDocument libs h.producer h.sourceSet h.revision f (documentOf h f) ids >>=
            fun measured => pure (a.add measured.1, measured.2))
          fun ids' => (a.add (boundTo libs h (f, facts)), ids') :=
        (hfirst.replayed ids).bind (fun _ hknown => hknown) fun ids' =>
          .inl ⟨ids', rfl, fun _ h _ => h⟩
      exact hknown.bind (fun k hknown => hknown _ List.mem_cons_self) fun ids' =>
        (hrest ids').mono fun k hknown p hp => hknown p (List.mem_cons_of_mem _ hp)

end Build

/-! ### The header of a capture -/

section Header

variable {libs : Libraries} {sha : Sha256} {site : Site} {capture : Capture} {rootId : String}
  {h a : Artifact} {files : List SourceFile}

theorem buildNativeHeader_eq_ok :
    buildNativeHeader sha site capture rootId = .ok (h, files) ↔
      rootId ≠ "" ∧ site.recordId = .ok rootId ∧ ∃ inputs, inputsOf capture = .ok inputs ∧
        h = headerOf sha capture rootId inputs ∧ files = capture.sorted := by
  unfold buildNativeHeader
  rw [ensure_bind_eq_ok, bind_eq_ok]
  constructor
  · rintro ⟨hroot, recordId, hrecord, hrest⟩
    obtain ⟨rfl, hrest⟩ := ensure_bind_eq_ok.mp hrest
    obtain ⟨inputs, hinputs, hrest⟩ := bind_eq_ok.mp hrest
    cases hrest
    exact ⟨hroot, hrecord, inputs, hinputs, rfl, rfl⟩
  · rintro ⟨hroot, hrecord, inputs, hinputs, rfl, rfl⟩
    exact ⟨hroot, rootId, hrecord, ensure_bind_eq_ok.mpr ⟨rfl, bind_eq_ok.mpr ⟨inputs, hinputs, rfl⟩⟩⟩

theorem documents_of_header (hh : buildNativeHeader sha site capture rootId = .ok (h, files)) :
    files = capture.sorted ∧ h.revision.documents = capture.sorted.map (documentOf h) := by
  obtain ⟨-, -, inputs, -, rfl, rfl⟩ := buildNativeHeader_eq_ok.mp hh
  exact ⟨rfl, rfl⟩

theorem mem_sorted {f : SourceFile} : f ∈ capture.sorted ↔ f ∈ capture.files :=
  (List.mergeSort_perm _ _).mem_iff

/-- **A full build** is the loop over the files of a header. -/
theorem buildNative_eq_ok (hh : buildNativeHeader libs.sha site capture rootId = .ok (h, files)) :
    buildNative libs site capture rootId = .ok a ↔ ∃ ids,
      extractAll libs (capture.sorted.map fun f => (f, documentOf h f)) (h, .empty) =
        .ok (a, ids) := by
  obtain ⟨rfl, hdocuments⟩ := documents_of_header hh
  have hzip : capture.sorted.zip h.revision.documents =
      capture.sorted.map fun f => (f, documentOf h f) := by
    rw [hdocuments, List.map_prod_left_eq_zip]
  unfold buildNative
  rw [hh]
  show (extractAll libs (capture.sorted.zip h.revision.documents) (h, .empty) >>= _) = _ ↔ _
  rw [hzip, bind_eq_ok]
  constructor
  · rintro ⟨⟨a', ids⟩, hextract, hsame⟩
    cases hsame
    exact ⟨ids, hextract⟩
  · rintro ⟨ids, hextract⟩
    exact ⟨(a, ids), hextract, rfl⟩

/-- **No two files of a checked capture share a path.** -/
theorem Capture.paths_nodup (capture : Capture)
    (hdistinct : (capture.files.map fun f => (f.language, f.path)).Nodup) :
    (capture.files.map SourceFile.path).Nodup := by
  refine (List.Nodup.of_map _ hdistinct).map_on fun f hf g hg hpath => ?_
  refine List.inj_on_of_nodup_map hdistinct hf hg ?_
  rw [hpath, capture.tongue f hf g hg hpath]

theorem find_document (hpaths : (files.map SourceFile.path).Nodup) {f : SourceFile} (hf : f ∈ files) :
    (files.map (documentOf h)).find? (fun d => d.key.path = f.path) = some (documentOf h f) := by
  induction files with
  | nil => cases hf
  | cons g files ih =>
      rw [List.map_cons, List.nodup_cons] at hpaths
      rw [List.map_cons, List.find?_cons]
      show (match decide (g.path = f.path) with | true => _ | false => _) = _
      by_cases hpath : g.path = f.path
      · rw [decide_eq_true hpath]
        rcases List.mem_cons.mp hf with rfl | hrest
        · rfl
        · exact absurd (List.mem_map_of_mem hrest) (hpath ▸ hpaths.1)
      · rw [decide_eq_false hpath]
        rcases List.mem_cons.mp hf with rfl | hrest
        · exact absurd rfl hpath
        · exact ih hpaths.2 hrest

end Header

/-! ### The entries of an assembly -/

/-- Each file with the entry it takes. -/
inductive Picks : List SelectedDocument → List SourceFile → List (SourceFile × SelectedDocument) →
    Prop
  | nil {entries : List SelectedDocument} : Picks entries [] []
  | cons {entries : List SelectedDocument} {f : SourceFile} {files : List SourceFile}
      {e : SelectedDocument} {picked : List (SourceFile × SelectedDocument)}
      (found : Register.get SelectedDocument.path f.path entries = some e)
      (rest : Picks (Register.remove SelectedDocument.path f.path entries) files picked) :
      Picks entries (f :: files) ((f, e) :: picked)

namespace Picks

variable {entries : List SelectedDocument} {files : List SourceFile}
  {picked : List (SourceFile × SelectedDocument)}

theorem map_fst (h : Picks entries files picked) : picked.map Prod.fst = files := by
  induction h with
  | nil => rfl
  | cons _ _ ih => rw [List.map_cons, ih]

theorem mem (h : Picks entries files picked) :
    ∀ p ∈ picked, p.2 ∈ entries ∧ p.2.path = p.1.path := by
  induction h with
  | nil => exact fun _ hp => absurd hp List.not_mem_nil
  | cons hfound _ ih =>
      refine List.forall_mem_cons.mpr ⟨Register.mem_of_get hfound, fun p hp => ?_⟩
      obtain ⟨hmem, hpath⟩ := ih p hp
      exact ⟨(Register.mem_remove.mp hmem).1, hpath⟩

theorem exists_of (hpaths : (files.map SourceFile.path).Nodup)
    (hall : ∀ f ∈ files, ∃ e ∈ entries, e.path = f.path) : ∃ picked, Picks entries files picked := by
  induction files generalizing entries with
  | nil => exact ⟨[], .nil⟩
  | cons f files ih =>
      rw [List.map_cons, List.nodup_cons] at hpaths
      obtain ⟨e, he, hpath⟩ := hall f List.mem_cons_self
      cases hfound : Register.get SelectedDocument.path f.path entries with
      | none => exact absurd hpath (Register.get_eq_none.mp hfound e he)
      | some e' =>
          have hrest : ∃ picked, Picks (Register.remove SelectedDocument.path f.path entries) files
              picked := ih hpaths.2 fun g hg => by
            obtain ⟨e, he, hpath⟩ := hall g (List.mem_cons_of_mem _ hg)
            refine ⟨e, Register.mem_remove.mpr ⟨he, fun hsame => hpaths.1 ?_⟩, hpath⟩
            rw [← hsame, hpath]
            exact List.mem_map_of_mem hg
          obtain ⟨picked, hpicked⟩ := hrest
          exact ⟨_, .cons hfound hpicked⟩

end Picks

section Assemble

variable {libs : Libraries} {h a a' : Artifact} {files : List SourceFile}
  {entries : List SelectedDocument}

/-- What an assembly asks of the entry of a file. -/
def Fits (libs : Libraries) (h : Artifact) (p : SourceFile × SelectedDocument) : Prop :=
  p.2.Authentic libs.sha h p.1 (documentOf h p.1) ∧ p.2.Bound (documentOf h p.1)

def entryFacts (p : SourceFile × SelectedDocument) : SourceFile × DocumentFacts := (p.1, p.2.facts)

/-- **The loop of an assembly** gives every file its entry. -/
theorem assembleAll_eq_ok
    (hfound : ∀ f ∈ files, h.revision.documents.find? (fun d => d.key.path = f.path) =
      some (documentOf h f))
    (hproducer : a.producer = h.producer) (hset : a.sourceSet = h.sourceSet)
    (hrevision : a.revision = h.revision) :
    assembleAll libs entries files a = .ok a' ↔ ∃ picked, Picks entries files picked ∧
      (∀ p ∈ picked, Fits libs h p) ∧
      a' = ((picked.map entryFacts).map (boundTo libs h)).foldl Artifact.add a := by
  induction files generalizing entries a with
  | nil =>
      constructor
      · intro hdone
        cases hdone
        exact ⟨[], .nil, fun _ hp => absurd hp List.not_mem_nil, rfl⟩
      · rintro ⟨picked, hpicked, -, rfl⟩
        cases hpicked
        rfl
  | cons f files ih =>
      have hdocument := hfound f List.mem_cons_self
      have hrest := fun g hg => hfound g (List.mem_cons_of_mem f hg)
      have hsame : ∀ e : SelectedDocument, e.Authentic libs.sha a f (documentOf h f) ↔
          e.Authentic libs.sha h f (documentOf h f) := fun e => by
        unfold SelectedDocument.Authentic
        rw [hproducer, hset, hrevision]
      unfold assembleAll
      cases hget : Register.get SelectedDocument.path f.path entries with
      | none =>
          constructor
          · intro hfalse; cases hfalse
          · rintro ⟨picked, hpicked, -⟩
            cases hpicked with
            | cons hfound' _ =>
                rw [hget] at hfound'
                cases hfound'
      | some e =>
          simp only [hrevision, hdocument]
          rw [ensure_bind_eq_ok, ensure_bind_eq_ok, hsame]
          have hnext : assembleAll libs (Register.remove SelectedDocument.path f.path entries) files
              (a.add (boundTo libs h (f, e.facts))) = .ok a' ↔ _ :=
            ih hrest hproducer hset hrevision
          constructor
          · rintro ⟨hauthentic, hbound, hassemble⟩
            obtain ⟨picked, hpicked, hfits, rfl⟩ := hnext.mp hassemble
            exact ⟨(f, e) :: picked, .cons hget hpicked,
              List.forall_mem_cons.mpr ⟨⟨hauthentic, hbound⟩, hfits⟩, rfl⟩
          · rintro ⟨picked, hpicked, hfits, rfl⟩
            cases hpicked with
            | @cons _ _ _ e' picked hfound' hpicked =>
                rw [hget] at hfound'
                cases hfound'
                obtain ⟨⟨hauthentic, hbound⟩, hfits⟩ := List.forall_mem_cons.mp hfits
                exact ⟨hauthentic, hbound, hnext.mpr ⟨picked, hpicked, hfits, rfl⟩⟩

end Assemble

/-! ### What the check leaves to refuse -/

namespace IdentityRegistry

/-- What the one registry knows of declarations, and the other of occurrences. -/
def merge (k k' : IdentityRegistry) : IdentityRegistry :=
  ⟨k.handles.filter (fun e => e.1.toList.head? = some 's') ++
    k'.handles.filter fun e => e.1.toList.head? = some 'o'⟩

theorem lookup_filter {l : List (String × Registered)} {p : String → Bool} {handle : String} :
    (l.filter fun e => p e.1).lookup handle = if p handle = true then l.lookup handle else none := by
  induction l with
  | nil => split <;> rfl
  | cons e l ih =>
      by_cases hsame : handle = e.1
      · subst hsame
        by_cases hp : p e.1 = true
        · rw [List.filter_cons_of_pos (by simpa using hp), if_pos hp, List.lookup_cons,
            List.lookup_cons, beq_self_eq_true]
        · rw [List.filter_cons_of_neg (by simpa using hp), ih, if_neg hp, if_neg hp]
      · have hne : (handle == e.1) = false := beq_false_of_ne hsame
        rw [List.lookup_cons, hne, ← ih]
        by_cases hp : p e.1 = true
        · rw [List.filter_cons_of_pos (by simpa using hp), List.lookup_cons, hne]
        · rw [List.filter_cons_of_neg (by simpa using hp)]

variable {sha : Sha256} {k k' : IdentityRegistry}

theorem HasStable.merge {input : StableInput} (h : HasStable sha k input) (k' : IdentityRegistry) :
    HasStable sha (k.merge k') input := by
  refine ⟨h.valid, ?_⟩
  have hhead : (stableId sha input).toList.head? = some 's' := by
    unfold stableId handleOf
    rw [String.toList_append]
    rfl
  show List.lookup _ (_ ++ _) = _
  rw [List.lookup_append, lookup_filter (p := fun handle => handle.toList.head? = some 's'),
    if_pos (decide_eq_true hhead), h.knows]
  rfl

theorem HasOccurrence.merge {input : OccurrenceInput} (h : HasOccurrence sha k' input)
    (k : IdentityRegistry) :
    HasOccurrence sha (k.merge k') input := by
  refine ⟨h.valid, ?_⟩
  have hhead : (occurrenceId sha input).toList.head? = some 'o' := by
    unfold occurrenceId handleOf
    rw [String.toList_append]
    rfl
  have hother : ¬ decide ((occurrenceId sha input).toList.head? = some 's') = true := by
    rw [hhead]
    decide
  show List.lookup _ (_ ++ _) = _
  rw [List.lookup_append, lookup_filter (p := fun handle => handle.toList.head? = some 's'),
    if_neg hother, lookup_filter (p := fun handle => handle.toList.head? = some 'o'),
    if_pos (decide_eq_true hhead), h.knows]
  rfl

end IdentityRegistry

section Entries

variable {libs : Libraries} {h a : Artifact} {files : List SourceFile}

/-- **An entry that was measured of a file**, for the revision it names. -/
structure MeasuredAt (libs : Libraries) (e : SelectedDocument) (f : SourceFile) : Prop where
  measured : ∃ ids ids',
    measureDocument libs e.producer e.sourceSet e.revision f e.document ids = .ok (e.facts, ids')
  revision : e.document.revisionId = e.revision.id

def SelectedDocument.header (e : SelectedDocument) : Artifact := e.artifact e.revision.documents

namespace MeasuredAt

variable {e : SelectedDocument} {f : SourceFile}

theorem document (he : MeasuredAt libs e f) :
    e.document.key = ⟨e.sourceSet.id, f.language, f.path⟩ ∧ e.document.contentHash = f.hash ∧
      e.document.byteLength = byteLength f.text ∧ f.hash = libs.sha.hash f.text := by
  obtain ⟨ids, ids', hmeasured⟩ := he.measured
  exact document_of_measured (h := e.header) hmeasured

theorem path (he : MeasuredAt libs e f) : e.path = f.path := by
  unfold SelectedDocument.path
  rw [he.document.1]

theorem measuresFor (he : MeasuredAt libs e f) (hproducer : e.producer = h.producer)
    (hset : e.sourceSet = h.sourceSet) : MeasuresFor libs h f e.facts := by
  obtain ⟨ids, ids', hmeasured⟩ := he.measured
  rw [hproducer, hset] at hmeasured
  exact ⟨e.revision, e.document, ids, ids', hmeasured⟩

/-- **Its facts are those of its document**, in the revision it names. -/
theorem bound (he : MeasuredAt libs e f) (hset : e.sourceSet = h.sourceSet) :
    e.Bound (documentOf h f) := by
  obtain ⟨ids, ids', hmeasured⟩ := he.measured
  obtain ⟨-, hextracted⟩ := measureDocument_ok (h := e.header) hmeasured
  obtain ⟨tree, -, hfacts⟩ := hextracted.measured
  have hkey : (contextOf libs e.header f).document = (documentOf h f).key := by
    show (⟨e.sourceSet.id, f.language, f.path⟩ : DocumentKey) = _
    rw [hset]
    rfl
  obtain ⟨hasError, s, hcoverage⟩ := hfacts.coverage
  have hproof : e.facts.provenance.id = (contextOf libs e.header f).proofId := by
    rw [hfacts.provenance]
    rfl
  unfold SelectedDocument.Bound
  rw [hproof]
  refine ⟨he.revision, ?_, ?_, ?_, ?_, fun d hd => ?_, fun c hc => ?_, fun r hr => ?_⟩
  · rw [hcoverage]; rfl
  · rw [hfacts.provenance]; rfl
  · rw [hfacts.provenance]; exact hkey
  · rw [hfacts.provenance]; rfl
  · have hsound := hfacts.declarations d hd
    exact ⟨hsound.document.trans hkey, hsound.revision, hsound.proof⟩
  · have hsound := hfacts.calls c hc
    exact ⟨hsound.document.trans hkey, hsound.revision, hsound.proof⟩
  · have hsound := hfacts.controlRegions r hr
    exact ⟨hsound.document.trans hkey, hsound.revision, hsound.proof⟩

end MeasuredAt

/-- **What passed the check leaves nothing to refuse**: one registry knows all identities of
the facts it has of a file. -/
theorem factsKnown_of_checked {docs : Documents} {proofs : List String}
    {declared : List (String × Declaration)} {k k' : IdentityRegistry}
    (hchecked : Checked libs a files docs proofs declared k k') (hproducer : a.producer = h.producer)
    (hset : a.sourceSet = h.sourceSet) {f : SourceFile} (hf : f ∈ files) {facts : DocumentFacts}
    (hof : facts.Of (documentOf h f).key) {revision proof : String}
    (hdeclarations : (facts.rebind revision proof).declarations ⊆ a.declarations)
    (hcalls : (facts.rebind revision proof).calls ⊆ a.calls)
    (hcontrols : (facts.rebind revision proof).controlRegions ⊆ a.controlRegions) :
    (contextOf libs h f).FactsKnown facts (k.merge k') := by
  refine ⟨fun d hd => ?_, fun r hr => ?_, fun c hc => ?_⟩
  · have hmem := hdeclarations (List.mem_map_of_mem hd)
    have hknown := (hchecked.declarations.stable _ hmem).2.merge k'
    have hinput : (d.rebind revision proof).input a.sourceSet.id =
        (contextOf libs h f).stableInput d.ancestors d.key := by
      unfold Declaration.input Context.stableInput
      show StableInput.mk a.sourceSet.id d.document.path d.document.language d.ancestors d.key = _
      rw [hof.1 d hd, hset]
      rfl
    rw [hinput] at hknown
    exact hknown
  · obtain ⟨file, owner, haccepted⟩ := hchecked.controlRegions _ (hcontrols (List.mem_map_of_mem hr))
    have hdocument : (r.rebind revision proof).document = (documentOf h f).key := hof.2.2 r hr
    have hlookup := haccepted.document
    have hknown := haccepted.known.merge k
    rw [hdocument] at hlookup hknown
    rw [hchecked.file_eq hf hlookup rfl rfl] at hknown
    unfold inputIn occurrenceInputOf at hknown
    rw [hproducer] at hknown
    exact hknown
  · obtain ⟨file, owner, haccepted⟩ := hchecked.calls _ (hcalls (List.mem_map_of_mem hc))
    have hdocument : (c.rebind revision proof).document = (documentOf h f).key := hof.2.1 c hc
    have hlookup := haccepted.document
    have hknown := haccepted.known.merge k
    rw [hdocument] at hlookup hknown
    rw [hchecked.file_eq hf hlookup rfl rfl] at hknown
    unfold inputIn occurrenceInputOf at hknown
    rw [hproducer] at hknown
    exact hknown

end Entries

/-! ### Assembly and build -/

section Agree

variable {libs : Libraries} {site : Site} {capture : Capture} {rootId : String}
  {selected : List SelectedDocument} {h a : Artifact}

/-- **An artifact is valid if it is the full build**, and passes. -/
theorem validate_eq_ok : a.validate libs site capture rootId = .ok () ↔
    site.verify = .ok () ∧ validateStructure libs a capture.files = .ok () ∧
      buildNative libs site capture rootId = .ok a := by
  constructor
  · intro hvalidate
    obtain ⟨_, hverify, hvalidate⟩ := bind_eq_ok.mp hvalidate
    obtain ⟨_, hvalid, hvalidate⟩ := bind_eq_ok.mp hvalidate
    obtain ⟨expected, hbuild, hvalidate⟩ := bind_eq_ok.mp hvalidate
    obtain ⟨_, -, hvalidate⟩ := bind_eq_ok.mp hvalidate
    obtain ⟨_, -, hvalidate⟩ := bind_eq_ok.mp hvalidate
    obtain rfl := ensure_eq_ok.mp hvalidate
    exact ⟨hverify, hvalid, hbuild⟩
  · rintro ⟨hverify, hvalid, hbuild⟩
    refine bind_eq_ok.mpr ⟨(), hverify, bind_eq_ok.mpr ⟨(), hvalid, bind_eq_ok.mpr ⟨a, hbuild, ?_⟩⟩⟩
    exact bind_eq_ok.mpr ⟨(), hverify, bind_eq_ok.mpr ⟨(), hvalid, ensure_eq_ok.mpr rfl⟩⟩

theorem subset_foldl_add {all : List DocumentFacts} {facts : DocumentFacts} (hfacts : facts ∈ all) :
    facts.declarations ⊆ (all.foldl Artifact.add a).declarations ∧
      facts.calls ⊆ (all.foldl Artifact.add a).calls ∧
      facts.controlRegions ⊆ (all.foldl Artifact.add a).controlRegions := by
  rw [foldl_add]
  refine ⟨fun d hd => ?_, fun c hc => ?_, fun r hr => ?_⟩
  · exact List.mem_append_right _ (List.mem_flatMap.mpr ⟨facts, hfacts, hd⟩)
  · exact List.mem_append_right _ (List.mem_flatMap.mpr ⟨facts, hfacts, hc⟩)
  · exact List.mem_append_right _ (List.mem_flatMap.mpr ⟨facts, hfacts, hr⟩)

theorem header_foldl_add (all : List DocumentFacts) :
    (all.foldl Artifact.add a).producer = a.producer ∧
      (all.foldl Artifact.add a).sourceSet = a.sourceSet := by
  rw [foldl_add]
  exact ⟨rfl, rfl⟩

theorem found_of_header {files : List SourceFile}
    (hh : buildNativeHeader libs.sha site capture rootId = .ok (h, files))
    (hpaths : (capture.files.map SourceFile.path).Nodup) :
    ∀ f ∈ files, h.revision.documents.find? (fun d => d.key.path = f.path) =
      some (documentOf h f) := by
  obtain ⟨rfl, hdocuments⟩ := documents_of_header hh
  intro f hf
  rw [hdocuments]
  have hsorted : (capture.sorted.map SourceFile.path).Nodup :=
    ((List.mergeSort_perm _ _).map _).nodup_iff.mpr hpaths
  exact find_document hsorted hf

theorem file_of_path (hpaths : (capture.files.map SourceFile.path).Nodup) {f g : SourceFile}
    (hf : f ∈ capture.files) (hg : g ∈ capture.files) (hpath : f.path = g.path) : f = g :=
  List.inj_on_of_nodup_map hpaths hf hg hpath

/-- What an assembly has checked, and which entry it gave to which file. -/
theorem picked_of_assemble
    (hassemble : assembleSelectedRevision libs site capture rootId selected = .ok a) :
    site.verify = .ok () ∧ (capture.files.map SourceFile.path).Nodup ∧ ∃ h picked,
      buildNativeHeader libs.sha site capture rootId = .ok (h, capture.sorted) ∧
      validateStructure libs a capture.files = .ok () ∧ Picks selected capture.sorted picked ∧
      (∀ p ∈ picked, Fits libs h p) ∧
      a = ((picked.map entryFacts).map (boundTo libs h)).foldl Artifact.add h := by
  obtain ⟨_, hverify, hassemble⟩ := bind_eq_ok.mp hassemble
  obtain ⟨⟨h, files⟩, hh, hassemble⟩ := bind_eq_ok.mp hassemble
  obtain ⟨-, hassemble⟩ := ensure_bind_eq_ok.mp hassemble
  obtain ⟨-, hassemble⟩ := ensure_bind_eq_ok.mp hassemble
  obtain ⟨artifact, hall, hassemble⟩ := bind_eq_ok.mp hassemble
  obtain ⟨_, hvalid, hassemble⟩ := bind_eq_ok.mp hassemble
  obtain ⟨_, -, hassemble⟩ := bind_eq_ok.mp hassemble
  cases hassemble
  obtain ⟨docs, proofs, declared, k, k', hchecked⟩ := checked_of_validateStructure hvalid
  have hpaths := capture.paths_nodup hchecked.distinct
  obtain ⟨rfl, -⟩ := documents_of_header hh
  obtain ⟨picked, hpicked, hfits, rfl⟩ :=
    (assembleAll_eq_ok (found_of_header hh hpaths) rfl rfl rfl).mp hall
  exact ⟨hverify, hpaths, h, picked, hh, hvalid, hpicked, hfits, rfl⟩

/-- **What is assembled of measured documents is what is built.** -/
theorem validate_of_assemble
    (hmeasured : ∀ e ∈ selected, ∃ f ∈ capture.files, MeasuredAt libs e f)
    (hassemble : assembleSelectedRevision libs site capture rootId selected = .ok a) :
    a.validate libs site capture rootId = .ok () := by
  obtain ⟨hverify, hpaths, h, picked, hh, hvalid, hpicked, hfits, rfl⟩ :=
    picked_of_assemble hassemble
  obtain ⟨docs, proofs, declared, k, k', hchecked⟩ := checked_of_validateStructure hvalid
  -- every entry is a measurement of the very file that takes it
  have hentries : ∀ p ∈ picked, p.1 ∈ capture.files ∧ MeasuredAt libs p.2 p.1 := by
    intro p hp
    have hfile : p.1 ∈ capture.files := mem_sorted.mp (hpicked.map_fst ▸ List.mem_map_of_mem hp)
    obtain ⟨hmem, hpath⟩ := hpicked.mem p hp
    obtain ⟨f, hf, he⟩ := hmeasured p.2 hmem
    rw [file_of_path hpaths hfile hf (hpath.symm.trans he.path)]
    exact ⟨hf, he⟩
  have hmeasures : ∀ q ∈ picked.map entryFacts, MeasuresFor libs h q.1 q.2 := by
    intro q hq
    obtain ⟨p, hp, rfl⟩ := List.mem_map.mp hq
    exact (hentries p hp).2.measuresFor (hfits p hp).1.1 (hfits p hp).1.2.1
  obtain ⟨hproducer, hset⟩ := header_foldl_add (a := h) ((picked.map entryFacts).map (boundTo libs h))
  have hknown : ∀ q ∈ picked.map entryFacts,
      (contextOf libs h q.1).FactsKnown q.2 (k.merge k') := by
    intro q hq
    obtain ⟨hdeclarations, hcalls, hcontrols⟩ :=
      subset_foldl_add (a := h) (List.mem_map_of_mem (f := boundTo libs h) hq)
    obtain ⟨p, hp, rfl⟩ := List.mem_map.mp hq
    obtain ⟨-, hbound⟩ := hfits p hp
    obtain ⟨-, -, -, -, -, hds, hcs, hrs⟩ := hbound
    exact factsKnown_of_checked hchecked hproducer hset (hentries p hp).1
      ⟨fun d hd => (hds d hd).1, fun c hc => (hcs c hc).1, fun r hr => (hrs r hr).1⟩
      hdeclarations hcalls hcontrols
  obtain ⟨ids, hextract⟩ := (extractAll_replayed hmeasures rfl rfl rfl .empty).returns
    (IdentityRegistry.empty_within _) hknown
  have hfiles : (picked.map entryFacts).map (fun q => (q.1, documentOf h q.1)) =
      capture.sorted.map fun f => (f, documentOf h f) := by
    rw [← hpicked.map_fst, List.map_map, List.map_map]
    rfl
  rw [hfiles] at hextract
  exact validate_eq_ok.mpr ⟨hverify, hvalid, (buildNative_eq_ok hh).mpr ⟨ids, hextract⟩⟩

/-- **What is assembled passes the selective check.** -/
theorem validateSelective_of_assemble
    (hassemble : assembleSelectedRevision libs site capture rootId selected = .ok a) :
    a.validateSelective libs site capture rootId = .ok () := by
  obtain ⟨hverify, -, h, picked, hh, hvalid, -, -, rfl⟩ := picked_of_assemble hassemble
  refine bind_eq_ok.mpr ⟨(), hverify, bind_eq_ok.mpr ⟨_, hh, ensure_bind_eq_ok.mpr
    ⟨?_, bind_eq_ok.mpr ⟨(), hvalid, hverify⟩⟩⟩⟩
  rw [foldl_add]
  exact ⟨rfl, rfl, rfl⟩

/-- The entry was measured with the producer and the inputs of a header. -/
structure SameInputs (h : Artifact) (e : SelectedDocument) : Prop where
  producer : e.producer = h.producer
  sourceSet : e.sourceSet = h.sourceSet
  revision : e.revision.sourceSetId = h.revision.sourceSetId ∧
    e.revision.toolchainHash = h.revision.toolchainHash ∧
    e.revision.configHash = h.revision.configHash ∧
    e.revision.dependencyHash = h.revision.dependencyHash

/-- **What is built can be assembled.** -/
theorem assemble_of_validate
    (hmeasured : ∀ e ∈ selected, ∃ f ∈ capture.files, MeasuredAt libs e f)
    (hsame : ∀ h files, buildNativeHeader libs.sha site capture rootId = .ok (h, files) →
      ∀ e ∈ selected, SameInputs h e)
    (hcover : (selected.map SelectedDocument.path).Perm (capture.files.map SourceFile.path))
    (hvalidate : a.validate libs site capture rootId = .ok ()) :
    assembleSelectedRevision libs site capture rootId selected = .ok a := by
  obtain ⟨hverify, hvalid, hbuild⟩ := validate_eq_ok.mp hvalidate
  obtain ⟨⟨h, files⟩, hh, -⟩ := bind_eq_ok.mp hbuild
  obtain ⟨ids, hextract⟩ := (buildNative_eq_ok hh).mp hbuild
  obtain ⟨docs, proofs, declared, k, k', hchecked⟩ := checked_of_validateStructure hvalid
  have hpaths := capture.paths_nodup hchecked.distinct
  obtain ⟨rfl, -⟩ := documents_of_header hh
  have hsorted : (capture.sorted.map SourceFile.path).Perm (capture.files.map SourceFile.path) :=
    (List.mergeSort_perm _ _).map _
  have hentry : ∀ f ∈ capture.sorted, ∃ e ∈ selected, e.path = f.path := by
    intro f hf
    have hpath : f.path ∈ selected.map SelectedDocument.path :=
      hcover.mem_iff.mpr (List.mem_map_of_mem (mem_sorted.mp hf))
    obtain ⟨e, he, heq⟩ := List.mem_map.mp hpath
    exact ⟨e, he, heq⟩
  obtain ⟨picked, hpicked⟩ := Picks.exists_of (hsorted.nodup_iff.mpr hpaths) hentry
  have hentries : ∀ p ∈ picked, p.2 ∈ selected ∧ MeasuredAt libs p.2 p.1 := by
    intro p hp
    have hfile : p.1 ∈ capture.files := mem_sorted.mp (hpicked.map_fst ▸ List.mem_map_of_mem hp)
    obtain ⟨hmem, hpath⟩ := hpicked.mem p hp
    obtain ⟨f, hf, he⟩ := hmeasured p.2 hmem
    rw [file_of_path hpaths hfile hf (hpath.symm.trans he.path)]
    exact ⟨hmem, he⟩
  have hfits : ∀ p ∈ picked, Fits libs h p := by
    intro p hp
    obtain ⟨hmem, he⟩ := hentries p hp
    have hinputs := hsame h _ hh p.2 hmem
    obtain ⟨hkey, hcontent, hlength, hhash⟩ := he.document
    rw [hinputs.sourceSet] at hkey
    obtain ⟨hset, htoolchain, hconfig, hdependency⟩ := hinputs.revision
    exact ⟨⟨hinputs.producer, hinputs.sourceSet, hset, htoolchain, hconfig, hdependency, hkey,
      hcontent, hlength, rfl, hhash.symm⟩, he.bound hinputs.sourceSet⟩
  have hmeasures : ∀ q ∈ picked.map entryFacts, MeasuresFor libs h q.1 q.2 := by
    intro q hq
    obtain ⟨p, hp, rfl⟩ := List.mem_map.mp hq
    obtain ⟨hmem, he⟩ := hentries p hp
    exact he.measuresFor (hsame h _ hh p.2 hmem).producer (hsame h _ hh p.2 hmem).sourceSet
  have hfiles : (picked.map entryFacts).map (fun q => (q.1, documentOf h q.1)) =
      capture.sorted.map fun f => (f, documentOf h f) := by
    rw [← hpicked.map_fst, List.map_map, List.map_map]
    rfl
  rw [← hfiles] at hextract
  obtain ⟨ids', hmade⟩ := (extractAll_replayed hmeasures rfl rfl rfl .empty).of_ok hextract
  have hall : assembleAll libs selected capture.sorted h = .ok a :=
    (assembleAll_eq_ok (found_of_header hh hpaths) rfl rfl rfl).mpr
    ⟨picked, hpicked, hfits, congrArg Prod.fst hmade⟩
  have hlength : selected.length = capture.sorted.length := by
    have hcount := (hcover.trans hsorted.symm).length_eq
    rwa [List.length_map, List.length_map] at hcount
  refine bind_eq_ok.mpr ⟨(), hverify, bind_eq_ok.mpr ⟨_, hh, ensure_bind_eq_ok.mpr
    ⟨hcover.nodup_iff.mpr hpaths, ensure_bind_eq_ok.mpr ⟨hlength, ?_⟩⟩⟩⟩
  exact bind_eq_ok.mpr ⟨_, hall, bind_eq_ok.mpr ⟨(), hvalid, bind_eq_ok.mpr ⟨(), hverify, rfl⟩⟩⟩

end Agree

/-! ### Documents of a prior artifact -/

theorem filter_flatMap {α β κ : Type} [DecidableEq κ] {entries : List α} {key : α → κ}
    {rows : α → List β} {of : β → κ} (hkeyed : (entries.map key).Nodup)
    (hrows : ∀ p ∈ entries, ∀ r ∈ rows p, of r = key p) {p : α} (hp : p ∈ entries) :
    (entries.flatMap rows).filter (fun r => of r = key p) = rows p := by
  induction entries with
  | nil => cases hp
  | cons q entries ih =>
      obtain ⟨hfirst, hrest⟩ := List.forall_mem_cons.mp hrows
      rw [List.map_cons, List.nodup_cons] at hkeyed
      rw [List.flatMap_cons, List.filter_append]
      rcases List.mem_cons.mp hp with rfl | hp
      · have hown : (rows p).filter (fun r => of r = key p) = rows p :=
          List.filter_eq_self.mpr fun r hr => decide_eq_true (hfirst r hr)
        have hnone : (entries.flatMap rows).filter (fun r => of r = key p) = [] := by
          refine List.filter_eq_nil_iff.mpr fun r hr hsame => hkeyed.1 ?_
          obtain ⟨q, hq, hr⟩ := List.mem_flatMap.mp hr
          rw [← of_decide_eq_true hsame, hrest q hq r hr]
          exact List.mem_map_of_mem hq
        rw [hown, hnone, List.append_nil]
      · have hnone : (rows q).filter (fun r => of r = key p) = [] := by
          refine List.filter_eq_nil_iff.mpr fun r hr hsame => hkeyed.1 ?_
          rw [← hfirst r hr, of_decide_eq_true hsame]
          exact List.mem_map_of_mem hp
        rw [hnone, List.nil_append, ih hkeyed.2 hrest hp]

section Prior

variable {libs : Libraries} {site : Site} {capture : Capture} {rootId : String}
  {h a a' prior : Artifact} {ids ids' : IdentityRegistry} {f : SourceFile} {e : SelectedDocument}

theorem extractAll_measures {files : List SourceFile} (hproducer : a.producer = h.producer)
    (hset : a.sourceSet = h.sourceSet) (hrevision : a.revision = h.revision)
    (hextract : extractAll libs (files.map fun f => (f, documentOf h f)) (a, ids) =
      .ok (a', ids')) :
    ∃ entries : List (SourceFile × DocumentFacts), entries.map Prod.fst = files ∧
      (∀ p ∈ entries, ∃ i j, measureDocument libs h.producer h.sourceSet h.revision p.1
        (documentOf h p.1) i = .ok (p.2, j)) ∧
      a' = (entries.map Prod.snd).foldl Artifact.add a := by
  induction files generalizing a ids with
  | nil => cases hextract; exact ⟨[], rfl, fun _ hp => absurd hp List.not_mem_nil, rfl⟩
  | cons f files ih =>
      obtain ⟨⟨a₁, ids₁⟩, hknown, hextract⟩ := bind_eq_ok.mp hextract
      obtain ⟨⟨facts, ids₂⟩, hfacts, hknown⟩ := bind_eq_ok.mp hknown
      cases hknown
      rw [hproducer, hset, hrevision] at hfacts
      obtain ⟨entries, hfst, hall, rfl⟩ := ih (a := a.add facts) hproducer hset hrevision hextract
      exact ⟨(f, facts) :: entries, by rw [List.map_cons, hfst],
        List.forall_mem_cons.mpr ⟨⟨ids, _, hfacts⟩, hall⟩, rfl⟩

/-- Every row of facts that were measured is of their document. -/
theorem of_measured {document : Document}
    {facts : DocumentFacts} (hmeasured : measureDocument libs h.producer h.sourceSet h.revision f
      document ids = .ok (facts, ids')) :
    facts.coverage.key = (documentOf h f).key ∧
      facts.provenance.document = (documentOf h f).key ∧ facts.Of (documentOf h f).key := by
  obtain ⟨-, hextracted⟩ := measureDocument_ok hmeasured
  obtain ⟨tree, -, hfacts⟩ := hextracted.measured
  obtain ⟨hasError, s, hcoverage⟩ := hfacts.coverage
  refine ⟨?_, ?_, fun d hd => (hfacts.declarations d hd).document,
    fun c hc => (hfacts.calls c hc).document, fun r hr => (hfacts.controlRegions r hr).document⟩
  · rw [hcoverage]; rfl
  · rw [hfacts.provenance]; rfl

theorem get_map {R : Type} {entries : List (SourceFile × DocumentFacts)}
    {key : SourceFile × DocumentFacts → DocumentKey} {p : SourceFile × DocumentFacts}
    (of : R → DocumentKey) (row : DocumentFacts → R) (hkeyed : (entries.map key).Nodup)
    (hrows : ∀ p ∈ entries, of (row p.2) = key p) (hp : p ∈ entries) :
    Register.get of (key p) (entries.map (row ∘ Prod.snd)) = some (row p.2) := by
  have hsame : entries.map (of ∘ row ∘ Prod.snd) = entries.map key := List.map_congr_left hrows
  refine (Register.get_eq_some ?_).mpr ⟨List.mem_map_of_mem hp, hrows p hp⟩
  show ((entries.map _).map _).Nodup
  rw [List.map_map, hsame]
  exact hkeyed

theorem factsOf?_foldl {entries : List (SourceFile × DocumentFacts)} {p : SourceFile × DocumentFacts}
    (hblank : h.coverage = [] ∧ h.provenance = [] ∧ h.declarations = [] ∧ h.calls = [] ∧
      h.controlRegions = [])
    (hrows : ∀ p ∈ entries, p.2.coverage.key = (documentOf h p.1).key ∧
      p.2.provenance.document = (documentOf h p.1).key ∧ p.2.Of (documentOf h p.1).key)
    (hkeyed : (entries.map fun p => (documentOf h p.1).key).Nodup) (hp : p ∈ entries) :
    ((entries.map Prod.snd).foldl Artifact.add h).factsOf? (documentOf h p.1).key = some p.2 := by
  obtain ⟨hcoverage, hprovenance, hdeclarations, hcalls, hcontrols⟩ := hblank
  rw [foldl_add, hcoverage, hprovenance, hdeclarations, hcalls, hcontrols]
  simp only [List.nil_append, List.map_map, List.flatMap_map]
  have hfound := get_map Coverage.key DocumentFacts.coverage hkeyed (fun p hp => (hrows p hp).1) hp
  have hfound' := get_map Provenance.document DocumentFacts.provenance hkeyed
    (fun p hp => (hrows p hp).2.1) hp
  unfold Artifact.factsOf?
  unfold Register.get at hfound hfound'
  rw [hfound, hfound', filter_flatMap hkeyed (fun p hp => (hrows p hp).2.2.1) hp,
    filter_flatMap hkeyed (fun p hp => (hrows p hp).2.2.2.1) hp,
    filter_flatMap hkeyed (fun p hp => (hrows p hp).2.2.2.2) hp]
  rfl

/-- **A valid artifact has, of every file, what was measured of it.** -/
theorem measured_of_validate (hf : f ∈ capture.files)
    (hvalidate : a.validate libs site capture rootId = .ok ()) : ∃ h files facts i j,
    buildNativeHeader libs.sha site capture rootId = .ok (h, files) ∧
      measureDocument libs h.producer h.sourceSet h.revision f (documentOf h f) i =
        .ok (facts, j) ∧
      (a.producer = h.producer ∧ a.sourceSet = h.sourceSet ∧ a.revision = h.revision) ∧
      a.factsOf? (documentOf h f).key = some facts := by
  obtain ⟨-, hvalid, hbuild⟩ := validate_eq_ok.mp hvalidate
  obtain ⟨⟨h, files⟩, hh, -⟩ := bind_eq_ok.mp hbuild
  obtain ⟨ids, hextract⟩ := (buildNative_eq_ok hh).mp hbuild
  obtain ⟨docs, proofs, declared, k, k', hchecked⟩ := checked_of_validateStructure hvalid
  obtain ⟨entries, hfst, hall, rfl⟩ := extractAll_measures rfl rfl rfl hextract
  have hkeyed : (entries.map fun p => (documentOf h p.1).key).Nodup := by
    have hpairs : (capture.sorted.map fun f => (f.language, f.path)).Nodup :=
      ((List.mergeSort_perm _ _).map _).nodup_iff.mpr hchecked.distinct
    have hkeys : (capture.sorted.map fun f => (documentOf h f).key).Nodup := by
      refine (List.Nodup.of_map _ hpairs).map_on fun f hf g hg hsame => ?_
      obtain ⟨-, hlanguage, hpath⟩ := DocumentKey.mk.injEq .. ▸ hsame
      refine List.inj_on_of_nodup_map hpairs hf hg ?_
      rw [hlanguage, hpath]
    rw [← hfst, List.map_map] at hkeys
    exact hkeys
  have hentry : f ∈ entries.map Prod.fst := hfst ▸ mem_sorted.mpr hf
  obtain ⟨⟨f, facts⟩, hmem, rfl⟩ := List.mem_map.mp hentry
  obtain ⟨i, j, hmeasured⟩ := hall _ hmem
  have hblank : h.coverage = [] ∧ h.provenance = [] ∧ h.declarations = [] ∧ h.calls = [] ∧
      h.controlRegions = [] := by
    obtain ⟨-, -, inputs, -, rfl, -⟩ := buildNativeHeader_eq_ok.mp hh
    exact ⟨rfl, rfl, rfl, rfl, rfl⟩
  refine ⟨h, files, facts, i, j, hh, hmeasured, ?_, factsOf?_foldl hblank (fun p hp => ?_) hkeyed hmem⟩
  · rw [foldl_add]; exact ⟨rfl, rfl, rfl⟩
  · obtain ⟨i, j, hmeasured⟩ := hall p hp
    exact of_measured hmeasured

/-- A document of a prior artifact, as it was measured then. -/
structure Kept (prior : Artifact) (f : SourceFile) (e : SelectedDocument) : Prop where
  producer : e.producer = prior.producer
  sourceSet : e.sourceSet = prior.sourceSet
  /-- Its revision may name any of the documents. -/
  revision : ∃ documents, e.revision = { prior.revision with documents := documents }
  document : e.document = documentOf prior f
  facts : prior.factsOf? e.document.key = some e.facts

/-- **Every document of a valid artifact can be kept.** -/
theorem exists_kept (hf : f ∈ capture.files)
    (hprior : prior.validate libs site capture rootId = .ok ()) : ∃ e, Kept prior f e := by
  obtain ⟨h, files, facts, i, j, -, -, ⟨-, hset, hrevision⟩, hfacts⟩ := measured_of_validate hf hprior
  refine ⟨⟨prior.producer, prior.sourceSet, prior.revision, documentOf prior f, facts⟩,
    rfl, rfl, ⟨prior.revision.documents, rfl⟩, rfl, ?_⟩
  unfold documentOf at hfacts ⊢
  rw [hset]
  exact hfacts

/-- **A document that an artifact kept was measured.** -/
theorem Kept.measuredAt (he : Kept prior f e) (hf : f ∈ capture.files)
    (hprior : prior.validate libs site capture rootId = .ok ()) : MeasuredAt libs e f := by
  obtain ⟨h, files, facts, i, j, -, hmeasured, ⟨hproducer, hset, hrevision⟩, hfacts⟩ :=
    measured_of_validate hf hprior
  have hdocument : e.document = documentOf h f := by
    rw [he.document]
    unfold documentOf
    rw [hset, hrevision]
  have hsame : e.facts = facts := by
    have hkept := he.facts
    rw [hdocument, hfacts] at hkept
    exact (Option.some.inj hkept).symm
  obtain ⟨documents, hid⟩ := he.revision
  refine ⟨⟨i, j, ?_⟩, ?_⟩
  · rw [he.producer, he.sourceSet, hid, hproducer, hset, hrevision, hdocument, hsame]
    exact hmeasured
  · rw [hdocument, hid, hrevision]; rfl

/-- **A document of the capture is a measurement of its file**, under the header of the
capture. -/
theorem measuredAt_of_captured {path : String}
    (he : measureCapturedDocument libs site capture rootId path = .ok e) :
    ∃ f ∈ capture.files, f.path = path ∧ MeasuredAt libs e f ∧ ∃ h files,
      buildNativeHeader libs.sha site capture rootId = .ok (h, files) ∧
        e.producer = h.producer ∧ e.sourceSet = h.sourceSet ∧ e.revision = h.revision := by
  obtain ⟨_, -, he⟩ := bind_eq_ok.mp he
  obtain ⟨⟨h, files⟩, hh, he⟩ := bind_eq_ok.mp he
  obtain ⟨rfl, -⟩ := documents_of_header hh
  simp only at he
  split at he
  · rename_i file hfiles
    obtain ⟨-, he⟩ := ensure_bind_eq_ok.mp he
    split at he
    · rename_i document hdocuments
      obtain ⟨⟨hset, hlanguage, hcontent, hlength, hrevision⟩, he⟩ := ensure_bind_eq_ok.mp he
      obtain ⟨⟨facts, ids⟩, hmeasured, he⟩ := bind_eq_ok.mp he
      obtain ⟨-, he⟩ := ensure_bind_eq_ok.mp he
      obtain ⟨_, -, he⟩ := bind_eq_ok.mp he
      cases he
      have hfile : file ∈ capture.sorted.filter fun f => f.path = path :=
        hfiles ▸ List.mem_singleton_self file
      obtain ⟨hsorted, hpath⟩ := List.mem_filter.mp hfile
      exact ⟨file, mem_sorted.mp hsorted, of_decide_eq_true hpath,
        ⟨⟨_, ids, hmeasured⟩, hrevision⟩, h, _, hh, rfl, rfl, rfl⟩
    · cases he
  · cases he

/-- **The changed artifact is a part of the full build**: one header, and of the changed document
the very facts that the full build has of it. -/
theorem validatedChangedArtifact_of_build {path : String} {c : Artifact}
    (he : measureCapturedDocument libs site capture rootId path = .ok e)
    (hchanged : validatedChangedArtifact libs site capture e = .ok c)
    (hvalidate : a.validate libs site capture rootId = .ok ()) :
    (c.producer = a.producer ∧ c.sourceSet = a.sourceSet ∧ c.revision = a.revision) ∧
      c.declarations = e.facts.declarations ∧ c.calls = e.facts.calls ∧
      c.controlRegions = e.facts.controlRegions ∧
      a.factsOf? e.document.key = some e.facts := by
  obtain ⟨f, hf, -, hmeasuredAt, h, files, hh, hproducer, hset, hrevision⟩ :=
    measuredAt_of_captured he
  obtain ⟨h', files', facts, i, j, hh', hmeasured, hheader, hfacts⟩ :=
    measured_of_validate hf hvalidate
  obtain ⟨rfl, rfl⟩ := Prod.mk.inj (Except.ok.inj (hh.symm.trans hh'))
  obtain ⟨hkey, hcontent, hlength, -⟩ := hmeasuredAt.document
  rw [hset] at hkey
  obtain ⟨ids, ids', hown⟩ := hmeasuredAt.measured
  rw [hproducer, hset, hrevision] at hown
  -- measured twice for one header, with one registry or the other
  have hreplayed := measureDocument_replayed hmeasured h.revision e.document
    ⟨hkey, hcontent, hlength⟩
  obtain ⟨_, hfirst⟩ := (hreplayed ids).of_ok hown
  have hself := measureDocument_replayed hmeasured h.revision (documentOf h f) ⟨rfl, rfl, rfl⟩
  obtain ⟨_, hsecond⟩ := (hself i).of_ok hmeasured
  have hsame : e.facts = facts :=
    (congrArg Prod.fst hfirst).trans (congrArg Prod.fst hsecond).symm
  unfold validatedChangedArtifact at hchanged
  split at hchanged
  · cases hchanged
  · obtain ⟨_, -, hchanged⟩ := bind_eq_ok.mp hchanged
    obtain ⟨_, -, hchanged⟩ := bind_eq_ok.mp hchanged
    cases hchanged
    refine ⟨⟨hproducer.trans hheader.1.symm, hset.trans hheader.2.1.symm,
      hrevision.trans hheader.2.2.symm⟩, rfl, rfl, rfl, ?_⟩
    rw [hkey, hsame]
    exact hfacts

end Prior

theorem fromCapture_eq_ok {libs : Libraries} {site : Site} {capture : Capture} {rootId : String}
    {a : Artifact} : fromCapture libs site capture rootId = .ok a ↔
      a.validate libs site capture rootId = .ok () := by
  constructor
  · intro h
    obtain ⟨artifact, -, h⟩ := bind_eq_ok.mp h
    obtain ⟨_, hvalid, h⟩ := bind_eq_ok.mp h
    cases h
    exact hvalid
  · intro hvalid
    obtain ⟨-, -, hbuild⟩ := validate_eq_ok.mp hvalid
    exact bind_eq_ok.mpr ⟨a, hbuild, bind_eq_ok.mpr ⟨(), hvalid, rfl⟩⟩

/-- **Incremental extraction is full extraction.**  Where two captures of a checkout differ in
nothing but their documents, what is assembled of the unchanged documents of the prior
artifact and of the newly measured ones is what the full extraction makes of the new capture,
and the one succeeds exactly where the other does. -/
theorem assembleSelectedRevision_eq_build (libs : Libraries) (site site' : Site)
    (old new : Capture) (rootId : String) (prior a : Artifact) (selected : List SelectedDocument)
    (hprior : fromCapture libs site' old rootId = .ok prior)
    (hinputs : new.executableDigest = old.executableDigest ∧ new.inputs = old.inputs ∧
      new.maxFileBytes = old.maxFileBytes)
    (hselected : ∀ e ∈ selected, (∃ f ∈ old.files, f ∈ new.files ∧ Kept prior f e) ∨
      ∃ path, measureCapturedDocument libs site new rootId path = .ok e)
    (hcover : (selected.map SelectedDocument.path).Perm (new.files.map SourceFile.path)) :
    assembleSelectedRevision libs site new rootId selected = .ok a ↔
      fromCapture libs site new rootId = .ok a := by
  rw [fromCapture_eq_ok] at hprior ⊢
  have hmeasured : ∀ e ∈ selected, ∃ f ∈ new.files, MeasuredAt libs e f := by
    intro e he
    rcases hselected e he with ⟨f, hold, hnew, hkept⟩ | ⟨path, hcaptured⟩
    · exact ⟨f, hnew, hkept.measuredAt hold hprior⟩
    · obtain ⟨f, hf, -, he, -⟩ := measuredAt_of_captured hcaptured
      exact ⟨f, hf, he⟩
  refine ⟨validate_of_assemble hmeasured, assemble_of_validate hmeasured ?_ hcover⟩
  intro h files hh e he
  rcases hselected e he with ⟨f, -, -, hkept⟩ | ⟨path, hcaptured⟩
  · obtain ⟨_, -, hprior⟩ := bind_eq_ok.mp hprior
    obtain ⟨_, -, hprior⟩ := bind_eq_ok.mp hprior
    obtain ⟨expected, hbuild, hprior⟩ := bind_eq_ok.mp hprior
    obtain ⟨_, -, hprior⟩ := bind_eq_ok.mp hprior
    obtain ⟨_, -, hprior⟩ := bind_eq_ok.mp hprior
    obtain rfl := ensure_eq_ok.mp hprior
    obtain ⟨⟨h₀, files₀⟩, hh₀, -⟩ := bind_eq_ok.mp hbuild
    obtain ⟨ids, hextract⟩ := (buildNative_eq_ok hh₀).mp hbuild
    obtain ⟨entries, -, -, hmade⟩ := extractAll_measures rfl rfl rfl hextract
    rw [foldl_add] at hmade
    obtain ⟨-, -, inputs, hi, rfl, -⟩ := buildNativeHeader_eq_ok.mp hh
    obtain ⟨-, -, inputs₀, hi₀, rfl, -⟩ := buildNativeHeader_eq_ok.mp hh₀
    have hsame : inputsOf new = inputsOf old := by
      unfold inputsOf Capture.ignores Capture.bytes
      rw [hinputs.1, hinputs.2.1]
    rw [hsame, hi₀] at hi
    cases hi
    obtain ⟨documents, hrevision⟩ := hkept.revision
    have hconfig : new.maxFileBytes = old.maxFileBytes := hinputs.2.2
    refine ⟨?_, ?_, ?_, ?_, ?_, ?_⟩
    · rw [hkept.producer, hmade]; rfl
    · rw [hkept.sourceSet, hmade]; rfl
    · rw [hrevision, hmade]; rfl
    · rw [hrevision, hmade]; rfl
    · rw [hrevision, hmade]
      unfold headerOf
      rw [hconfig]
    · rw [hrevision, hmade]; rfl
  · obtain ⟨f, -, -, -, h', files', hh', hproducer, hset, hrevision⟩ :=
      measuredAt_of_captured hcaptured
    rw [hh] at hh'
    cases hh'
    exact ⟨hproducer, hset, by rw [hrevision]; exact ⟨rfl, rfl, rfl, rfl⟩⟩

/-! ### Two captures that differ in one file -/

namespace Sample

/-- Digests that count two characters: one tells the paths here apart, the other the texts. -/
def told : Libraries :=
  { libs with sha :=
    { sha with
      digest := fun _ bytes => hex (256 * bytes.count 'z' + bytes.count '1')
      digest_valid := fun _ _ => validHash_hex _ } }

def same : SourceFile := file "a.js" "f()"

def edited (text : String) : SourceFile := file "z.js" text

def capture (text : String) : Capture where
  files := [same, edited text]
  hashes := [("a.js", same.hash), ("z.js", (edited text).hash)]
  executableDigest := some (hex 0)
  inputs := [("package.json", some [0x7b, 0x7d])]
  maxFileBytes := 7
  tongue := by
    have hscript : ∀ f ∈ [same, edited text], f.language = .javascript := by
      simp [same, edited, file]
    intro f hf g hg _
    rw [hscript f hf, hscript g hg]

def site : Site := ⟨.ok "root", .ok ()⟩

theorem sorted_capture (text : String) : (capture text).sorted = [same, edited text] :=
  List.mergeSort_of_pairwise (by simp [same, edited, capture, file, fileLe])

theorem headed_capture {text : String} {h : Artifact} {files : List SourceFile}
    (hh : buildNativeHeader told.sha site (capture text) "root" = .ok (h, files)) :
    Headed h [same, edited text] := by
  have hdocuments := (documents_of_header hh).2
  rw [sorted_capture] at hdocuments
  obtain ⟨-, -, inputs, hinputs, rfl, -⟩ := buildNativeHeader_eq_ok.mp hh
  have hhash : validHash inputs.executableHash = true := by
    obtain ⟨_, -, hinputs⟩ := bind_eq_ok.mp hinputs
    obtain ⟨_, -, hinputs⟩ := bind_eq_ok.mp hinputs
    obtain ⟨_, -, hinputs⟩ := bind_eq_ok.mp hinputs
    cases hinputs
    exact validHash_hex 0
  refine
    { producer := ⟨rfl, rfl, rfl, rfl, hhash⟩, languages := ⟨rfl, rfl⟩,
      sourceSet := ⟨rfl, rfl⟩, root := ?_, revision := ⟨rfl, ?_, validHash_hex _, validHash_hex _,
        validHash_hex _⟩, documents := hdocuments, sorted := List.pairwise_pair.mpr ?_,
      blank := ⟨rfl, rfl, rfl, rfl, rfl⟩ }
  · show "root" ≠ ""
    decide
  · exact validRevisionId_append (told.sha.digest_valid _ _)
  · show documentBefore (Language.javascript.order, "a.js") (Language.javascript.order, "z.js")
    decide

/-- The files can be measured, and no two of them share a proof. -/
def measurable (text : String) : Bool :=
  match buildNativeHeader told.sha site (capture text) "root" with
  | .ok (h, files) => (files.map (proofOf told h)).Nodup ∧
      (extractAll told (files.zip h.revision.documents) (h, .empty)).isOk = true
  | .error _ => false

theorem measurable_call {text : String} (ht : text = "f()" ∨ text = "q()") :
    measurable text = true := by
  unfold measurable buildNativeHeader headerOf revisionId
  rw [sorted_capture]
  rcases ht with rfl | rfl
  · decide +kernel
  · decide +kernel

theorem parse_call {text : String} (ht : text = "f()" ∨ text = "q()") :
    told.parse .javascript text = some ⟨callRoot, false⟩ := by
  show (if text = "f()" ∨ text = "q()" then _ else _) = _
  exact if_pos ht

theorem valid_capture {text : String} (ht : text = "f()" ∨ text = "q()") :
    ∃ a, fromCapture told site (capture text) "root" = .ok a := by
  have hmeasurable := measurable_call ht
  unfold measurable at hmeasurable
  split at hmeasurable
  · rename_i h files hh
    obtain ⟨hproofs, hok⟩ := of_decide_eq_true hmeasurable
    obtain rfl : files = [same, edited text] := (documents_of_header hh).1.trans (sorted_capture text)
    cases hextract : extractAll told ([same, edited text].zip h.revision.documents) (h, .empty) with
    | error e => rw [hextract] at hok; cases hok
    | ok built =>
        obtain ⟨a, ids⟩ := built
        obtain ⟨all, hb, hmade⟩ := built_of_extractAll (headed_capture hh) hextract
        have hvalid : validateStructure told a (capture text).files = .ok () := by
          rw [hmade]
          refine hb.accepted (List.Perm.refl _) (fun f hf => ?_) hproofs
          rcases List.mem_cons.mp hf with rfl | hf
          · exact wide rfl (parse_call (.inl rfl))
          · rw [List.mem_singleton.mp hf]; exact wide rfl (parse_call ht)
        have hbuild : buildNative told site (capture text) "root" = .ok a :=
          bind_eq_ok.mpr ⟨_, hh, bind_eq_ok.mpr ⟨(a, ids), hextract, rfl⟩⟩
        exact ⟨a, fromCapture_eq_ok.mpr (validate_eq_ok.mpr ⟨rfl, hvalid, hbuild⟩)⟩
  · cases hmeasurable

theorem captured_edited : (measureCapturedDocument told site (capture "q()") "root" "z.js").isOk =
    true := by
  unfold measureCapturedDocument buildNativeHeader headerOf revisionId
  rw [sorted_capture]
  decide +kernel

end Sample

/-- One file is as it was, and its document is the one of the prior artifact; the other was
edited and is measured again. -/
theorem assembleSelectedRevision_eq_build_edited : ∃ prior a same edited,
    fromCapture Sample.told Sample.site (Sample.capture "f()") "root" = .ok prior ∧
      Kept prior Sample.same same ∧
      measureCapturedDocument Sample.told Sample.site (Sample.capture "q()") "root" "z.js" =
        .ok edited ∧
      assembleSelectedRevision Sample.told Sample.site (Sample.capture "q()") "root"
        [same, edited] = .ok a ∧
      fromCapture Sample.told Sample.site (Sample.capture "q()") "root" = .ok a := by
  obtain ⟨prior, hprior⟩ := Sample.valid_capture (.inl rfl)
  obtain ⟨a, ha⟩ := Sample.valid_capture (.inr rfl)
  have hfile : ∀ text, Sample.same ∈ (Sample.capture text).files := fun _ => List.mem_cons_self
  obtain ⟨e, he⟩ := exists_kept (hfile "f()") (fromCapture_eq_ok.mp hprior)
  cases hedited : measureCapturedDocument Sample.told Sample.site (Sample.capture "q()") "root"
      "z.js" with
  | error e =>
      have hok := Sample.captured_edited
      rw [hedited] at hok
      cases hok
  | ok edited =>
      obtain ⟨f, hf, hpath, hmeasured, -⟩ := measuredAt_of_captured hedited
      refine ⟨prior, a, e, edited, hprior, he, rfl, ?_, ha⟩
      refine (assembleSelectedRevision_eq_build Sample.told Sample.site Sample.site
        (Sample.capture "f()") (Sample.capture "q()") "root" prior a [e, edited] hprior
        ⟨rfl, rfl, rfl⟩ (fun e' he' => ?_) ?_).mpr ha
      · rcases List.mem_cons.mp he' with rfl | he'
        · exact .inl ⟨Sample.same, hfile _, hfile _, he⟩
        · rw [List.mem_singleton.mp he']; exact .inr ⟨"z.js", hedited⟩
      · have hkept : e.path = "a.js" := by
          unfold SelectedDocument.path
          rw [he.document]
          rfl
        rw [List.map_cons, List.map_singleton, hmeasured.path, hpath, hkept]
        exact List.Perm.refl _

end Baleyg.Native
