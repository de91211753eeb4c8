/-
The extractor and the check of an artifact agree.

What the extractor makes of the files of a header has all that the check asks for, but for
one thing.  The check wants every fact to be wider than nothing, except for the document
itself where its text is empty; the extractor measures whatever node the parser shows it.  A
file of nothing but white space has a root that begins behind it and is as wide as nothing,
so its artifact is refused.  Where every fact is wide, the artifact passes.
-/
import Baleyg.Native.Accept

namespace Baleyg.Native

open Fallible (ensure bind_eq_ok ensure_eq_ok ensure_bind_eq_ok)

def documentOf (h : Artifact) (f : SourceFile) : Document :=
  ⟨⟨h.sourceSet.id, f.language, f.path⟩, h.revision.id, f.hash, byteLength f.text⟩

/-- **A header and the files it is of, in their order.** -/
structure Headed (h : Artifact) (files : List SourceFile) : Prop where
  producer : h.producer.id = producerId ∧ h.producer.kind = "native" ∧
    h.producer.version = nativeVersion ∧ h.producer.positionEncoding = "utf8" ∧
    validHash h.producer.executableHash = true
  languages : h.producer.languages = Language.all ∧ h.sourceSet.languages = h.producer.languages
  sourceSet : h.sourceSet.dependencies = [] ∧
    h.sourceSet.id = "source-set:v1:" ++ h.sourceSet.rootId
  root : h.sourceSet.rootId ≠ ""
  revision : h.revision.sourceSetId = h.sourceSet.id ∧ validRevisionId h.revision.id = true ∧
    validHash h.revision.toolchainHash = true ∧ validHash h.revision.configHash = true ∧
    validHash h.revision.dependencyHash = true
  documents : h.revision.documents = files.map (documentOf h)
  sorted : files.Pairwise fun f g =>
    documentBefore (f.language.order, f.path) (g.language.order, g.path)
  blank : h.coverage = [] ∧ h.provenance = [] ∧ h.declarations = [] ∧ h.calls = [] ∧
    h.controlRegions = []

/-- **Every fact of a file is wider than nothing**, but for the file itself where it is empty. -/
def Wide (libs : Libraries) (f : SourceFile) : Prop :=
  ∀ tree, libs.parse f.language f.text = some tree →
    (f.text = "" ∨ tree.root.range.start < tree.root.range.stop) ∧
      ∀ r ∈ measured f tree.root [], r.start < r.stop

def proofOf (libs : Libraries) (h : Artifact) (f : SourceFile) : String :=
  proofId libs.sha (documentOf h f).key h.revision.id

/-! ### Siblings -/

/-- **Siblings are the declarations of one document that are numbered together.** -/
theorem siblingKey_inj {a b : Declaration} :
    siblingKey a = siblingKey b ↔ a.document = b.document ∧ a.ordinalKey = b.ordinalKey := by
  constructor
  · intro h
    have hvalues := Value.object_inj ["document", "ancestors", "kind", "name", "signature"]
      (by decide) rfl rfl (Value.canonical_inj h)
    simp only [List.map_cons, List.map_nil, Value.sorted_string, List.cons.injEq,
      Value.string.injEq, and_true] at hvalues
    obtain ⟨hdocument, hancestors, hkind, hname, hsignature⟩ := hvalues
    have hname' : a.name = b.name :=
      ofOption_inj (fun s t hst => by simpa using hst) (fun s => by simp) hname
    have hsignature' : a.key.signature = b.key.signature :=
      ofOption_inj (fun s t hst => Signature.json_inj hst)
        (fun s => by rw [Signature.json, Value.sorted]; exact Value.noConfusion) hsignature
    refine ⟨DocumentKey.json_inj hdocument, ?_⟩
    unfold Declaration.ordinalKey
    rw [keys_inj hancestors, DeclarationKind.text_inj hkind, hname', hsignature']
  · rintro ⟨hdocument, hkey⟩
    unfold Declaration.ordinalKey at hkey
    obtain ⟨hancestors, hkey⟩ := Prod.mk.inj hkey
    obtain ⟨hkind, hkey⟩ := Prod.mk.inj hkey
    obtain ⟨hname, hsignature⟩ := Prod.mk.inj hkey
    unfold siblingKey
    rw [hdocument, hancestors, hkind, hname, hsignature]

/-! ### The documents of a header -/

theorem documentBefore_ne {f g : SourceFile}
    (h : documentBefore (f.language.order, f.path) (g.language.order, g.path)) :
    ¬ (f.language = g.language ∧ f.path = g.path) := by
  rintro ⟨hlanguage, hpath⟩
  rw [hlanguage, hpath] at h
  rcases h with h | ⟨-, h⟩
  · exact Nat.lt_irrefl _ h
  · exact String.lt_irrefl _ h

section Documents

variable {h : Artifact} {files captured : List SourceFile}

def documentsOf (h : Artifact) (files : List SourceFile) : Documents :=
  files.map fun f => ((documentOf h f).key, f)

theorem documentOf_key_inj {f g : SourceFile} (hkey : (documentOf h f).key = (documentOf h g).key) :
    f.language = g.language ∧ f.path = g.path := by
  unfold documentOf at hkey
  rw [DocumentKey.mk.injEq] at hkey
  exact hkey.2

theorem Headed.distinct (hh : Headed h files) :
    files.Pairwise fun f g => (documentOf h f).key ≠ (documentOf h g).key :=
  hh.sorted.imp fun hbefore hkey => documentBefore_ne hbefore (documentOf_key_inj hkey)

theorem Headed.lookup (hh : Headed h files) {f : SourceFile} (hf : f ∈ files) :
    (documentsOf h files).lookup (documentOf h f).key = some f := by
  refine Lookup.lookup_of_nodup (List.mem_map_of_mem hf) ?_
  unfold documentsOf
  rw [List.map_map]
  exact List.pairwise_map.mpr hh.distinct

theorem Headed.find (hh : Headed h files) (hcaptured : captured.Perm files) {f : SourceFile}
    (hf : f ∈ files) :
    (captured.find? fun g => g.language = f.language ∧ g.path = f.path) = some f := by
  have hmem : f ∈ captured := hcaptured.mem_iff.mpr hf
  cases hfound : captured.find? fun g => g.language = f.language ∧ g.path = f.path with
  | none => exact absurd (by simp) (List.find?_eq_none.mp hfound f hmem)
  | some g =>
      have hsame : g.language = f.language ∧ g.path = f.path := by
        simpa using List.find?_some hfound
      have hg : g ∈ files := hcaptured.mem_iff.mp (List.mem_of_find?_eq_some hfound)
      have hkey : (documentOf h g).key = (documentOf h f).key := by
        unfold documentOf
        rw [hsame.1, hsame.2]
      have hlookup := hh.lookup hg
      rw [hkey, hh.lookup hf] at hlookup
      exact hlookup.symm

/-- **The documents of a header pass.** -/
theorem Headed.validateDocuments (hh : Headed h files) (hcaptured : captured.Perm files)
    {a : Artifact} (hset : a.sourceSet = h.sourceSet) (hrevision : a.revision = h.revision)
    (hfiles : ∀ f ∈ files, safePath f.path = .ok () ∧ validHash f.hash = true) :
    Native.validateDocuments a captured none h.revision.documents = .ok (documentsOf h files) := by
  rw [hh.documents]
  suffices hsuff : ∀ (rest : List SourceFile) (last : Option (Nat × String)),
      (∀ f ∈ rest, f ∈ files) →
      rest.Pairwise (fun f g =>
        documentBefore (f.language.order, f.path) (g.language.order, g.path)) →
      (∀ prev ∈ last, ∀ f ∈ rest, documentBefore prev (f.language.order, f.path)) →
      Native.validateDocuments a captured last (rest.map (documentOf h)) =
        .ok (documentsOf h rest) from
    hsuff files none (fun _ hf => hf) hh.sorted fun _ hprev => by cases hprev
  intro rest
  induction rest with
  | nil => exact fun _ _ _ _ => rfl
  | cons f rest ih =>
      intro last hin hsorted hlast
      rw [List.pairwise_cons] at hsorted
      obtain ⟨hpath, hhash⟩ := hfiles f (hin f List.mem_cons_self)
      have hrest := ih (some (f.language.order, f.path))
        (fun g hg => hin g (List.mem_cons_of_mem f hg)) hsorted.2 fun prev hprev g hg => by
          rw [← Option.some.inj hprev]
          exact hsorted.1 g hg
      rw [List.map_cons]
      unfold Native.validateDocuments
      refine bind_eq_ok.mpr ⟨(), hpath, ensure_bind_eq_ok.mpr
        ⟨fun prev hprev => hlast prev hprev f List.mem_cons_self, ?_⟩⟩
      have hfound : (captured.find? fun g => g.language = (documentOf h f).key.language ∧
          g.path = (documentOf h f).key.path) = some f :=
        hh.find hcaptured (hin f List.mem_cons_self)
      rw [hfound]
      refine ensure_bind_eq_ok.mpr ⟨?_, bind_eq_ok.mpr ?_⟩
      · rw [hset, hrevision]; exact ⟨rfl, rfl, rfl, rfl, hhash⟩
      · exact ⟨_, hrest, rfl⟩

end Documents

/-! ### What is built -/

/-- The artifact of a header and the facts of its documents. -/
def assembled (h : Artifact) (all : List DocumentFacts) : Artifact :=
  { h with
    coverage := all.map DocumentFacts.coverage
    provenance := all.map DocumentFacts.provenance
    declarations := all.flatMap DocumentFacts.declarations
    calls := all.flatMap DocumentFacts.calls
    controlRegions := all.flatMap DocumentFacts.controlRegions }

/-- **A header with the facts of its files**, and a registry that knows them. -/
structure Built (libs : Libraries) (h : Artifact) (files : List SourceFile)
    (all : List DocumentFacts) (ids : IdentityRegistry) : Prop where
  headed : Headed h files
  extracted : List.Forall₂ (fun f facts => Extracted libs h ids (f, documentOf h f) facts)
    files all

namespace Built

variable {libs : Libraries} {h : Artifact} {files captured : List SourceFile}
  {all : List DocumentFacts} {ids : IdentityRegistry}

def Of (libs : Libraries) (h : Artifact) (ids : IdentityRegistry) (f : SourceFile)
    (tree : Tree) (facts : DocumentFacts) : Prop :=
  libs.parse f.language f.text = some tree ∧ Measured (contextOf libs h f) tree.root facts ids

theorem file (hb : Built libs h files all ids) {facts : DocumentFacts} (hfacts : facts ∈ all) :
    ∃ f ∈ files, ∃ tree, Of libs h ids f tree facts := by
  obtain ⟨f, hf, hextracted⟩ := Fallible.exists_of_forall₂_right hb.extracted hfacts
  obtain ⟨tree, htree, hmeasured⟩ := hextracted.measured
  exact ⟨f, hf, tree, htree, hmeasured⟩

variable {f : SourceFile} {tree : Tree}

theorem facts (hb : Built libs h files all ids) (hf : f ∈ files) :
    ∃ facts ∈ all, ∃ tree, Of libs h ids f tree facts := by
  obtain ⟨facts, hfacts, hextracted⟩ := Fallible.exists_of_forall₂_left hb.extracted hf
  obtain ⟨tree, htree, hmeasured⟩ := hextracted.measured
  exact ⟨facts, hfacts, tree, htree, hmeasured⟩

theorem distinct (hb : Built libs h files all ids) :
    all.Pairwise fun x y => ∀ f tree g tree', Of libs h ids f tree x → Of libs h ids g tree' y →
      (documentOf h f).key ≠ (documentOf h g).key := by
  have hpairs := Fallible.pairwise_of_forall₂ hb.extracted hb.headed.distinct
    (T := fun x y => x.provenance.document ≠ y.provenance.document) (by
      rintro f x g y ⟨_, _, _, _, _, _, hx⟩ ⟨_, _, _, _, _, _, hy⟩ hne
      rw [hx.provenance, hy.provenance]
      exact hne)
  refine hpairs.imp fun hne f tree g tree' hx hy => ?_
  rw [hx.2.provenance, hy.2.provenance] at hne
  exact hne

theorem proofs (hb : Built libs h files all ids) :
    (all.map DocumentFacts.provenance).map Provenance.id = files.map (proofOf libs h) := by
  rw [List.map_map]
  refine Fallible.map_eq_of_forall₂ hb.extracted ?_
  rintro f facts ⟨_, _, _, _, _, _, hmeasured⟩
  show facts.provenance.id = _
  rw [hmeasured.provenance]
  rfl

theorem proof_mem (hb : Built libs h files all ids) (hf : f ∈ files) :
    proofOf libs h f ∈ ((all.map DocumentFacts.provenance).map Provenance.id).reverse ++ [] := by
  rw [hb.proofs, List.append_nil, List.mem_reverse]
  exact List.mem_map_of_mem hf

/-! ### Coverage and provenance -/

theorem observed_supported (sawDefinition sawCall : Bool) :
    ∀ role ∈ (if sawDefinition then [Role.definition] else []) ++ if sawCall then [.call] else [],
      role ∈ [Role.definition, Role.call] := by
  cases sawDefinition <;> cases sawCall <;> decide

theorem observed_ordered (sawDefinition sawCall : Bool) :
    ((if sawDefinition then [Role.definition] else []) ++
      if sawCall then [Role.call] else []).IsChain fun r s =>
        [Role.definition, Role.call].idxOf r < [Role.definition, Role.call].idxOf s := by
  cases sawDefinition <;> cases sawCall <;> decide

theorem diagnostic_state (hasError opaqueRust : Bool) :
    (if hasError || opaqueRust then CoverageState.partly else .complete) = .complete ↔
      diagnostic hasError opaqueRust = none := by
  cases hasError <;> cases opaqueRust <;> decide

theorem diagnostic_ne_empty (hasError opaqueRust : Bool) :
    diagnostic hasError opaqueRust ≠ some "" := by
  cases hasError <;> cases opaqueRust <;> decide

theorem coverage (hb : Built libs h files all ids) :
    validateCoverage (assembled h all) (documentsOf h files) [] (assembled h all).coverage =
      .ok () := by
  refine validateCoverage_returns (fun c hc => ?_) ?_ fun _ _ => List.not_mem_nil
  · obtain ⟨facts, hfacts, rfl⟩ := List.mem_map.mp hc
    obtain ⟨f, hf, tree, -, hmeasured⟩ := hb.file hfacts
    obtain ⟨hasError, s, hcoverage⟩ := hmeasured.coverage
    rw [hcoverage]
    refine ⟨?_, rfl, rfl, rfl, rfl, rfl, ?_, ?_, ?_, ?_⟩
    · have hlookup := hb.headed.lookup hf
      exact Option.isSome_iff_exists.mpr ⟨f, hlookup⟩
    · exact observed_supported s.sawDefinition s.sawCall
    · exact observed_ordered s.sawDefinition s.sawCall
    · exact diagnostic_state hasError s.opaqueRust
    · exact diagnostic_ne_empty hasError s.opaqueRust
  · show ((all.map DocumentFacts.coverage).map Coverage.key).Nodup
    have hkeys : (all.map DocumentFacts.coverage).map Coverage.key =
        files.map fun f => (documentOf h f).key := by
      rw [List.map_map]
      refine Fallible.map_eq_of_forall₂ hb.extracted ?_
      rintro f facts ⟨_, _, _, _, _, _, hmeasured⟩
      obtain ⟨hasError, s, hcoverage⟩ := hmeasured.coverage
      show facts.coverage.key = _
      rw [hcoverage]
      rfl
    rw [hkeys]
    exact List.pairwise_map.mpr hb.headed.distinct

theorem provenance (hb : Built libs h files all ids) :
    ∀ p ∈ (assembled h all).provenance,
      ProvenanceAccepted libs.sha (assembled h all) (documentsOf h files) p := by
  intro p hp
  obtain ⟨facts, hfacts, rfl⟩ := List.mem_map.mp hp
  obtain ⟨f, hf, tree, -, hmeasured⟩ := hb.file hfacts
  rw [hmeasured.provenance]
  exact ⟨f, hb.headed.lookup hf, rfl, rfl, rfl, rfl, rfl, rfl, rfl, rfl⟩

/-! ### Declarations -/

theorem declaration_mem (hb : Built libs h files all ids) {d : Declaration}
    (hd : d ∈ (assembled h all).declarations) :
    ∃ facts ∈ all, ∃ f ∈ files, ∃ tree, Of libs h ids f tree facts ∧ d ∈ facts.declarations := by
  obtain ⟨facts, hfacts, hd⟩ := List.mem_flatMap.mp hd
  obtain ⟨f, hf, tree, hof⟩ := hb.file hfacts
  exact ⟨facts, hfacts, f, hf, tree, hof, hd⟩

theorem stable (hb : Built libs h files all ids) :
    ∀ d ∈ (assembled h all).declarations,
      d.syntaxId = stableId libs.sha (d.input h.sourceSet.id) ∧
        IdentityRegistry.HasStable libs.sha ids (d.input h.sourceSet.id) ∧
        d.document.sourceSetId = h.sourceSet.id := by
  intro d hd
  obtain ⟨facts, -, f, -, tree, hof, hd⟩ := hb.declaration_mem hd
  have hdocument := (hof.2.declarations d hd).document
  have hinput : d.input h.sourceSet.id = (contextOf libs h f).stableInput d.ancestors d.key := by
    unfold Declaration.input
    rw [hdocument]
    rfl
  rw [hinput, hdocument]
  exact ⟨(hof.2.stable d hd).1, (hof.2.stable d hd).2, rfl⟩

theorem sibling_of_id (hb : Built libs h files all ids) {a b : Declaration}
    (ha : a ∈ (assembled h all).declarations) (hmem : b ∈ (assembled h all).declarations)
    (hid : a.syntaxId = b.syntaxId) :
    a.document = b.document ∧ a.ancestors = b.ancestors ∧ a.key = b.key := by
  obtain ⟨hid₁, hknown₁, hset₁⟩ := hb.stable a ha
  obtain ⟨hid₂, hknown₂, hset₂⟩ := hb.stable b hmem
  have hinput := hknown₁.inj hknown₂ (hid₁.symm.trans (hid.trans hid₂))
  unfold Declaration.input at hinput
  rw [StableInput.mk.injEq] at hinput
  obtain ⟨-, hpath, hlanguage, hancestors, hkey⟩ := hinput
  refine ⟨?_, hancestors, hkey⟩
  cases hda : a.document
  cases hdb : b.document
  rw [hda, hdb] at hpath hlanguage
  rw [hda] at hset₁
  rw [hdb] at hset₂
  simp only at hpath hlanguage hset₁ hset₂
  rw [hpath, hlanguage, hset₁, hset₂]

theorem declarationNumbers (hb : Built libs h files all ids) :
    Groups.Numbered siblingKey (fun a b => a.range.le b.range) (fun d => d.key.ordinal)
      (assembled h all).declarations := by
  refine Groups.numbered_flatMap (fun facts hfacts => ?_) (hb.distinct.imp_of_mem ?_)
  · obtain ⟨f, -, tree, -, hmeasured⟩ := hb.file hfacts
    refine hmeasured.declarationNumbers.rekey fun a ha b hmem => ?_
    rw [siblingKey_inj, (hmeasured.declarations a ha).document,
      (hmeasured.declarations b hmem).document]
    exact ⟨fun hkey => hkey.2, fun hkey => ⟨rfl, hkey⟩⟩
  · intro x y hx hy hne a ha b hmem hkey
    obtain ⟨f, -, tree, hof⟩ := hb.file hx
    obtain ⟨g, -, tree', hog⟩ := hb.file hy
    refine hne f tree g tree' hof hog ?_
    have hdocument := (siblingKey_inj.mp hkey).1
    rw [(hof.2.declarations a ha).document, (hog.2.declarations b hmem).document] at hdocument
    exact hdocument

theorem declarationRanges (hb : Built libs h files all ids) (hwide : ∀ f ∈ files, Wide libs f) :
    (assembled h all).declarations.Pairwise fun a b =>
      siblingKey a = siblingKey b → a.range ≠ b.range := by
  refine List.pairwise_flatMap.mpr ⟨fun facts hfacts => ?_, hb.distinct.imp_of_mem ?_⟩
  · obtain ⟨f, hf, tree, htree, hmeasured⟩ := hb.file hfacts
    obtain ⟨ds, hds, hkinds, hranges⟩ := hmeasured.declared
    have hordered := hmeasured.ordered
    rw [hds] at hordered ⊢
    rw [Ordered, List.pairwise_cons] at hordered
    refine List.pairwise_cons.mpr ⟨fun d hd hkey => ?_, hordered.2.imp_of_mem ?_⟩
    · have hkind := congrArg (fun k : OrdinalKey => k.2.1) (siblingKey_inj.mp hkey).2
      exact absurd hkind.symm (hkinds d hd)
    · intro a b ha _ hbefore hkey hrange
      have hinner : a.range ∈ innerRanges ds facts :=
        List.mem_append_left _ (List.mem_map_of_mem ha)
      have hlt := (hwide f hf tree htree).2 a.range (hranges.mem_iff.mp hinner)
      have hle := hbefore (siblingKey_inj.mp hkey).2
      rw [← hrange] at hle
      omega
  · intro x y hx hy hne a ha b hmem hkey
    obtain ⟨f, -, tree, hof⟩ := hb.file hx
    obtain ⟨g, -, tree', hog⟩ := hb.file hy
    have hdocument := (siblingKey_inj.mp hkey).1
    rw [(hof.2.declarations a ha).document, (hog.2.declarations b hmem).document] at hdocument
    exact absurd hdocument (hne f tree g tree' hof hog)

/-- **The span of a declaration.** -/
theorem declaration_spans {facts : DocumentFacts} {d : Declaration}
    (hof : Of libs h ids f tree facts) (hwide : Wide libs f) (hd : d ∈ facts.declarations) :
    Spans f.text d.range (d.kind = .moduleItem && f.text = "") := by
  obtain ⟨ds, hds, hkinds, hranges⟩ := hof.2.declared
  obtain ⟨hroot, hinner⟩ := hwide tree hof.1
  refine (hof.2.declarations d hd).spanned.spans.mpr ?_
  rw [hds] at hd
  rcases List.mem_cons.mp hd with rfl | hd
  · rcases hroot with hempty | hroot
    · exact .inl (by rw [hempty]; rfl)
    · exact .inr hroot
  · have hmem : d.range ∈ innerRanges ds facts := List.mem_append_left _ (List.mem_map_of_mem hd)
    exact .inr (hinner d.range (hranges.mem_iff.mp hmem))

/-- **The declarations pass.** -/
theorem declarations (hb : Built libs h files all ids) (hwide : ∀ f ∈ files, Wide libs f) :
    DeclarationsAccepted libs (assembled h all) (documentsOf h files)
      (((all.map DocumentFacts.provenance).map Provenance.id).reverse ++ []) ids
      (assembled h all).declarations where
  each d hd := by
    obtain ⟨facts, -, f, hf, tree, hof, hd⟩ := hb.declaration_mem hd
    have hsound := hof.2.declarations d hd
    refine ⟨f, by rw [hsound.document]; exact hb.headed.lookup hf, ?_⟩
    refine
      { record := ⟨hsound.revision, ?_, hsound.kind, hsound.name, hsound.header⟩,
        nullable := ?_, spans := declaration_spans hof (hwide f hf) hd, nameRange := ?_,
        lookupKey := ?_, signature := ?_, plain := hsound.plain }
    · rw [hsound.proof]; exact hb.proof_mem hf
    · rcases hsound.named with ⟨hname, hkey, hrange⟩ | ⟨v, r, key, hname, hrange, hkey, -⟩
      · rw [hname, hkey, hrange]; exact ⟨rfl, rfl⟩
      · rw [hname, hkey, hrange]; exact ⟨rfl, rfl⟩
    · intro r hr
      rcases hsound.named with ⟨-, -, hrange⟩ | ⟨v, r', key, hname, hrange, -, -, hwithin, hget, hne⟩
      · rw [hrange] at hr; cases hr
      · rw [hrange] at hr
        cases hr
        exact ⟨spans_of_get hget hne, hwithin, hname.trans hget.symm⟩
    · intro n hn
      rcases hsound.named with ⟨hname, -⟩ | ⟨v, r, key, hname, -, hkey, hlookup, -⟩
      · rw [hname] at hn; cases hn
      · rw [hname] at hn
        cases hn
        rw [hsound.document]
        exact ⟨key, hlookup, hkey⟩
    · rw [hsound.document]; exact hsound.signature
  stable d hd := ⟨(hb.stable d hd).1, (hb.stable d hd).2.1⟩
  nodup := by
    refine List.pairwise_map.mpr (hb.declarationNumbers.pairwise.imp_of_mem ?_)
    intro a b ha hmem hordinal hid
    obtain ⟨hdocument, hancestors, hkey⟩ := hb.sibling_of_id ha hmem hid
    obtain ⟨_, -, f, -, tree, hof, ha'⟩ := hb.declaration_mem ha
    obtain ⟨_, -, g, -, tree', hog, hb'⟩ := hb.declaration_mem hmem
    refine hordinal (siblingKey_inj.mpr ⟨hdocument, ?_⟩) (congrArg Key.ordinal hkey)
    unfold Declaration.ordinalKey
    rw [hancestors, (hof.2.declarations a ha').kind, (hof.2.declarations a ha').name,
      (hog.2.declarations b hb').kind, (hog.2.declarations b hb').name, hkey]

/-! ### Calls and control regions -/

def declared (h : Artifact) (all : List DocumentFacts) : List (String × Declaration) :=
  ((assembled h all).declarations.map fun d => (d.syntaxId, d)).reverse ++ []

def regions (h : Artifact) (all : List DocumentFacts) : List (String × ControlRegion) :=
  ((assembled h all).controlRegions.map fun r => (r.id, r)).reverse ++ []

theorem owner_found (hb : Built libs h files all ids) (hwide : ∀ f ∈ files, Wide libs f)
    {facts : DocumentFacts} (hfacts : facts ∈ all) (hof : Of libs h ids f tree facts)
    {owner : String} (howner : ∃ d ∈ facts.declarations, d.syntaxId = owner) :
    ∃ d, (declared h all).lookup owner = some d ∧ d.document = (documentOf h f).key := by
  obtain ⟨d, hd, rfl⟩ := howner
  refine ⟨d, lookup_declared (hb.declarations hwide).nodup ?_, (hof.2.declarations d hd).document⟩
  exact List.mem_flatMap.mpr ⟨facts, hfacts, hd⟩

theorem call_mem (hb : Built libs h files all ids) {c : Call}
    (hc : c ∈ (assembled h all).calls) :
    ∃ facts ∈ all, ∃ f ∈ files, ∃ tree, Of libs h ids f tree facts ∧ c ∈ facts.calls := by
  obtain ⟨facts, hfacts, hc⟩ := List.mem_flatMap.mp hc
  obtain ⟨f, hf, tree, hof⟩ := hb.file hfacts
  exact ⟨facts, hfacts, f, hf, tree, hof, hc⟩

theorem control_mem (hb : Built libs h files all ids) {r : ControlRegion}
    (hr : r ∈ (assembled h all).controlRegions) :
    ∃ facts ∈ all, ∃ f ∈ files, ∃ tree, Of libs h ids f tree facts ∧ r ∈ facts.controlRegions := by
  obtain ⟨facts, hfacts, hr⟩ := List.mem_flatMap.mp hr
  obtain ⟨f, hf, tree, hof⟩ := hb.file hfacts
  exact ⟨facts, hfacts, f, hf, tree, hof, hr⟩

/-- **The calls pass.** -/
theorem calls (hb : Built libs h files all ids) (hwide : ∀ f ∈ files, Wide libs f) :
    ∀ c ∈ (assembled h all).calls, ∃ file owner,
      CallAccepted libs (assembled h all) (documentsOf h files)
        (((all.map DocumentFacts.provenance).map Provenance.id).reverse ++ []) (declared h all) ids
        c file owner := by
  intro c hc
  obtain ⟨facts, hfacts, f, hf, tree, hof, hc⟩ := hb.call_mem hc
  have hcall := hof.2.calls c hc
  obtain ⟨owner, howner, hdocument⟩ := hb.owner_found hwide hfacts hof hcall.owner
  obtain ⟨ds, -, -, hranges⟩ := hof.2.declared
  have hmem : c.range ∈ innerRanges ds facts :=
    List.mem_append_right _ (List.mem_append_right _ (List.mem_map_of_mem hc))
  have hlt := (hwide f hf tree hof.1).2 c.range (hranges.mem_iff.mp hmem)
  refine ⟨f, owner,
    { document := ?_, found := howner, record := ⟨?_, hcall.revision, ?_⟩,
      callee := ⟨hcall.spanned.spans.mpr (.inr hlt), fun r hr => ?_, hcall.callee.1⟩,
      producer := ⟨hb.headed.producer.1, hb.headed.producer.2.2.1⟩, id := ?_, known := ?_ }⟩
  · rw [hcall.document]; exact hb.headed.lookup hf
  · rw [hdocument, hcall.document]; rfl
  · rw [hcall.proof]; exact hb.proof_mem hf
  · obtain ⟨hwithin, hget, hsome⟩ := hcall.callee.2 r hr
    obtain ⟨token, htoken⟩ := Option.ne_none_iff_exists'.mp hsome
    refine ⟨spans_of_get (hget.symm.trans htoken) fun hempty => hcall.callee.1 ?_, hwithin, hget⟩
    rw [htoken, hempty]
  · rw [hcall.document]; exact hcall.id
  · rw [hcall.document]; exact hcall.known

/-- **The control regions pass.** -/
theorem controlRegions (hb : Built libs h files all ids) (hwide : ∀ f ∈ files, Wide libs f) :
    ∀ r ∈ (assembled h all).controlRegions, ∃ file owner,
      ControlAccepted libs (assembled h all) (documentsOf h files)
        (((all.map DocumentFacts.provenance).map Provenance.id).reverse ++ []) (declared h all) ids
        r file owner := by
  intro r hr
  obtain ⟨facts, hfacts, f, hf, tree, hof, hr⟩ := hb.control_mem hr
  have hregion := hof.2.controlRegions r hr
  obtain ⟨owner, howner, hdocument⟩ := hb.owner_found hwide hfacts hof hregion.owner
  obtain ⟨ds, -, -, hranges⟩ := hof.2.declared
  have hmem : r.range ∈ innerRanges ds facts :=
    List.mem_append_right _ (List.mem_append_left _ (List.mem_map_of_mem hr))
  have hlt := (hwide f hf tree hof.1).2 r.range (hranges.mem_iff.mp hmem)
  refine ⟨f, owner,
    { document := ?_, found := howner, record := ⟨?_, hregion.revision, ?_⟩,
      spans := hregion.spanned.spans.mpr (.inr hlt),
      producer := ⟨hb.headed.producer.1, hb.headed.producer.2.2.1⟩, id := ?_, known := ?_ }⟩
  · rw [hregion.document]; exact hb.headed.lookup hf
  · rw [hdocument, hregion.document]; rfl
  · rw [hregion.proof]; exact hb.proof_mem hf
  · rw [hregion.document]; exact hregion.id
  · rw [hregion.document]; exact hregion.known

theorem documents_ne (hb : Built libs h files all ids) {α : Type} {rows : DocumentFacts → List α}
    {document : α → DocumentKey}
    (hrows : ∀ facts ∈ all, ∀ f tree, Of libs h ids f tree facts → ∀ row ∈ rows facts,
      document row = (documentOf h f).key) :
    all.Pairwise fun x y => ∀ a ∈ rows x, ∀ b ∈ rows y, document a ≠ document b := by
  refine hb.distinct.imp_of_mem ?_
  intro x y hx hy hne a ha b hmem
  obtain ⟨f, -, tree, hof⟩ := hb.file hx
  obtain ⟨g, -, tree', hog⟩ := hb.file hy
  rw [hrows x hx f tree hof a ha, hrows y hy g tree' hog b hmem]
  exact hne f tree g tree' hof hog

theorem callNumbers (hb : Built libs h files all ids) :
    Groups.Numbered (fun c : Call => (c.document, c.ownerSyntaxId))
      (fun a b => a.range.le b.range) Call.ordinal (assembled h all).calls := by
  refine Groups.numbered_flatMap (fun facts hfacts => ?_)
    ((hb.documents_ne fun facts _ f tree hof c hc => (hof.2.calls c hc).document).imp ?_)
  · obtain ⟨f, -, tree, -, hmeasured⟩ := hb.file hfacts
    refine hmeasured.callNumbers.rekey fun a ha b hmem => ?_
    rw [(hmeasured.calls a ha).document, (hmeasured.calls b hmem).document, Prod.mk.injEq]
    exact and_iff_right rfl
  · intro x y hne a ha b hmem hkey; exact hne a ha b hmem (congrArg Prod.fst hkey)

theorem callRanges (hb : Built libs h files all ids) :
    (assembled h all).calls.Pairwise fun a b =>
      (a.document, a.ownerSyntaxId) = (b.document, b.ownerSyntaxId) → a.range ≠ b.range := by
  refine List.pairwise_flatMap.mpr ⟨fun facts hfacts => ?_,
    (hb.documents_ne fun facts _ f tree hof c hc => (hof.2.calls c hc).document).imp ?_⟩
  · obtain ⟨f, -, tree, -, hmeasured⟩ := hb.file hfacts
    refine (List.pairwise_map.mp hmeasured.callsNodup).imp fun hne hkey hrange => hne ?_
    rw [(Prod.mk.inj hkey).2, hrange]
  · intro x y hne a ha b hmem hkey
    exact absurd (congrArg Prod.fst hkey) (hne a ha b hmem)

theorem controlNumbers (hb : Built libs h files all ids) :
    Groups.Numbered (fun r : ControlRegion => (r.document, r.ownerSyntaxId))
      (fun a b => a.range.le b.range) ControlRegion.ordinal (assembled h all).controlRegions := by
  refine Groups.numbered_flatMap (fun facts hfacts => ?_)
    ((hb.documents_ne fun facts _ f tree hof r hr => (hof.2.controlRegions r hr).document).imp ?_)
  · obtain ⟨f, -, tree, -, hmeasured⟩ := hb.file hfacts
    refine hmeasured.controlNumbers.rekey fun a ha b hmem => ?_
    rw [(hmeasured.controlRegions a ha).document, (hmeasured.controlRegions b hmem).document,
      Prod.mk.injEq]
    exact and_iff_right rfl
  · intro x y hne a ha b hmem hkey; exact hne a ha b hmem (congrArg Prod.fst hkey)

theorem controlRanges (hb : Built libs h files all ids) :
    (assembled h all).controlRegions.Pairwise fun a b =>
      (a.document, a.ownerSyntaxId) = (b.document, b.ownerSyntaxId) → a.range ≠ b.range := by
  refine List.pairwise_flatMap.mpr ⟨fun facts hfacts => ?_,
    (hb.documents_ne fun facts _ f tree hof r hr => (hof.2.controlRegions r hr).document).imp ?_⟩
  · obtain ⟨f, -, tree, -, hmeasured⟩ := hb.file hfacts
    refine (List.pairwise_map.mp hmeasured.controlsNodup).imp fun hne hkey hrange => hne ?_
    rw [(Prod.mk.inj hkey).2, hrange]
  · intro x y hne a ha b hmem hkey
    exact absurd (congrArg Prod.fst hkey) (hne a ha b hmem)

/-- Occurrences of one input are of one owner, hence of one document, and have one number. -/
theorem same_of_inputIn {file file' : SourceFile} {key key' : DocumentKey}
    {owner owner' : String} {kind : OccurrenceKind} {n n' : Nat} {d d' : Declaration}
    {declared : List (String × Declaration)}
    (hinput : inputIn libs h file key owner kind n = inputIn libs h file' key' owner' kind n')
    (hfound : declared.lookup owner = some d) (hfound' : declared.lookup owner' = some d')
    (hkey : d.document = key) (hkey' : d'.document = key') :
    (key, owner) = (key', owner') ∧ n = n' := by
  unfold inputIn occurrenceInputOf at hinput
  rw [OccurrenceInput.mk.injEq] at hinput
  obtain ⟨-, -, -, -, howner, -, hnumber⟩ := hinput
  rw [← howner, hfound] at hfound'
  rw [← hkey, ← hkey', Option.some.inj hfound', howner]
  exact ⟨rfl, hnumber⟩

theorem callsNodup (hb : Built libs h files all ids) (hwide : ∀ f ∈ files, Wide libs f) :
    ((assembled h all).calls.map Call.id).Nodup := by
  refine List.pairwise_map.mpr (hb.callNumbers.pairwise.imp_of_mem ?_)
  intro a b ha hmem hordinal hid
  obtain ⟨file, owner, ha⟩ := hb.calls hwide a ha
  obtain ⟨file', owner', hb'⟩ := hb.calls hwide b hmem
  obtain ⟨hkey, hnumber⟩ := same_of_inputIn (ha.known.inj hb'.known
    (ha.id.symm.trans (hid.trans hb'.id))) ha.found hb'.found ha.record.1 hb'.record.1
  exact hordinal hkey hnumber

theorem controlsNodup (hb : Built libs h files all ids) (hwide : ∀ f ∈ files, Wide libs f) :
    ((assembled h all).controlRegions.map ControlRegion.id).Nodup := by
  refine List.pairwise_map.mpr (hb.controlNumbers.pairwise.imp_of_mem ?_)
  intro a b ha hmem hordinal hid
  obtain ⟨file, owner, ha⟩ := hb.controlRegions hwide a ha
  obtain ⟨file', owner', hb'⟩ := hb.controlRegions hwide b hmem
  obtain ⟨hkey, hnumber⟩ := same_of_inputIn (ha.known.inj hb'.known
    (ha.id.symm.trans (hid.trans hb'.id))) ha.found hb'.found ha.record.1 hb'.record.1
  exact hordinal hkey hnumber

theorem region_found (hb : Built libs h files all ids) (hwide : ∀ f ∈ files, Wide libs f)
    {facts : DocumentFacts} (hfacts : facts ∈ all) (hof : Of libs h ids f tree facts)
    {owner id : String} {range : Range} {r : ControlRegion}
    (hr : Encloses facts.controlRegions owner range id r) :
    (regions h all).lookup id = some r ∧ r.ownerSyntaxId = owner ∧
      r.document = (documentOf h f).key ∧ range.within r.range := by
  obtain ⟨hmem, rfl, howner, hwithin⟩ := hr
  refine ⟨lookup_region (hb.controlsNodup hwide) (List.mem_flatMap.mpr ⟨facts, hfacts, hmem⟩),
    howner, (hof.2.controlRegions r hmem).document, hwithin⟩

theorem parents (hb : Built libs h files all ids) (hwide : ∀ f ∈ files, Wide libs f) :
    ∀ r ∈ (assembled h all).controlRegions, validateParent (regions h all) r = .ok () := by
  intro r hr
  obtain ⟨facts, hfacts, f, hf, tree, hof, hr⟩ := hb.control_mem hr
  have hregion := hof.2.controlRegions r hr
  refine validateParent_returns fun id hid => ?_
  obtain ⟨parent, hencloses, hne⟩ := hregion.parent id hid
  obtain ⟨hlookup, howner, hdocument, hwithin⟩ := hb.region_found hwide hfacts hof hencloses
  exact ⟨parent, hlookup, howner, hdocument.trans hregion.document.symm, hwithin, hne⟩

theorem callRegions (hb : Built libs h files all ids) (hwide : ∀ f ∈ files, Wide libs f) :
    ∀ c ∈ (assembled h all).calls, validateCallRegions (regions h all) c = .ok () := by
  intro c hc
  obtain ⟨facts, hfacts, f, hf, tree, hof, hc⟩ := hb.call_mem hc
  have hcall := hof.2.calls c hc
  refine validateCallRegions_returns fun id hid => ?_
  obtain ⟨r, hencloses⟩ := hcall.regions id hid
  obtain ⟨hlookup, howner, hdocument, hwithin⟩ := hb.region_found hwide hfacts hof hencloses
  exact ⟨r, hlookup, howner, hdocument.trans hcall.document.symm, hwithin⟩

/-! ### Agreement -/

theorem header (hb : Built libs h files all ids) (hcaptured : captured.Perm files) :
    validateHeader (assembled h all) captured = .ok (documentsOf h files) := by
  obtain ⟨hh, hextracted⟩ := hb
  have hlength := hextracted.length_eq
  have hcount := hcaptured.length_eq
  unfold validateHeader
  refine ensure_bind_eq_ok.mpr ⟨hh.producer, ensure_bind_eq_ok.mpr
    ⟨⟨hh.languages.1, hh.languages.2, hh.sourceSet.1, hh.sourceSet.2⟩, ensure_bind_eq_ok.mpr
      ⟨hh.root, ensure_bind_eq_ok.mpr ⟨hh.revision, ensure_bind_eq_ok.mpr ⟨⟨?_, ?_, ?_⟩,
        ensure_bind_eq_ok.mpr ⟨?_, ?_⟩⟩⟩⟩⟩⟩
  · show h.revision.documents.length = captured.length
    rw [hh.documents, List.length_map, hcount]
  · show (all.map _).length = captured.length
    rw [List.length_map, hcount, hlength]
  · show (all.map _).length = captured.length
    rw [List.length_map, hcount, hlength]
  · have hnodup : (files.map fun f => (f.language, f.path)).Nodup :=
      List.pairwise_map.mpr (hh.sorted.imp fun hbefore heq =>
        documentBefore_ne hbefore (Prod.mk.inj heq))
    exact (hcaptured.map _).nodup_iff.mpr hnodup
  · refine hh.validateDocuments hcaptured rfl rfl fun f hf => ?_
    obtain ⟨facts, -, hfacts⟩ := Fallible.exists_of_forall₂_left hextracted hf
    refine ⟨hfacts.path, ?_⟩
    rw [hfacts.hash]
    exact libs.sha.hash_valid f.text

theorem accepted (hb : Built libs h files all ids) (hcaptured : captured.Perm files)
    (hwide : ∀ f ∈ files, Wide libs f) (hproofs : (files.map (proofOf libs h)).Nodup) :
    validateStructure libs (assembled h all) captured = .ok () := by
  have hprovenance : validateProvenance libs.sha (assembled h all) _ [] _ = .ok _ :=
    validateProvenance_eq_ok.mpr
      ⟨hb.provenance, hb.proofs ▸ hproofs, fun _ _ => List.not_mem_nil, rfl⟩
  have hdeclarations : validateDeclarations libs (assembled h all) _ _ _ [] _ = .ok _ :=
    validateDeclarations_returns (hb.declarations hwide) (IdentityRegistry.empty_within ids)
      fun _ _ => rfl
  have hreturns : ∃ next, validateCalls libs (assembled h all) _ _ _ _ [] _ = .ok next ∧ _ :=
    validateCalls_returns (hb.calls hwide) (hb.callsNodup hwide) (fun _ _ => List.not_mem_nil)
      (IdentityRegistry.empty_within ids)
  obtain ⟨occurrence, hcalls, hwithin⟩ := hreturns
  have hcontrols : validateControls libs (assembled h all) _ _ _ _ [] _ = .ok _ :=
    validateControls_returns (hb.controlRegions hwide) (hb.controlsNodup hwide) (fun _ _ => rfl)
      hwithin
  unfold validateStructure
  refine bind_eq_ok.mpr ⟨_, hb.header hcaptured, bind_eq_ok.mpr ⟨(), hb.coverage,
    bind_eq_ok.mpr ⟨_, hprovenance, bind_eq_ok.mpr ⟨_, hdeclarations, ?_⟩⟩⟩⟩
  refine bind_eq_ok.mpr ⟨(), validateOrdinals_returns hb.declarationNumbers
    (hb.declarationRanges hwide), bind_eq_ok.mpr ⟨(), validateOrdinals_returns hb.callNumbers
      hb.callRanges, bind_eq_ok.mpr ⟨(), validateOrdinals_returns hb.controlNumbers
        hb.controlRanges, ?_⟩⟩⟩
  refine bind_eq_ok.mpr ⟨_, hcalls, bind_eq_ok.mpr ⟨_, hcontrols, ?_⟩⟩
  exact bind_eq_ok.mpr ⟨(), Fallible.forM_eq_ok.mpr (hb.parents hwide),
    Fallible.forM_eq_ok.mpr (hb.callRegions hwide)⟩

/-- **An artifact that passes has wide facts.** -/
theorem wide_of_accepted (hb : Built libs h files all ids) (hcaptured : captured.Perm files)
    (hvalid : validateStructure libs (assembled h all) captured = .ok ()) :
    (∀ f ∈ files, Wide libs f) ∧ (files.map (proofOf libs h)).Nodup := by
  obtain ⟨docs, hheader, hvalid⟩ := bind_eq_ok.mp hvalid
  obtain rfl : documentsOf h files = docs :=
    Except.ok.inj ((hb.header hcaptured).symm.trans hheader)
  obtain ⟨_, -, hvalid⟩ := bind_eq_ok.mp hvalid
  obtain ⟨proofs, hproofs, hvalid⟩ := bind_eq_ok.mp hvalid
  obtain ⟨found, hdeclarations, hvalid⟩ := bind_eq_ok.mp hvalid
  obtain ⟨_, -, hvalid⟩ := bind_eq_ok.mp hvalid
  obtain ⟨_, -, hvalid⟩ := bind_eq_ok.mp hvalid
  obtain ⟨_, -, hvalid⟩ := bind_eq_ok.mp hvalid
  obtain ⟨occurrence, hcalls, hvalid⟩ := bind_eq_ok.mp hvalid
  obtain ⟨_, hcontrols, -⟩ := bind_eq_ok.mp hvalid
  obtain ⟨k, -, haccepted, -⟩ := validateDeclarations_ok hdeclarations
  obtain ⟨-, hcalls⟩ := validateCalls_ok hcalls
  obtain ⟨k', -, hcontrols⟩ := validateControls_ok hcontrols
  refine ⟨fun f hf tree htree => ?_, ?_⟩
  · obtain ⟨facts, hfacts, tree', htree', hmeasured⟩ := hb.facts hf
    obtain rfl : tree' = tree := Option.some.inj (htree'.symm.trans htree)
    have hfile : ∀ file, (documentsOf h files).lookup (documentOf h f).key = some file → file = f :=
      fun file hfile => Option.some.inj (hfile.symm.trans (hb.headed.lookup hf))
    -- every declaration of the file spans, and only the document itself may be empty
    have hspans : ∀ d ∈ facts.declarations,
        Spans f.text d.range (d.kind = .moduleItem && f.text = "") := fun d hd => by
      obtain ⟨file, hdoc, hd'⟩ := haccepted.each d (List.mem_flatMap.mpr ⟨facts, hfacts, hd⟩)
      rw [(hmeasured.declarations d hd).document] at hdoc
      have hspans := hd'.spans
      rwa [hfile file hdoc] at hspans
    obtain ⟨ds, hds, hkinds, hranges⟩ := hmeasured.declared
    refine ⟨?_, fun r hr => ?_⟩
    · have hroot := (hspans ((contextOf libs h f).moduleAt tree'.root.range)
        (hds ▸ List.mem_cons_self)).2.2.1
      rw [Bool.and_eq_true, decide_eq_true_iff, decide_eq_true_iff] at hroot
      exact hroot.imp_left And.right
    · rcases List.mem_append.mp (hranges.mem_iff.mpr hr) with hr | hr
      · obtain ⟨d, hd, rfl⟩ := List.mem_map.mp hr
        have hwide := (hspans d (hds ▸ List.mem_cons_of_mem _ hd)).2.2.1
        rw [Bool.and_eq_true, decide_eq_true_iff] at hwide
        exact hwide.resolve_left fun hempty => hkinds d hd hempty.1
      · rcases List.mem_append.mp hr with hr | hr
        · obtain ⟨region, hregion, rfl⟩ := List.mem_map.mp hr
          obtain ⟨file, owner, hr'⟩ :=
            hcontrols region (List.mem_flatMap.mpr ⟨facts, hfacts, hregion⟩)
          exact hr'.spans.2.2.1.resolve_left Bool.false_ne_true
        · obtain ⟨call, hcall, rfl⟩ := List.mem_map.mp hr
          obtain ⟨file, owner, hc'⟩ := hcalls call (List.mem_flatMap.mpr ⟨facts, hfacts, hcall⟩)
          exact hc'.callee.spans.2.2.1.resolve_left Bool.false_ne_true
  · rw [← hb.proofs]; exact (validateProvenance_eq_ok.mp hproofs).2.1

end Built

theorem built_of_extractAll {libs : Libraries} {h a : Artifact} {files : List SourceFile}
    {ids : IdentityRegistry} (hh : Headed h files)
    (hextract : extractAll libs (files.zip h.revision.documents) (h, .empty) = .ok (a, ids)) :
    ∃ all, Built libs h files all ids ∧ a = assembled h all := by
  obtain ⟨-, all, hall, rfl⟩ := extractAll_ok hextract
  have hzip : files.zip h.revision.documents = files.map fun f => (f, documentOf h f) := by
    rw [hh.documents, List.map_prod_left_eq_zip]
  rw [hzip, List.forall₂_map_left_iff] at hall
  refine ⟨all, ⟨hh, hall⟩, ?_⟩
  obtain ⟨hcoverage, hprovenance, hdeclarations, hcalls, hcontrols⟩ := hh.blank
  rw [foldl_add, hcoverage, hprovenance, hdeclarations, hcalls, hcontrols]
  rfl

/-- **The check takes what the extractor makes where every fact is wide.**  The artifact of
the files of a header passes if and only if, in every file, everything measured is wider than
nothing, and so is the file itself where it is not empty, and no two files share a proof
id. -/
theorem validateStructure_of_extractAll (libs : Libraries) (h a : Artifact)
    (files captured : List SourceFile) (ids : IdentityRegistry) (hh : Headed h files)
    (hcaptured : captured.Perm files)
    (hextract : extractAll libs (files.zip h.revision.documents) (h, .empty) = .ok (a, ids)) :
    validateStructure libs a captured = .ok () ↔
      (∀ f ∈ files, Wide libs f) ∧ (files.map (proofOf libs h)).Nodup := by
  obtain ⟨all, hb, rfl⟩ := built_of_extractAll hh hextract
  exact ⟨hb.wide_of_accepted hcaptured, fun hall => hb.accepted hcaptured hall.1 hall.2⟩

/-! ### A file with a call, and one with nothing in it -/

namespace Sample

def hexDigit (n : Nat) : Char := if n < 10 then Char.ofNat (48 + n) else Char.ofNat (87 + n)

def hex (n : Nat) : String :=
  String.ofList ((List.range 64).map fun i => hexDigit (n / 16 ^ i % 16))

theorem validHash_hex (n : Nat) : validHash (hex n) = true := by
  have hdigit : ∀ d, d < 16 → isLowerHex (hexDigit d) = true := by decide
  have hall : ((List.range 64).map fun i => hexDigit (n / 16 ^ i % 16)).all isLowerHex = true := by
    rw [List.all_map, List.all_eq_true]
    exact fun i _ => hdigit _ (Nat.mod_lt _ (by decide))
  have hone : ∀ c ∈ (List.range 64).map fun i => hexDigit (n / 16 ^ i % 16), c.utf8Size = 1 :=
    fun c hc => utf8Size_of_isLowerHex (List.all_eq_true.mp hall c hc)
  unfold validHash byteLength hex
  rw [String.toList_ofList, Bool.and_eq_true]
  refine ⟨?_, hall⟩
  rw [List.map_congr_left hone, List.map_const', List.length_map, List.length_range,
    List.sum_replicate_nat]
  decide

def sum (cs : List Char) : Nat := cs.foldl (fun n c => (n * 31 + c.toNat) % 16 ^ 64) 7

/-- A digest that tells texts and domains apart; the sample has one input of a domain. -/
def sha : Sha256 where
  hash text := hex (sum text.toList)
  digest domain _ := hex (sum domain.toList)
  hash_valid _ := validHash_hex _
  digest_valid _ _ := validHash_hex _

/-- `f()`, or a call of another name, as JavaScript has it. -/
def callRoot : Node :=
  ⟨"program", true, none, ⟨0, 3⟩, [⟨"expression_statement", true, none, ⟨0, 3⟩,
    [⟨"call_expression", true, none, ⟨0, 3⟩,
      [⟨"identifier", true, some "function", ⟨0, 1⟩, []⟩,
        ⟨"arguments", true, some "arguments", ⟨1, 3⟩, []⟩]⟩]⟩]⟩

def blankRoot : Node := ⟨"program", true, none, ⟨1, 1⟩, []⟩

theorem callRoot_shaped {text : String} (h : ∀ i ∈ [0, 1, 3], isCharBoundary text i = true) :
    callRoot.Shaped text := by
  have hstart := h 0 (by simp)
  have hmid := h 1 (by simp)
  have hstop := h 3 (by simp)
  refine .mk _ hstart hstop (by decide) (by decide) (by decide) fun n hn => ?_
  rw [List.mem_singleton.mp hn]
  refine .mk _ hstart hstop (by decide) (by decide) (by decide) fun n hn => ?_
  rw [List.mem_singleton.mp hn]
  refine .mk _ hstart hstop (by decide) (by decide) (by decide) fun n hn => ?_
  rcases List.mem_cons.mp hn with rfl | hn
  · exact .mk _ hstart hmid (by decide) (by decide) (by decide) (by simp)
  · rw [List.mem_singleton.mp hn]
    exact .mk _ hmid hstop (by decide) (by decide) (by decide) (by simp)

theorem blankRoot_shaped : blankRoot.Shaped "\n" :=
  .mk _ (by decide) (by decide) (by decide) (by decide) (by decide) (by simp [blankRoot])

def parse (_ : Language) (text : String) : Option Tree :=
  if text = "f()" ∨ text = "q()" then some ⟨callRoot, false⟩
  else if text = "\n" then some ⟨blankRoot, false⟩
  else none

def libs : Libraries where
  sha := sha
  parse := parse
  shaped := by
    intro language text tree htree
    unfold parse at htree
    split_ifs at htree with hcall hblank
    · obtain rfl := Option.some.inj htree
      rcases hcall with rfl | rfl
      · exact callRoot_shaped (by decide)
      · exact callRoot_shaped (by decide)
    · obtain rfl := Option.some.inj htree
      exact hblank ▸ blankRoot_shaped
  nfc := id
  nfkc := id

def file (path text : String) : SourceFile := ⟨path, sha.hash text, .javascript, text⟩

def header (files : List SourceFile) : Artifact :=
  let h : Artifact := ⟨⟨producerId, nativeVersion, hex 0, "native", Language.all, "utf8"⟩,
    ⟨"source-set:v1:r", "r", Language.all, []⟩,
    ⟨"revision:v1:" ++ hex 1, "source-set:v1:r", [], hex 0, hex 0, hex 0⟩, [], [], [], [], []⟩
  { h with revision := { h.revision with documents := files.map (documentOf h) } }

def built (files : List SourceFile) : Except String (Artifact × IdentityRegistry) :=
  extractAll libs (files.zip (header files).revision.documents) (header files, .empty)

theorem headed (f : SourceFile) : Headed (header [f]) [f] where
  producer := ⟨rfl, rfl, rfl, rfl, validHash_hex 0⟩
  languages := ⟨rfl, rfl⟩
  sourceSet := ⟨rfl, rfl⟩
  root := by
    show "r" ≠ ""
    decide
  revision := by
    refine ⟨rfl, ?_, validHash_hex 0, validHash_hex 0, validHash_hex 0⟩
    show validRevisionId ("revision:v1:" ++ hex 1) = true
    decide +kernel
  documents := rfl
  sorted := List.pairwise_singleton _ _
  blank := ⟨rfl, rfl, rfl, rfl, rfl⟩

end Sample

/-- Everything in a call is wide. -/
theorem Sample.wide {libs : Libraries} {f : SourceFile} (hlanguage : f.language = .javascript)
    (hparse : libs.parse f.language f.text = some ⟨Sample.callRoot, false⟩) : Wide libs f := by
  obtain ⟨path, hash, language, text⟩ := f
  obtain rfl : language = .javascript := hlanguage
  intro tree htree
  obtain rfl := Option.some.inj (hparse.symm.trans htree)
  refine ⟨.inr (show 0 < 3 by decide), fun r hr => ?_⟩
  have hmeasured : measured ⟨path, hash, .javascript, text⟩ callRoot [] = [⟨0, 3⟩] := rfl
  rw [hmeasured, List.mem_singleton] at hr
  rw [hr]
  decide

/-- The artifact of `f()` passes. -/
theorem validateStructure_call : ∃ a ids,
    Sample.built [Sample.file "a.js" "f()"] = .ok (a, ids) ∧
      validateStructure Sample.libs a [Sample.file "a.js" "f()"] = .ok () := by
  cases hbuilt : Sample.built [Sample.file "a.js" "f()"] with
  | error e =>
      have hok : (Sample.built [Sample.file "a.js" "f()"]).isOk = true := by decide +kernel
      rw [hbuilt] at hok
      cases hok
  | ok built =>
      obtain ⟨a, ids⟩ := built
      refine ⟨a, ids, rfl, (validateStructure_of_extractAll Sample.libs _ a _ _ ids
        (Sample.headed _) (List.Perm.refl _) hbuilt).mpr ⟨fun f hf => ?_, List.nodup_singleton _⟩⟩
      rw [List.mem_singleton.mp hf]
      exact Sample.wide rfl rfl

/-- **The artifact of a line break is made, and refused.** -/
theorem validateStructure_blank : ∃ a ids,
    Sample.built [Sample.file "a.js" "\n"] = .ok (a, ids) ∧
      validateStructure Sample.libs a [Sample.file "a.js" "\n"] =
        .error "invalid native byte range" := by
  cases hbuilt : Sample.built [Sample.file "a.js" "\n"] with
  | error e =>
      have hok : (Sample.built [Sample.file "a.js" "\n"]).isOk = true := by decide +kernel
      rw [hbuilt] at hok
      cases hok
  | ok built =>
      refine ⟨built.1, built.2, rfl, ?_⟩
      have hrefused : (do
          let built ← Sample.built [Sample.file "a.js" "\n"]
          validateStructure Sample.libs built.1 [Sample.file "a.js" "\n"]) =
            .error "invalid native byte range" := by
        decide +kernel
      rw [hbuilt] at hrefused
      exact hrefused

end Baleyg.Native
