/-
What the check of an artifact asks, loop by loop.

Every loop of the check carries what it has seen so far.  Said of the whole list it goes
over: each record passes its own check, no id comes twice, and the identities are ones that a
single registry could have given out.  That is also enough, as long as some registry knows
them all: the loop's own registry never holds anything that one does not.
-/
import Baleyg.Native.Measured

namespace Baleyg.Native

open Fallible (ensure bind_eq_ok ensure_eq_ok ensure_bind_eq_ok)

/-! ### Ranges -/

/-- What `span` asks. -/
def Spans (text : String) (r : Range) (empty : Bool) : Prop :=
  r.start ≤ r.stop ∧ r.stop ≤ byteLength text ∧ (empty = true ∨ r.start < r.stop) ∧
    isCharBoundary text r.start = true ∧ isCharBoundary text r.stop = true

variable {text : String} {r : Range} {a : Artifact}

theorem span_eq_ok {empty : Bool} {u : Unit} :
    span text r empty = .ok u ↔ Spans text r empty := ensure_eq_ok

/-- **Of a range on boundaries, only the width is in question.** -/
theorem Spanned.spans (h : Spanned text r) {empty : Bool} :
    Spans text r empty ↔ empty = true ∨ r.start < r.stop :=
  ⟨fun hspans => hspans.2.2.1, fun hwide =>
    ⟨h.le, isCharBoundary_le h.stop, hwide, h.start, h.stop⟩⟩

theorem spans_of_get {value : String} (h : get text r = some value) (hne : value ≠ "") :
    Spans text r false := by
  obtain ⟨hstart, hstop, hle, hwide⟩ := get_eq_some h
  exact (Spanned.spans ⟨hstart, hstop, hle⟩).mpr (.inr (hwide hne))

/-! ### Ordinals -/

section Ordinals

variable {α κ : Type} {ordinal : α → Nat} {range : α → Range} {mismatch duplicate : String}

theorem validateGroup_returns {rows : List α} {i : Nat} {last : Option Range}
    (hnumber : rows.map ordinal = List.range' i rows.length)
    (hrange : rows.Pairwise fun a b => range a ≠ range b)
    (hlast : ∀ row ∈ rows, last ≠ some (range row)) :
    validateGroup ordinal range mismatch duplicate i last rows = .ok () := by
  induction rows generalizing i last with
  | nil => rfl
  | cons row rest ih =>
      rw [List.map_cons, List.length_cons, List.range'_succ, List.cons.injEq] at hnumber
      rw [List.pairwise_cons] at hrange
      unfold validateGroup
      rw [ensure_bind_eq_ok, ensure_bind_eq_ok]
      refine ⟨hnumber.1, hlast row List.mem_cons_self, ih hnumber.2 hrange.2 fun b hb heq => ?_⟩
      exact hrange.1 b hb (Option.some.inj heq)

variable [DecidableEq κ] {key : α → κ} {before : κ → κ → Bool}

/-- **Numbered rows of distinct ranges pass.** -/
theorem validateOrdinals_returns {rows : List α}
    (hnumbered : Groups.Numbered key (fun a b => (range a).le (range b)) ordinal rows)
    (hrange : rows.Pairwise fun a b => key a = key b → range a ≠ range b) :
    validateOrdinals key before ordinal range mismatch duplicate rows = .ok () := by
  unfold validateOrdinals
  refine Fallible.forM_eq_ok.mpr fun k _ => ?_
  refine validateGroup_returns ?_ ?_ fun _ _ h => by cases h
  · rw [hnumbered k, List.range_eq_range']
  · have hfilter : (rows.filter fun row => key row = k).Pairwise fun a b => range a ≠ range b := by
      refine List.pairwise_filter.mpr (hrange.imp fun hab ha hb => hab ?_)
      rw [of_decide_eq_true ha, of_decide_eq_true hb]
    exact (Groups.group_perm.pairwise_iff fun hab => hab.symm).mpr hfilter

end Ordinals

/-! ### Coverage and provenance -/

def CoverageAccepted (a : Artifact) (docs : Documents) (c : Coverage) : Prop :=
  (docs.lookup c.key).isSome = true ∧ c.producerId = producerId ∧ c.revisionId = a.revision.id ∧
    c.requested = true ∧ c.selected = true ∧ c.supportedRoles = [.definition, .call] ∧
    (∀ role ∈ c.observedRoles, role ∈ c.supportedRoles) ∧
    (c.observedRoles.IsChain fun r s =>
      c.supportedRoles.idxOf r < c.supportedRoles.idxOf s) ∧
    (c.state = .complete ↔ c.diagnostic = none) ∧ c.diagnostic ≠ some ""

theorem validateCoverage_returns {docs : Documents} {covers : List DocumentKey} {cs : List Coverage}
    (hcs : ∀ c ∈ cs, CoverageAccepted a docs c) (hnodup : (cs.map Coverage.key).Nodup)
    (hcovers : ∀ c ∈ cs, c.key ∉ covers) : validateCoverage a docs covers cs = .ok () := by
  induction cs generalizing covers with
  | nil => rfl
  | cons c rest ih =>
      rw [List.map_cons, List.nodup_cons] at hnodup
      obtain ⟨hdoc, hproducer, hrevision, hrequested, hselected, hroles, hobserved, hchain, hstate,
        htext⟩ := hcs c List.mem_cons_self
      unfold validateCoverage
      rw [ensure_bind_eq_ok, ensure_bind_eq_ok, ensure_bind_eq_ok]
      refine ⟨⟨hdoc, hcovers c List.mem_cons_self, hproducer, hrevision, hrequested, hselected,
        hroles, hobserved, hchain⟩, hstate, htext, ?_⟩
      refine ih (fun d hd => hcs d (List.mem_cons_of_mem c hd)) hnodup.2 fun d hd hmem => ?_
      rcases List.mem_cons.mp hmem with heq | hmem
      · exact hnodup.1 (heq ▸ List.mem_map_of_mem hd)
      · exact hcovers d (List.mem_cons_of_mem c hd) hmem

def ProvenanceAccepted (sha : Sha256) (a : Artifact) (docs : Documents) (p : Provenance) : Prop :=
  ∃ f, docs.lookup p.document = some f ∧ p.producerId = producerId ∧
    p.revisionId = a.revision.id ∧ p.contentHash = f.hash ∧ p.evidenceKind = "measuredSyntax" ∧
    p.basis = none ∧ p.derivedFrom = none ∧ p.freshness = "fresh" ∧
    p.id = proofId sha p.document a.revision.id

/-- **The loop over the provenance.** -/
theorem validateProvenance_eq_ok {sha : Sha256} {docs : Documents} {proofs out : List String}
    {ps : List Provenance} : validateProvenance sha a docs proofs ps = .ok out ↔
      (∀ p ∈ ps, ProvenanceAccepted sha a docs p) ∧ (ps.map Provenance.id).Nodup ∧
        (∀ p ∈ ps, p.id ∉ proofs) ∧ out = (ps.map Provenance.id).reverse ++ proofs := by
  induction ps generalizing proofs with
  | nil =>
      constructor
      · intro h
        cases h
        exact ⟨fun _ h => absurd h List.not_mem_nil, List.nodup_nil,
          fun _ h => absurd h List.not_mem_nil, rfl⟩
      · rintro ⟨-, -, -, rfl⟩
        rfl
  | cons p rest ih =>
      unfold validateProvenance
      rw [List.forall_mem_cons, List.forall_mem_cons, List.map_cons, List.nodup_cons]
      cases hdoc : docs.lookup p.document with
      | none =>
          constructor
          · intro h; cases h
          · rintro ⟨⟨⟨f, hf, -⟩, -⟩, -⟩
            rw [hdoc] at hf
            cases hf
      | some f =>
          simp only
          rw [ensure_bind_eq_ok, ensure_bind_eq_ok, ih]
          constructor
          · rintro ⟨⟨hnew, hp⟩, hproof, hrest, hnodup, hfresh, hout⟩
            refine ⟨⟨⟨f, hdoc, hp.1, hp.2.1, hp.2.2.1, hp.2.2.2.1, hp.2.2.2.2.1, hp.2.2.2.2.2.1,
              hp.2.2.2.2.2.2, hproof⟩, hrest⟩, ⟨fun hmem => ?_, hnodup⟩,
              ⟨hnew, fun q hq hmem => hfresh q hq (List.mem_cons_of_mem _ hmem)⟩, ?_⟩
            · obtain ⟨q, hq, heq⟩ := List.mem_map.mp hmem
              exact hfresh q hq (heq ▸ List.mem_cons_self)
            · rw [hout, List.reverse_cons, List.append_assoc, List.singleton_append]
          · rintro ⟨⟨⟨f', hf', hp⟩, hrest⟩, ⟨hnotin, hnodup⟩, ⟨hnew, hfresh⟩, hout⟩
            obtain rfl : f = f' := Option.some.inj (hdoc.symm.trans hf')
            refine ⟨⟨hnew, hp.1, hp.2.1, hp.2.2.1, hp.2.2.2.1, hp.2.2.2.2.1, hp.2.2.2.2.2.1,
              hp.2.2.2.2.2.2.1⟩, hp.2.2.2.2.2.2.2, hrest, hnodup, fun q hq hmem => ?_, ?_⟩
            · rcases List.mem_cons.mp hmem with heq | hmem
              · exact hnotin (heq ▸ List.mem_map_of_mem hq)
              · exact hfresh q hq hmem
            · rw [hout, List.reverse_cons, List.append_assoc, List.singleton_append]

/-! ### Declarations -/

@[mk_iff] structure DeclarationAccepted (libs : Libraries) (a : Artifact) (proofs : List String)
    (file : SourceFile) (d : Declaration) : Prop where
  record : d.revisionId = a.revision.id ∧ d.provenanceId ∈ proofs ∧ d.kind = d.key.kind ∧
    d.name = d.key.name ∧ d.header.kind = d.kind ∧ d.header.name = d.name
  nullable : d.name.isSome = d.lookupKey.isSome ∧ d.name.isSome = d.nameRange.isSome
  spans : Spans file.text d.range (d.kind = .moduleItem && file.text = "")
  nameRange : ∀ r ∈ d.nameRange,
    Spans file.text r false ∧ r.within d.range ∧ d.name = get file.text r
  lookupKey : ∀ n ∈ d.name, ∃ key, lookup libs d.document.language n = .ok key ∧
    d.lookupKey = some key
  signature : d.document.language = .java ∧ d.kind.isMember = true ∨ d.key.signature = none
  plain : d.kind = .moduleItem → d.name = none ∧ d.ancestors = []

theorem validateDeclaration_eq_ok {libs : Libraries} {proofs : List String} {file : SourceFile}
    {d : Declaration} : validateDeclaration libs a proofs file d = .ok () ↔
      DeclarationAccepted libs a proofs file d := by
  unfold validateDeclaration
  rw [declarationAccepted_iff, ensure_bind_eq_ok, ensure_bind_eq_ok, bind_eq_ok]
  simp only [span_eq_ok, exists_const]
  cases hrange : d.nameRange with
  | none =>
      cases hname : d.name with
      | none =>
          simp only [ensure_bind_eq_ok, ensure_eq_ok, Option.not_mem_none, false_implies,
            implies_true, true_and]
      | some n =>
          simp only [bind_eq_ok, ensure_eq_ok, Option.not_mem_none, false_implies, implies_true,
            true_and, Option.mem_some_iff, forall_eq', exists_const]
          tauto
  | some r =>
      cases hname : d.name with
      | none =>
          simp only [bind_eq_ok, span_eq_ok, ensure_eq_ok, Option.not_mem_none, false_implies,
            implies_true, true_and, Option.mem_some_iff, forall_eq', exists_const]
          tauto
      | some n =>
          simp only [bind_eq_ok, span_eq_ok, ensure_eq_ok, Option.mem_some_iff, forall_eq',
            exists_const]
          constructor
          · rintro ⟨hrecord, hnull, hspans, hname, hread, key, hkey, hlookup, hrest⟩
            exact ⟨hrecord, hnull, hspans, ⟨hname, hread⟩, ⟨key, hkey, hlookup⟩, hrest⟩
          · rintro ⟨hrecord, hnull, hspans, ⟨hname, hread⟩, ⟨key, hkey, hlookup⟩, hrest⟩
            exact ⟨hrecord, hnull, hspans, hname, hread, key, hkey, hlookup, hrest⟩

/-- What the loop over the declarations asks, with a registry that knows their identities. -/
structure DeclarationsAccepted (libs : Libraries) (a : Artifact) (docs : Documents)
    (proofs : List String) (k : IdentityRegistry) (ds : List Declaration) : Prop where
  each : ∀ d ∈ ds, ∃ file, docs.lookup d.document = some file ∧
    DeclarationAccepted libs a proofs file d
  stable : ∀ d ∈ ds, d.syntaxId = stableId libs.sha (d.input a.sourceSet.id) ∧
    IdentityRegistry.HasStable libs.sha k (d.input a.sourceSet.id)
  nodup : (ds.map Declaration.syntaxId).Nodup

section Declarations

variable {libs : Libraries} {a : Artifact} {docs : Documents} {proofs : List String}
  {identity k : IdentityRegistry} {declared out : List (String × Declaration)}
  {ds : List Declaration}

theorem validateDeclarations_ok
    (h : validateDeclarations libs a docs proofs identity declared ds = .ok out) :
    ∃ k, identity.Within k ∧ DeclarationsAccepted libs a docs proofs k ds ∧
      ∀ d ∈ ds, declared.lookup d.syntaxId = none := by
  induction ds generalizing identity declared with
  | nil =>
      exact ⟨identity, .refl _, ⟨fun _ h => absurd h List.not_mem_nil,
        fun _ h => absurd h List.not_mem_nil, List.nodup_nil⟩, fun _ h => absurd h List.not_mem_nil⟩
  | cons d rest ih =>
      unfold validateDeclarations at h
      cases hdoc : docs.lookup d.document with
      | none => rw [hdoc] at h; cases h
      | some file =>
          rw [hdoc] at h
          obtain ⟨_, hd, h⟩ := bind_eq_ok.mp h
          obtain ⟨⟨expected, identity'⟩, hstable, h⟩ := bind_eq_ok.mp h
          obtain ⟨rfl, hwithin, hknown⟩ := IdentityRegistry.stable_ok hstable
          obtain ⟨⟨hid, hnew⟩, h⟩ := ensure_bind_eq_ok.mp h
          obtain ⟨k, hk, hrest, hfresh⟩ := ih h
          have hne : ∀ e ∈ rest, e.syntaxId ≠ d.syntaxId := fun e he heq => by
            have hnone := hfresh e he
            rw [heq, List.lookup_cons_self] at hnone
            cases hnone
          refine ⟨k, hwithin.trans hk, ⟨?_, ?_, ?_⟩, ?_⟩
          · exact List.forall_mem_cons.mpr
              ⟨⟨file, hdoc, validateDeclaration_eq_ok.mp hd⟩, hrest.each⟩
          · exact List.forall_mem_cons.mpr ⟨⟨hid, hknown.mono hk⟩, hrest.stable⟩
          · rw [List.map_cons, List.nodup_cons]
            refine ⟨fun hmem => ?_, hrest.nodup⟩
            obtain ⟨e, he, heq⟩ := List.mem_map.mp hmem
            exact hne e he heq
          · refine List.forall_mem_cons.mpr ⟨hnew, fun e he => ?_⟩
            have hnone := hfresh e he
            rw [List.lookup_cons, beq_false_of_ne (hne e he)] at hnone
            exact hnone

/-- **Declarations whose identities one registry knows pass.** -/
theorem validateDeclarations_returns (h : DeclarationsAccepted libs a docs proofs k ds)
    (hidentity : identity.Within k) (hdeclared : ∀ d ∈ ds, declared.lookup d.syntaxId = none) :
    validateDeclarations libs a docs proofs identity declared ds =
      .ok ((ds.map fun d => (d.syntaxId, d)).reverse ++ declared) := by
  induction ds generalizing identity declared with
  | nil => rfl
  | cons d rest ih =>
      obtain ⟨file, hdoc, hd⟩ := h.each d List.mem_cons_self
      obtain ⟨hid, hknown⟩ := h.stable d List.mem_cons_self
      obtain ⟨identity', hstable, hwithin⟩ := IdentityRegistry.stable_within hidentity hknown
      have hnodup := h.nodup
      rw [List.map_cons, List.nodup_cons] at hnodup
      have hrest : DeclarationsAccepted libs a docs proofs k rest :=
        ⟨fun e he => h.each e (List.mem_cons_of_mem d he),
          fun e he => h.stable e (List.mem_cons_of_mem d he), hnodup.2⟩
      unfold validateDeclarations
      rw [hdoc]
      refine bind_eq_ok.mpr ⟨(), validateDeclaration_eq_ok.mpr hd, bind_eq_ok.mpr ⟨_, hstable, ?_⟩⟩
      refine ensure_bind_eq_ok.mpr ⟨⟨hid, hdeclared d List.mem_cons_self⟩, ?_⟩
      rw [List.map_cons, List.reverse_cons, List.append_assoc, List.singleton_append]
      refine ih hrest hwithin fun e he => ?_
      have hne : (e.syntaxId == d.syntaxId) = false :=
        beq_false_of_ne fun heq => hnodup.1 (heq ▸ List.mem_map_of_mem he)
      rw [List.lookup_cons, hne]
      exact hdeclared e (List.mem_cons_of_mem d he)

theorem lookup_declared (hnodup : (ds.map Declaration.syntaxId).Nodup) {d : Declaration}
    (hd : d ∈ ds) : ((ds.map fun e : Declaration => (e.syntaxId, e)).reverse ++ []).lookup d.syntaxId = some d := by
  rw [List.append_nil]
  refine Lookup.lookup_of_nodup (List.mem_reverse.mpr (List.mem_map_of_mem hd)) ?_
  rw [List.map_reverse, List.nodup_reverse, List.map_map]
  exact hnodup

end Declarations

/-! ### Calls -/

structure CalleeAccepted (file : SourceFile) (c : Call) : Prop where
  spans : Spans file.text c.range false
  callee : ∀ r ∈ c.calleeRange,
    Spans file.text r false ∧ r.within c.range ∧ c.spelling = get file.text r
  spelling : c.spelling ≠ some ""

theorem validateCallee_eq_ok {file : SourceFile} {c : Call} :
    validateCallee file c = .ok () ↔ CalleeAccepted file c := by
  unfold validateCallee
  rw [bind_eq_ok]
  cases hrange : c.calleeRange with
  | none =>
      simp only [span_eq_ok, ensure_eq_ok, exists_const]
      refine ⟨fun h => ⟨h.1, fun r hr => ?_, h.2⟩, fun h => ⟨h.spans, h.spelling⟩⟩
      rw [hrange] at hr
      cases hr
  | some r =>
      simp only [bind_eq_ok, span_eq_ok, ensure_eq_ok, exists_const]
      constructor
      · rintro ⟨hspans, hcallee, ⟨hwithin, hget⟩, hspelling⟩
        refine ⟨hspans, fun r' hr' => ?_, hspelling⟩
        rw [hrange] at hr'
        cases hr'
        exact ⟨hcallee, hwithin, hget⟩
      · intro h
        obtain ⟨hcallee, hread⟩ := h.callee r hrange
        exact ⟨h.spans, hcallee, hread, h.spelling⟩

theorem nativeExtractionContext_eq_ok {sha : Sha256} {producer : Producer} {language : Language}
    {context : String} :
    nativeExtractionContext sha producer language = .ok context ↔
      (producer.id = producerId ∧ producer.version = nativeVersion) ∧
        context = extractionContext sha language := by
  unfold nativeExtractionContext
  rw [ensure_bind_eq_ok]
  exact and_congr_right fun _ => ⟨fun h => (Except.ok.inj h).symm, fun h => congrArg _ h.symm⟩

def inputIn (libs : Libraries) (a : Artifact) (file : SourceFile) (document : DocumentKey)
    (owner : String) (kind : OccurrenceKind) (ordinal : Nat) : OccurrenceInput :=
  occurrenceInputOf a file (extractionContext libs.sha document.language) owner kind ordinal

/-- What is asked of one call, with a registry that knows its identity. -/
structure CallAccepted (libs : Libraries) (a : Artifact) (docs : Documents) (proofs : List String)
    (declared : List (String × Declaration)) (k : IdentityRegistry) (c : Call) (file : SourceFile)
    (owner : Declaration) : Prop where
  document : docs.lookup c.document = some file
  found : declared.lookup c.ownerSyntaxId = some owner
  record : owner.document = c.document ∧ c.revisionId = a.revision.id ∧ c.provenanceId ∈ proofs
  callee : CalleeAccepted file c
  producer : a.producer.id = producerId ∧ a.producer.version = nativeVersion
  id : c.id = occurrenceId libs.sha (inputIn libs a file c.document c.ownerSyntaxId .call c.ordinal)
  known : IdentityRegistry.HasOccurrence libs.sha k
    (inputIn libs a file c.document c.ownerSyntaxId .call c.ordinal)

section Calls

variable {libs : Libraries} {a : Artifact} {docs : Documents} {proofs : List String}
  {declared : List (String × Declaration)} {occurrence occurrence' k : IdentityRegistry}

theorem CallAccepted.mono {c : Call} {file : SourceFile} {owner : Declaration}
    {k' : IdentityRegistry} (h : CallAccepted libs a docs proofs declared k c file owner)
    (hk : k.Within k') : CallAccepted libs a docs proofs declared k' c file owner :=
  { h with known := h.known.mono hk }

/-- One turn of the loop over the calls. -/
theorem validateCalls_cons {seen : List String} {c : Call} {cs : List Call}
    (h : validateCalls libs a docs proofs declared occurrence seen (c :: cs) = .ok occurrence') :
    ∃ file owner next, CallAccepted libs a docs proofs declared next c file owner ∧ c.id ∉ seen ∧
      occurrence.Within next ∧
      validateCalls libs a docs proofs declared next (c.id :: seen) cs = .ok occurrence' := by
  unfold validateCalls at h
  cases hdoc : docs.lookup c.document with
  | none => rw [hdoc] at h; cases h
  | some file =>
      cases howner : declared.lookup c.ownerSyntaxId with
      | none => rw [hdoc, howner] at h; cases h
      | some owner =>
          rw [hdoc, howner] at h
          obtain ⟨⟨hdocument, hrevision, hproof, hnew⟩, h⟩ := ensure_bind_eq_ok.mp h
          obtain ⟨_, hcallee, h⟩ := bind_eq_ok.mp h
          obtain ⟨context, hcontext, h⟩ := bind_eq_ok.mp h
          obtain ⟨⟨expected, next⟩, hid, h⟩ := bind_eq_ok.mp h
          obtain ⟨hproducer, rfl⟩ := nativeExtractionContext_eq_ok.mp hcontext
          obtain ⟨rfl, hwithin, hknown⟩ := IdentityRegistry.occurrence_ok hid
          obtain ⟨hsame, h⟩ := ensure_bind_eq_ok.mp h
          exact ⟨file, owner, next, ⟨hdoc, howner, ⟨hdocument, hrevision, hproof⟩,
            validateCallee_eq_ok.mp hcallee, hproducer, hsame, hknown⟩, hnew, hwithin, h⟩

theorem validateCalls_ok {seen : List String} {cs : List Call}
    (h : validateCalls libs a docs proofs declared occurrence seen cs = .ok occurrence') :
    occurrence.Within occurrence' ∧
      ∀ c ∈ cs, ∃ file owner, CallAccepted libs a docs proofs declared occurrence' c file owner := by
  induction cs generalizing occurrence seen with
  | nil => cases h; exact ⟨.refl _, fun _ h => absurd h List.not_mem_nil⟩
  | cons c rest ih =>
      obtain ⟨file, owner, next, haccepted, -, hwithin, h⟩ := validateCalls_cons h
      obtain ⟨hwithin', hrest⟩ := ih h
      exact ⟨hwithin.trans hwithin',
        List.forall_mem_cons.mpr ⟨⟨file, owner, haccepted.mono hwithin'⟩, hrest⟩⟩

/-- **Calls whose identities one registry knows pass.** -/
theorem validateCalls_returns {seen : List String} {cs : List Call}
    (h : ∀ c ∈ cs, ∃ file owner, CallAccepted libs a docs proofs declared k c file owner)
    (hnodup : (cs.map Call.id).Nodup) (hseen : ∀ c ∈ cs, c.id ∉ seen)
    (hoccurrence : occurrence.Within k) :
    ∃ next, validateCalls libs a docs proofs declared occurrence seen cs = .ok next ∧
      next.Within k := by
  induction cs generalizing occurrence seen with
  | nil => exact ⟨occurrence, rfl, hoccurrence⟩
  | cons c rest ih =>
      obtain ⟨file, owner, hc⟩ := h c List.mem_cons_self
      obtain ⟨next, hid, hwithin⟩ := IdentityRegistry.occurrence_within hoccurrence hc.known
      rw [List.map_cons, List.nodup_cons] at hnodup
      have hseen' : ∀ d ∈ rest, d.id ∉ c.id :: seen := fun d hd hmem => by
        rcases List.mem_cons.mp hmem with heq | hmem
        · exact hnodup.1 (heq ▸ List.mem_map_of_mem hd)
        · exact hseen d (List.mem_cons_of_mem c hd) hmem
      obtain ⟨last, hlast, hk⟩ :=
        ih (fun d hd => h d (List.mem_cons_of_mem c hd)) hnodup.2 hseen' hwithin
      refine ⟨last, ?_, hk⟩
      unfold validateCalls
      rw [hc.document, hc.found]
      refine ensure_bind_eq_ok.mpr ⟨⟨hc.record.1, hc.record.2.1, hc.record.2.2,
        hseen c List.mem_cons_self⟩, bind_eq_ok.mpr ⟨(), validateCallee_eq_ok.mpr hc.callee, ?_⟩⟩
      refine bind_eq_ok.mpr ⟨_, nativeExtractionContext_eq_ok.mpr ⟨hc.producer, rfl⟩,
        bind_eq_ok.mpr ⟨_, hid, ensure_bind_eq_ok.mpr ⟨hc.id, hlast⟩⟩⟩

end Calls

/-! ### Control regions -/

/-- What is asked of one control region, with a registry that knows its identity. -/
structure ControlAccepted (libs : Libraries) (a : Artifact) (docs : Documents)
    (proofs : List String) (declared : List (String × Declaration)) (k : IdentityRegistry)
    (r : ControlRegion) (file : SourceFile) (owner : Declaration) : Prop where
  document : docs.lookup r.document = some file
  found : declared.lookup r.ownerSyntaxId = some owner
  record : owner.document = r.document ∧ r.revisionId = a.revision.id ∧ r.provenanceId ∈ proofs
  spans : Spans file.text r.range false
  producer : a.producer.id = producerId ∧ a.producer.version = nativeVersion
  id : r.id =
    occurrenceId libs.sha (inputIn libs a file r.document r.ownerSyntaxId .control r.ordinal)
  known : IdentityRegistry.HasOccurrence libs.sha k
    (inputIn libs a file r.document r.ownerSyntaxId .control r.ordinal)

section Controls

variable {libs : Libraries} {a : Artifact} {docs : Documents} {proofs : List String}
  {declared : List (String × Declaration)} {occurrence k : IdentityRegistry}
  {regions out : List (String × ControlRegion)}

variable {rs : List ControlRegion}

/-- One turn of the loop over the control regions. -/
theorem validateControls_cons {r : ControlRegion}
    (h : validateControls libs a docs proofs declared occurrence regions (r :: rs) = .ok out) :
    ∃ file owner next, ControlAccepted libs a docs proofs declared next r file owner ∧
      regions.lookup r.id = none ∧ occurrence.Within next ∧
      validateControls libs a docs proofs declared next ((r.id, r) :: regions) rs = .ok out := by
  unfold validateControls at h
  cases hdoc : docs.lookup r.document with
  | none => rw [hdoc] at h; cases h
  | some file =>
      cases howner : declared.lookup r.ownerSyntaxId with
      | none => rw [hdoc, howner] at h; cases h
      | some owner =>
          rw [hdoc, howner] at h
          obtain ⟨hrecord, h⟩ := ensure_bind_eq_ok.mp h
          obtain ⟨_, hspans, h⟩ := bind_eq_ok.mp h
          obtain ⟨context, hcontext, h⟩ := bind_eq_ok.mp h
          obtain ⟨⟨expected, next⟩, hid, h⟩ := bind_eq_ok.mp h
          obtain ⟨hproducer, rfl⟩ := nativeExtractionContext_eq_ok.mp hcontext
          obtain ⟨rfl, hwithin, hknown⟩ := IdentityRegistry.occurrence_ok hid
          obtain ⟨⟨hsame, hnew⟩, h⟩ := ensure_bind_eq_ok.mp h
          exact ⟨file, owner, next, ⟨hdoc, howner, hrecord, span_eq_ok.mp hspans, hproducer, hsame,
            hknown⟩, hnew, hwithin, h⟩

theorem validateControls_ok
    (h : validateControls libs a docs proofs declared occurrence regions rs = .ok out) :
    ∃ k, occurrence.Within k ∧
      ∀ r ∈ rs, ∃ file owner, ControlAccepted libs a docs proofs declared k r file owner := by
  induction rs generalizing occurrence regions with
  | nil => exact ⟨occurrence, .refl _, fun _ h => absurd h List.not_mem_nil⟩
  | cons r rest ih =>
      obtain ⟨file, owner, next, haccepted, -, hwithin, h⟩ := validateControls_cons h
      obtain ⟨k, hk, hrest⟩ := ih h
      exact ⟨k, hwithin.trans hk, List.forall_mem_cons.mpr ⟨⟨file, owner,
        { haccepted with known := haccepted.known.mono hk }⟩, hrest⟩⟩

/-- **Regions whose identities one registry knows pass.** -/
theorem validateControls_returns
    (h : ∀ r ∈ rs, ∃ file owner, ControlAccepted libs a docs proofs declared k r file owner)
    (hnodup : (rs.map ControlRegion.id).Nodup) (hregions : ∀ r ∈ rs, regions.lookup r.id = none)
    (hoccurrence : occurrence.Within k) :
    validateControls libs a docs proofs declared occurrence regions rs =
      .ok ((rs.map fun r => (r.id, r)).reverse ++ regions) := by
  induction rs generalizing occurrence regions with
  | nil => rfl
  | cons r rest ih =>
      obtain ⟨file, owner, hr⟩ := h r List.mem_cons_self
      obtain ⟨next, hid, hwithin⟩ := IdentityRegistry.occurrence_within hoccurrence hr.known
      rw [List.map_cons, List.nodup_cons] at hnodup
      unfold validateControls
      rw [hr.document, hr.found, List.map_cons, List.reverse_cons, List.append_assoc,
        List.singleton_append]
      refine ensure_bind_eq_ok.mpr ⟨hr.record, bind_eq_ok.mpr ⟨(), span_eq_ok.mpr hr.spans, ?_⟩⟩
      refine bind_eq_ok.mpr ⟨_, nativeExtractionContext_eq_ok.mpr ⟨hr.producer, rfl⟩,
        bind_eq_ok.mpr ⟨_, hid, ensure_bind_eq_ok.mpr
          ⟨⟨hr.id, hregions r List.mem_cons_self⟩, ?_⟩⟩⟩
      refine ih (fun s hs => h s (List.mem_cons_of_mem r hs)) hnodup.2 (fun s hs => ?_) hwithin
      have hne : (s.id == r.id) = false :=
        beq_false_of_ne fun heq => hnodup.1 (heq ▸ List.mem_map_of_mem hs)
      rw [List.lookup_cons, hne]
      exact hregions s (List.mem_cons_of_mem r hs)

theorem lookup_region (hnodup : (rs.map ControlRegion.id).Nodup) {r : ControlRegion} (hr : r ∈ rs) :
    ((rs.map fun s : ControlRegion => (s.id, s)).reverse ++ []).lookup r.id = some r := by
  rw [List.append_nil]
  refine Lookup.lookup_of_nodup (List.mem_reverse.mpr (List.mem_map_of_mem hr)) ?_
  rw [List.map_reverse, List.nodup_reverse, List.map_map]
  exact hnodup

theorem validateParent_returns {r : ControlRegion}
    (h : ∀ id ∈ r.parentId, ∃ parent, regions.lookup id = some parent ∧
      parent.ownerSyntaxId = r.ownerSyntaxId ∧ parent.document = r.document ∧
      r.range.within parent.range ∧ parent.id ≠ r.id) : validateParent regions r = .ok () := by
  unfold validateParent
  cases hid : r.parentId with
  | none => rfl
  | some id =>
      obtain ⟨parent, hparent, hr⟩ := h id hid
      simp only [hparent]
      exact ensure_eq_ok.mpr hr

theorem validateCallRegions_returns {c : Call}
    (h : ∀ id ∈ c.regionIds, ∃ r, regions.lookup id = some r ∧
      r.ownerSyntaxId = c.ownerSyntaxId ∧ r.document = c.document ∧ c.range.within r.range) :
    validateCallRegions regions c = .ok () := by
  unfold validateCallRegions
  refine Fallible.forM_eq_ok.mpr fun id hid => ?_
  obtain ⟨r, hr, hc⟩ := h id hid
  simp only [hr]
  exact ensure_eq_ok.mpr hc

end Controls

end Baleyg.Native
