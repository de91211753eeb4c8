/-
What a walk records is sound.

`Recorded` is the invariant.  Every record lies on character boundaries and carries the
document, the revision and the proof of its walk; a declaration has the identity of its
ancestors and its key, and its number is the count of those before it; a call or a region
belongs to a declaration that was recorded, and every region it names is one that was
recorded, of the same owner, around it.

`Placed` is what the invariant needs of the place a walk is at: its owner was declared, and
each of its regions was recorded for that owner and lies around what is to be visited.
-/
import Baleyg.Native.Walk

namespace Baleyg.Native

open Fallible (ensure bind_eq_ok ensure_eq_ok)

/-- A range with its ends on character boundaries. -/
structure Spanned (text : String) (r : Range) : Prop where
  start : isCharBoundary text r.start = true
  stop : isCharBoundary text r.stop = true
  le : r.start ≤ r.stop

theorem Node.Shaped.spanned {text : String} {n : Node} (h : n.Shaped text) :
    Spanned text n.range := ⟨h.start, h.stop, h.le⟩

/-! ### Sound records -/

structure DeclarationSound (c : Context) (d : Declaration) : Prop where
  document : d.document = c.document
  revision : d.revisionId = c.revisionId
  proof : d.provenanceId = c.proofId
  kind : d.kind = d.key.kind
  name : d.name = d.key.name
  header : d.header.kind = d.kind ∧ d.header.name = d.name
  spanned : Spanned c.file.text d.range
  named : (d.name = none ∧ d.lookupKey = none ∧ d.nameRange = none) ∨
    ∃ value r key, d.name = some value ∧ d.nameRange = some r ∧ d.lookupKey = some key ∧
      lookup c.libs c.file.language value = .ok key ∧ r.within d.range ∧
      get c.file.text r = some value ∧ value ≠ ""
  signature : (c.file.language = .java ∧ d.kind.isMember = true) ∨ d.key.signature = none
  plain : d.kind = .moduleItem → d.name = none ∧ d.ancestors = []

/-- A region that is recorded for an owner, around a range. -/
def Around (rs : List ControlRegion) (owner : String) (range : Range) (id : String)
    (r : ControlRegion) : Prop :=
  r ∈ rs ∧ r.id = id ∧ r.ownerSyntaxId = owner ∧ range.within r.range

structure RegionSound (c : Context) (ds : List Declaration) (rs : List ControlRegion)
    (r : ControlRegion) : Prop where
  id : r.id = c.pendingId r.ownerSyntaxId r.range
  document : r.document = c.document
  revision : r.revisionId = c.revisionId
  proof : r.provenanceId = c.proofId
  spanned : Spanned c.file.text r.range
  owner : ∃ d ∈ ds, d.syntaxId = r.ownerSyntaxId
  parent : ∀ id ∈ r.parentId, ∃ parent, Around rs r.ownerSyntaxId r.range id parent ∧
    parent.range ≠ r.range

structure CallSound (c : Context) (ds : List Declaration) (rs : List ControlRegion) (call : Call) :
    Prop where
  document : call.document = c.document
  revision : call.revisionId = c.revisionId
  proof : call.provenanceId = c.proofId
  spanned : Spanned c.file.text call.range
  owner : ∃ d ∈ ds, d.syntaxId = call.ownerSyntaxId
  callee : call.spelling ≠ some "" ∧ ∀ r ∈ call.calleeRange,
    r.within call.range ∧ call.spelling = get c.file.text r ∧ call.spelling ≠ none
  regions : ∀ id ∈ call.regionIds, ∃ r, Around rs call.ownerSyntaxId call.range id r

def declarationLe (a b : Declaration) : Bool := a.range.le b.range

/-- **What a walk keeps.** -/
structure Recorded (c : Context) (s : ParserState) : Prop where
  declarations : ∀ d ∈ s.declarations, DeclarationSound c d
  stable : ∀ d ∈ s.declarations, d.syntaxId = stableId c.libs.sha (c.stableInput d.ancestors d.key) ∧
    IdentityRegistry.HasStable c.libs.sha s.ids (c.stableInput d.ancestors d.key)
  counted : ∀ k : OrdinalKey, k.2.1 ≠ .moduleItem →
    s.declarationOrdinals k = (s.declarations.filter fun d => d.ordinalKey = k).length
  numbered : Ordered s.declarations →
    Groups.Numbered Declaration.ordinalKey declarationLe (fun d => d.key.ordinal) s.declarations
  calls : ∀ call ∈ s.calls, CallSound c s.declarations s.controlRegions call
  controlRegions : ∀ r ∈ s.controlRegions, RegionSound c s.declarations s.controlRegions r
  seenCalls : ∀ call ∈ s.calls, (call.ownerSyntaxId, OccurrenceKind.call, call.range) ∈ s.seen
  seenControls : ∀ r ∈ s.controlRegions,
    (r.ownerSyntaxId, OccurrenceKind.control, r.range) ∈ s.seen
  callsNodup : (s.calls.map fun call => (call.ownerSyntaxId, call.range)).Nodup
  controlsNodup : (s.controlRegions.map fun r => (r.ownerSyntaxId, r.range)).Nodup

/-- What the place of a walk over a range refers to is recorded. -/
structure Placed (p : Place) (range : Range) (s : ParserState) : Prop where
  owner : ∃ d ∈ s.declarations, d.syntaxId = p.owner
  regions : ∀ id ∈ p.regions, ∃ r, Around s.controlRegions p.owner range id r

section Mono

variable {c : Context} {ds ds' : List Declaration} {rs rs' : List ControlRegion}

theorem Around.mono {owner id : String} {range range' : Range} {r : ControlRegion}
    (h : Around rs owner range id r) (hrs : rs ⊆ rs') (hrange : range'.within range) :
    Around rs' owner range' id r :=
  ⟨hrs h.1, h.2.1, h.2.2.1, Range.within_trans hrange h.2.2.2⟩

theorem RegionSound.mono {r : ControlRegion} (h : RegionSound c ds rs r) (hds : ds ⊆ ds')
    (hrs : rs ⊆ rs') : RegionSound c ds' rs' r := by
  obtain ⟨d, hd, hid⟩ := h.owner
  refine ⟨h.id, h.document, h.revision, h.proof, h.spanned, ⟨d, hds hd, hid⟩, fun id hparent => ?_⟩
  obtain ⟨parent, haround, hne⟩ := h.parent id hparent
  exact ⟨parent, haround.mono hrs (Range.within_refl _), hne⟩

theorem CallSound.mono {call : Call} (h : CallSound c ds rs call) (hds : ds ⊆ ds')
    (hrs : rs ⊆ rs') : CallSound c ds' rs' call := by
  obtain ⟨d, hd, hid⟩ := h.owner
  refine ⟨h.document, h.revision, h.proof, h.spanned, ⟨d, hds hd, hid⟩, h.callee,
    fun id hregion => ?_⟩
  obtain ⟨r, haround⟩ := h.regions id hregion
  exact ⟨r, haround.mono hrs (Range.within_refl _)⟩

theorem Placed.mono {p : Place} {range range' : Range} {s s' : ParserState}
    (h : Placed p range s) (hds : s.declarations ⊆ s'.declarations)
    (hrs : s.controlRegions ⊆ s'.controlRegions) (hrange : range'.within range) :
    Placed p range' s' := by
  obtain ⟨d, hd, hid⟩ := h.owner
  refine ⟨⟨d, hds hd, hid⟩, fun id hregion => ?_⟩
  obtain ⟨r, haround⟩ := h.regions id hregion
  exact ⟨r, haround.mono hrs hrange⟩

end Mono

theorem Ordered.sorted {text : String} {ds : List Declaration} (h : Ordered ds)
    (hspanned : ∀ d ∈ ds, Spanned text d.range) :
    ds.Pairwise fun a b => a.ordinalKey = b.ordinalKey → declarationLe a b = true := by
  refine List.Pairwise.imp_of_mem ?_ h
  intro a b ha hb hab hkey
  have hbefore := hab hkey
  have hale := (hspanned a ha).le
  have hble := (hspanned b hb).le
  unfold declarationLe Range.le
  rw [Bool.or_eq_true, Bool.and_eq_true, decide_eq_true_iff, decide_eq_true_iff, beq_iff_eq]
  omega

/-! ### One visit -/

namespace Context

variable {c : Context} {n : Node} {p p' : Place} {s s' : ParserState} {k : DeclarationKind}

variable {lookupKey : Option String}

theorem declaration_sound {id : String} (hn : n.Shaped c.file.text)
    (hk : declares c.file p.up n = some k) (hlookup : c.HasLookup n lookupKey) :
    DeclarationSound c (c.declaration n p (c.keyAt n p s k) id lookupKey) where
  document := rfl
  revision := rfl
  proof := rfl
  kind := rfl
  name := rfl
  header := ⟨rfl, rfl⟩
  spanned := hn.spanned
  named := by
    rcases hlookup with ⟨hname, rfl⟩ | ⟨value, r, key, hname, hkey, rfl⟩
    · refine .inl ⟨?_, rfl, ?_⟩
      · show (Native.name c.file n).map Prod.fst = none
        rw [hname]
        rfl
      · show (Native.name c.file n).map Prod.snd = none
        rw [hname]
        rfl
    · obtain ⟨hwithin, hget, hne⟩ := name_eq_some hn hname
      refine .inr ⟨value, r, key, ?_, ?_, rfl, hkey, hwithin, hget, hne⟩
      · show (Native.name c.file n).map Prod.fst = some value
        rw [hname]
        rfl
      · show (Native.name c.file n).map Prod.snd = some r
        rw [hname]
        rfl
  signature := by
    show (c.file.language = .java ∧ k.isMember = true) ∨ (keyOf c.file n k).signature = none
    unfold keyOf
    by_cases hmember : c.file.language = .java ∧ k.isMember = true
    · exact .inl hmember
    · exact .inr (if_neg hmember)
  plain := fun hmodule => absurd hmodule (nativeKind_ne_module (declares_eq_some hk))

/-- **A declaration keeps the invariant.** -/
theorem declaredState_keeps (hs : Recorded c s) (hn : n.Shaped c.file.text)
    (hk : declares c.file p.up n = some k) {ids : IdentityRegistry}
    (hlookup : c.HasLookup n lookupKey) (hids : s.ids.Within ids)
    (hstable : IdentityRegistry.HasStable c.libs.sha ids
      (c.stableInput p.ancestors (c.keyAt n p s k))) :
    Recorded c (c.declaredState n p s k ids lookupKey) := by
  have hkept : s.declarations ⊆ (c.declaredState n p s k ids lookupKey).declarations :=
    List.subset_append_left _ _
  have hne := nativeKind_ne_module (declares_eq_some hk)
  set d := c.declaration n p (c.keyAt n p s k)
    (stableId c.libs.sha (c.stableInput p.ancestors (c.keyAt n p s k))) lookupKey
  have hspanned : ∀ e ∈ s.declarations ++ [d], Spanned c.file.text e.range := by
    intro e he
    rcases List.mem_append.mp he with he | he
    · exact (hs.declarations e he).spanned
    · rw [List.mem_singleton.mp he]; exact hn.spanned
  refine
    { declarations := fun d hd => ?_, stable := fun d hd => ?_, counted := fun key hkey => ?_,
      numbered := fun hordered => ?_, calls := fun call hcall => (hs.calls call hcall).mono hkept
        (List.Subset.refl _),
      controlRegions := fun r hr => (hs.controlRegions r hr).mono hkept (List.Subset.refl _),
      seenCalls := hs.seenCalls, seenControls := hs.seenControls, callsNodup := hs.callsNodup,
      controlsNodup := hs.controlsNodup }
  · rcases List.mem_append.mp hd with hd | hd
    · exact hs.declarations d hd
    · rw [List.mem_singleton.mp hd]; exact declaration_sound hn hk hlookup
  · rcases List.mem_append.mp hd with hd | hd
    · exact ⟨(hs.stable d hd).1, (hs.stable d hd).2.mono hids⟩
    · rw [List.mem_singleton.mp hd]; exact ⟨rfl, hstable⟩
  · show Function.update s.declarationOrdinals d.ordinalKey (s.declarationOrdinals d.ordinalKey + 1)
      key = ((s.declarations ++ [d]).filter fun e => e.ordinalKey = key).length
    rw [List.filter_append, List.length_append, ← hs.counted key hkey]
    by_cases hsame : d.ordinalKey = key
    · subst hsame
      rw [Function.update_self, List.filter_cons_of_pos (by simp), List.filter_nil,
        List.length_singleton]
    · rw [Function.update_of_ne (Ne.symm hsame), List.filter_cons_of_neg (by simpa using hsame),
        List.filter_nil, List.length_nil, Nat.add_zero]
  · have hearlier : Ordered s.declarations := (List.pairwise_append.mp hordered).1
    refine (hs.numbered hearlier).concat (hordered.sorted hspanned) ?_
    exact hs.counted d.ordinalKey hne

theorem declaredState_placed (hp : Placed p n.range s) {ids : IdentityRegistry} :
    Placed (p.declared k (c.keyAt n p s k)
      (stableId c.libs.sha (c.stableInput p.ancestors (c.keyAt n p s k)))) n.range
      (c.declaredState n p s k ids lookupKey) := by
  have hkept : s.declarations ⊆ (c.declaredState n p s k ids lookupKey).declarations :=
    List.subset_append_left _ _
  have hsame := hp.mono hkept (List.Subset.refl _) (Range.within_refl _)
  unfold Place.declared
  cases hk : k.owns with
  | false => exact ⟨hsame.owner, hsame.regions⟩
  | true =>
      exact ⟨⟨_, List.mem_append_right _ List.mem_cons_self, rfl⟩,
        fun id hid => absurd hid List.not_mem_nil⟩

/-- **A control region keeps the invariant.** -/
theorem control_keeps (hs : Recorded c s) (hn : n.Shaped c.file.text) (hp : Placed p n.range s)
    (h : c.control n p s = .ok (p', s')) : Recorded c s' ∧ Placed p' n.range s' := by
  rcases control_ok h with ⟨-, rfl, rfl⟩ | ⟨-, hseen, rfl, rfl⟩
  · exact ⟨hs, hp⟩
  have hkept : s.controlRegions ⊆ s.controlRegions ++ [c.regionAt n p s] :=
    List.subset_append_left _ _
  have hnew : c.regionAt n p s ∈ s.controlRegions ++ [c.regionAt n p s] :=
    List.mem_append_right _ List.mem_cons_self
  -- a region around this one was seen, and this one was not
  have hne : ∀ r ∈ s.controlRegions, r.ownerSyntaxId = p.owner → r.range ≠ n.range := by
    intro r hr howner hrange
    have hmem := hs.seenControls r hr
    rw [howner, hrange] at hmem
    exact hseen hmem
  have hsound : RegionSound c s.declarations (s.controlRegions ++ [c.regionAt n p s])
      (c.regionAt n p s) := by
    refine ⟨rfl, rfl, rfl, rfl, hn.spanned, hp.owner, fun id hid => ?_⟩
    obtain ⟨parent, haround⟩ := hp.regions id (List.mem_of_mem_getLast? hid)
    exact ⟨parent, haround.mono hkept (Range.within_refl _),
      hne parent haround.1 haround.2.2.1⟩
  refine ⟨?_, hp.owner, fun id hid => ?_⟩
  · refine
      { declarations := hs.declarations, stable := hs.stable, counted := hs.counted,
        numbered := hs.numbered, calls := fun call hcall => (hs.calls call hcall).mono
          (List.Subset.refl _) hkept, controlRegions := fun r hr => ?_,
        seenCalls := fun call hcall => List.mem_cons_of_mem _ (hs.seenCalls call hcall),
        seenControls := fun r hr => ?_, callsNodup := hs.callsNodup, controlsNodup := ?_ }
    · rcases List.mem_append.mp hr with hr | hr
      · exact (hs.controlRegions r hr).mono (List.Subset.refl _) hkept
      · rw [List.mem_singleton.mp hr]; exact hsound
    · rcases List.mem_append.mp hr with hr | hr
      · exact List.mem_cons_of_mem _ (hs.seenControls r hr)
      · rw [List.mem_singleton.mp hr]; exact List.mem_cons_self
    · show ((s.controlRegions ++ [c.regionAt n p s]).map _).Nodup
      rw [List.map_append, List.nodup_append]
      refine ⟨hs.controlsNodup, List.nodup_singleton _, fun a ha b hb hab => ?_⟩
      obtain ⟨r, hr, rfl⟩ := List.mem_map.mp ha
      rw [List.mem_singleton.mp hb, Prod.mk.injEq] at hab
      exact hne r hr hab.1 hab.2
  · rcases List.mem_append.mp hid with hid | hid
    · obtain ⟨r, haround⟩ := hp.regions id hid
      exact ⟨r, haround.mono hkept (Range.within_refl _)⟩
    · rw [List.mem_singleton.mp hid]; exact ⟨_, hnew, rfl, rfl, Range.within_refl _⟩

/-- **A call keeps the invariant.** -/
theorem call_keeps (hs : Recorded c s) (hn : n.Shaped c.file.text) (hp : Placed p n.range s)
    (h : c.call n p s = .ok s') : Recorded c s' ∧ Placed p n.range s' := by
  rcases call_ok h with ⟨-, rfl⟩ | ⟨-, hseen, rfl⟩
  · exact ⟨hs, hp⟩
  refine ⟨?_, hp.owner, hp.regions⟩
  refine
    { declarations := hs.declarations, stable := hs.stable, counted := hs.counted,
      numbered := hs.numbered, calls := fun call hcall => ?_,
      controlRegions := hs.controlRegions, seenCalls := fun call hcall => ?_,
      seenControls := fun r hr => List.mem_cons_of_mem _ (hs.seenControls r hr),
      callsNodup := ?_, controlsNodup := hs.controlsNodup }
  · rcases List.mem_append.mp hcall with hcall | hcall
    · exact hs.calls call hcall
    · rw [List.mem_singleton.mp hcall]
      exact ⟨rfl, rfl, rfl, hn.spanned, hp.owner, callee_sound hn, hp.regions⟩
  · rcases List.mem_append.mp hcall with hcall | hcall
    · exact List.mem_cons_of_mem _ (hs.seenCalls call hcall)
    · rw [List.mem_singleton.mp hcall]; exact List.mem_cons_self
  · show ((s.calls ++ [c.callAt n p s]).map _).Nodup
    rw [List.map_append, List.nodup_append]
    refine ⟨hs.callsNodup, List.nodup_singleton _, fun a ha b hb hab => ?_⟩
    obtain ⟨call, hcall, rfl⟩ := List.mem_map.mp ha
    rw [List.mem_singleton.mp hb, Prod.mk.injEq] at hab
    have hmem := hs.seenCalls call hcall
    rw [hab.1, hab.2] at hmem
    exact hseen hmem

/-! ### A walk -/

theorem visited_keeps (hs : Recorded c s) : Recorded c s.visited :=
  ⟨hs.declarations, hs.stable, hs.counted, hs.numbered, hs.calls, hs.controlRegions,
    hs.seenCalls, hs.seenControls, hs.callsNodup, hs.controlsNodup⟩

theorem visit_keeps {p₁ p₂ : Place} {s₁ s₂ s₃ : ParserState} (hs : Recorded c s)
    (hn : n.Shaped c.file.text) (hp : Placed p n.range s)
    (hdeclare : c.declare n p s.visited = .ok (p₁, s₁))
    (hcontrol : c.control n p₁ s₁ = .ok (p₂, s₂)) (hcall : c.call n p₂ s₂ = .ok s₃) :
    Recorded c s₃ ∧ Placed p₂ n.range s₃ := by
  have hdeclared : Recorded c s₁ ∧ Placed p₁ n.range s₁ := by
    have hp' : Placed p n.range s.visited := ⟨hp.owner, hp.regions⟩
    rcases declare_ok hdeclare with ⟨-, rfl, rfl⟩ |
      ⟨k, ids, lookupKey, hk, hlookup, hids, hstable, rfl, rfl⟩
    · exact ⟨visited_keeps hs, hp'⟩
    · exact ⟨declaredState_keeps (visited_keeps hs) hn hk hlookup hids hstable, declaredState_placed hp'⟩
  obtain ⟨hcontrolled, hplaced⟩ := control_keeps hdeclared.1 hn hdeclared.2 hcontrol
  exact call_keeps hcontrolled hn hplaced hcall

theorem rule_keeps (c : Context) :
    c.Rule
      (fun n p s s' => Adds s s' ∧
        (n.Shaped c.file.text → Placed p n.range s → Recorded c s → Recorded c s'))
      fun ns p s s' => Adds s s' ∧
        ((∀ n ∈ ns, n.Shaped c.file.text ∧ Placed p n.range s) → Recorded c s → Recorded c s') where
  skip n p s h := ⟨(rule_adds c).skip n p s h, fun _ _ hs =>
    ⟨hs.declarations, hs.stable, hs.counted, hs.numbered, hs.calls, hs.controlRegions,
      hs.seenCalls, hs.seenControls, hs.callsNodup, hs.controlsNodup⟩⟩
  visit n p s p₁ s₁ p₂ s₂ s₃ s' hhidden hdeclare hcontrol hcall hchildren := by
    refine ⟨(rule_adds c).visit n p s p₁ s₁ p₂ s₂ s₃ s' hhidden hdeclare hcontrol hcall
      hchildren.1, fun hn hp hs => ?_⟩
    obtain ⟨hrecorded, hplaced⟩ := visit_keeps hs hn hp hdeclare hcontrol hcall
    refine hchildren.2 (fun child hchild => ⟨hn.child hchild, ?_⟩) hrecorded
    have hinside := hplaced.mono (List.Subset.refl _) (List.Subset.refl _) (hn.within hchild)
    exact ⟨hinside.owner, hinside.regions⟩
  nil p s := ⟨.refl s, fun _ hs => hs⟩
  pass n rest p s s' _ h := ⟨h.1, fun hns hs =>
    h.2 (fun m hm => hns m (List.mem_cons_of_mem n hm)) hs⟩
  cons n rest p s s₁ s' _ hnode hrest := by
    refine ⟨hnode.1.trans hrest.1, fun hns hs => ?_⟩
    obtain ⟨hn, hp⟩ := hns n List.mem_cons_self
    refine hrest.2 (fun m hm => ?_) (hnode.2 hn hp hs)
    obtain ⟨hm', hplaced⟩ := hns m (List.mem_cons_of_mem n hm)
    exact ⟨hm', hplaced.mono hnode.1.declarations.subset hnode.1.controlRegions.subset
      (Range.within_refl _)⟩

/-- **A walk keeps the invariant.** -/
theorem walk_keeps (hn : n.Shaped c.file.text) (hp : Placed p n.range s) (hs : Recorded c s)
    (h : c.walk n p s = .ok s') : Recorded c s' :=
  ((rule_keeps c).walk n p s s' h).2 hn hp hs

/-! ### What a walk measures -/

end Context

mutual

/-- The ranges of all that is measured in a node: what it declares, controls and calls. -/
def measured (f : SourceFile) : Node → List String → List Range
  | n@⟨_, _, _, _, children⟩, up =>
      if isOpaque f.language n = true then []
      else
        (if (declares f up n).isSome = true then [n.range] else []) ++
          ((if isRegion n = true then [n.range] else []) ++
            ((if isCall f.language n = true then [n.range] else []) ++
              measuredAll f children (n.kind :: up)))

def measuredAll (f : SourceFile) : List Node → List String → List Range
  | [], _ => []
  | n :: rest, up => (if n.named = true then measured f n up else []) ++ measuredAll f rest up

end

section Measured

variable {f : SourceFile} {n : Node} {up : List String}

theorem measured_of_hidden (h : isOpaque f.language n = true) : measured f n up = [] := by
  cases n
  rw [measured, if_pos h]

theorem measured_of_visit (h : isOpaque f.language n = false) :
    measured f n up = (if (declares f up n).isSome = true then [n.range] else []) ++
      ((if isRegion n = true then [n.range] else []) ++
        ((if isCall f.language n = true then [n.range] else []) ++
          measuredAll f n.children (n.kind :: up))) := by
  cases n
  rw [measured, if_neg (Bool.eq_false_iff.mp h)]

end Measured

def ParserState.ranges (s : ParserState) : List Range :=
  s.declarations.map Declaration.range ++
    (s.controlRegions.map ControlRegion.range ++ s.calls.map Call.range)

namespace Context

variable {c : Context} {n : Node} {p p' : Place} {s s' : ParserState}

theorem declare_ranges (h : c.declare n p s.visited = .ok (p', s')) (r : Range) :
    p'.up = p.up ∧ s'.ranges.count r = s.ranges.count r +
      (if (declares c.file p.up n).isSome = true then [n.range] else []).count r := by
  rcases declare_ok h with ⟨hk, rfl, rfl⟩ | ⟨k, ids, lookupKey, hk, -, -, -, rfl, rfl⟩
  · rw [hk, if_neg (by simp)]; exact ⟨rfl, rfl⟩
  · have hsome : (declares c.file p.up n).isSome = true := by rw [hk, Option.isSome_some]
    rw [if_pos hsome]
    refine ⟨rfl, ?_⟩
    simp only [ParserState.ranges, declaredState, ParserState.visited, List.map_append,
      List.map_cons, List.map_nil, List.count_append]
    show _ + List.count r [n.range] + _ = _
    omega

theorem control_ranges (h : c.control n p s = .ok (p', s')) (r : Range) :
    p'.up = p.up ∧ s'.ranges.count r = s.ranges.count r +
      (if isRegion n = true then [n.range] else []).count r := by
  rcases control_ok h with ⟨hregion, rfl, rfl⟩ | ⟨hregion, -, rfl, rfl⟩
  · rw [hregion, if_neg Bool.false_ne_true]; exact ⟨rfl, rfl⟩
  · rw [hregion, if_pos rfl]
    refine ⟨rfl, ?_⟩
    simp only [ParserState.ranges, List.map_append, List.map_cons, List.map_nil,
      List.count_append]
    show _ + (_ + List.count r [n.range] + _) = _
    omega

theorem call_ranges (h : c.call n p s = .ok s') (r : Range) :
    s'.ranges.count r = s.ranges.count r +
      (if isCall c.file.language n = true then [n.range] else []).count r := by
  rcases call_ok h with ⟨hcall, rfl⟩ | ⟨hcall, -, rfl⟩
  · rw [hcall, if_neg Bool.false_ne_true]; rfl
  · rw [hcall, if_pos rfl]
    simp only [ParserState.ranges, List.map_append, List.map_cons, List.map_nil,
      List.count_append]
    show _ + (_ + (_ + List.count r [n.range])) = _
    omega

theorem skip_ranges (r : Range) (h : isOpaque c.file.language n = true) :
    ({ s.visited with opaqueRust := true } : ParserState).ranges.count r =
      s.ranges.count r + (measured c.file n p.up).count r := by
  rw [measured_of_hidden h]
  rfl

theorem visit_ranges {p₁ p₂ : Place} {s₁ s₂ s₃ : ParserState} (r : Range)
    (hhidden : isOpaque c.file.language n = false)
    (hdeclare : c.declare n p s.visited = .ok (p₁, s₁))
    (hcontrol : c.control n p₁ s₁ = .ok (p₂, s₂)) (hcall : c.call n p₂ s₂ = .ok s₃)
    (hchildren : s'.ranges.count r =
      s₃.ranges.count r + (measuredAll c.file n.children (n.kind :: p₂.up)).count r) :
    s'.ranges.count r = s.ranges.count r + (measured c.file n p.up).count r := by
  obtain ⟨hup, hdeclared⟩ := declare_ranges hdeclare r
  obtain ⟨hup', hcontrolled⟩ := control_ranges hcontrol r
  rw [hup', hup] at hchildren
  rw [measured_of_visit hhidden, hchildren, call_ranges hcall r, hcontrolled, hdeclared,
    List.count_append, List.count_append, List.count_append, ← Nat.add_assoc, ← Nat.add_assoc,
    ← Nat.add_assoc]

theorem rule_ranges (c : Context) (r : Range) :
    c.Rule
      (fun n p s s' => s'.ranges.count r = s.ranges.count r + (measured c.file n p.up).count r)
      fun ns p s s' =>
        s'.ranges.count r = s.ranges.count r + (measuredAll c.file ns p.up).count r where
  skip _ _ _ h := skip_ranges r h
  visit _ _ _ _ _ _ _ _ _ hhidden hdeclare hcontrol hcall hchildren :=
    visit_ranges r hhidden hdeclare hcontrol hcall hchildren
  nil p s := by
    rw [measuredAll]
    rfl
  pass n rest p s s' hnamed h := by
    rw [h, measuredAll, hnamed, if_neg Bool.false_ne_true, List.nil_append]
  cons n rest p s s₁ s' hnamed hnode hrest := by
    rw [hrest, hnode, measuredAll, hnamed, if_pos rfl, List.count_append, Nat.add_assoc]

/-- **A walk records what is measured, and nothing else.** -/
theorem walk_ranges (h : c.walk n p s = .ok s') :
    s'.ranges.Perm (s.ranges ++ measured c.file n p.up) := by
  rw [List.perm_iff_count]
  intro r
  rw [List.count_append]
  exact (rule_ranges c r).walk n p s s' h

end Context

end Baleyg.Native
