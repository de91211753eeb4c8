/-
Measuring a document again.

What is measured of a document depends on its bytes alone, but for two things: every record
carries the revision and the proof of its measurement, and the registry that was there before
can refuse an identity.  So a measurement that returned once returns again under any other
revision and registry, with the same facts bound to that revision, unless the registry
refuses; and it cannot refuse where some registry knows both what it holds and the identities
of these facts.
-/
import Baleyg.Native.Capture
import Baleyg.Native.Measured

namespace Baleyg.Native

open Fallible (ensure bind_eq_ok ensure_eq_ok mapM_eq_ok)

/-! ### A computation with another registry -/

/-- **A computation that runs again**: it makes what it should, and keeps within any registry
that has what is needed, or it fails and no registry has that. -/
def Replayed {β : Type} (ids : IdentityRegistry) (known : IdentityRegistry → Prop)
    (result : Except String β) (made : IdentityRegistry → β) : Prop :=
  (∃ ids', result = .ok (made ids') ∧ ∀ k, ids.Within k → known k → ids'.Within k) ∨
    (∃ e, result = .error e) ∧ ∀ k, ids.Within k → ¬ known k

namespace Replayed

variable {α β : Type} {ids k : IdentityRegistry} {known known₁ : IdentityRegistry → Prop}
  {x : Except String α} {f : α → Except String β} {made₁ : IdentityRegistry → α}
  {made : IdentityRegistry → β}

theorem pure : Replayed ids known (pure (made ids)) made := .inl ⟨ids, rfl, fun _ h _ => h⟩

theorem bind (hx : Replayed ids known₁ x made₁) (h₁ : ∀ k, known k → known₁ k)
    (hf : ∀ ids', Replayed ids' known (f (made₁ ids')) made) : Replayed ids known (x >>= f) made := by
  rcases hx with ⟨ids₁, rfl, hwithin⟩ | ⟨⟨e, rfl⟩, hnone⟩
  · rcases hf ids₁ with ⟨ids', hresult, hwithin'⟩ | ⟨herror, hnone⟩
    · exact .inl ⟨ids', hresult, fun k hk hknown =>
        hwithin' k (hwithin k hk (h₁ k hknown)) hknown⟩
    · exact .inr ⟨herror, fun k hk hknown => hnone k (hwithin k hk (h₁ k hknown)) hknown⟩
  · exact .inr ⟨⟨e, rfl⟩, fun k hk hknown => hnone k hk (h₁ k hknown)⟩

theorem after {a : α} (hx : x = .ok a) (hf : Replayed ids known (f a) made) :
    Replayed ids known (x >>= f) made := by
  subst hx
  exact hf

theorem mono (hx : Replayed ids known₁ x made₁) (h : ∀ k, known k → known₁ k) :
    Replayed ids known x made₁ := by
  rcases hx with ⟨ids', hresult, hwithin⟩ | ⟨herror, hnone⟩
  · exact .inl ⟨ids', hresult, fun k hk hknown => hwithin k hk (h k hknown)⟩
  · exact .inr ⟨herror, fun k hk hknown => hnone k hk (h k hknown)⟩

theorem returns (hx : Replayed ids known x made₁) (hk : ids.Within k) (hknown : known k) :
    ∃ ids', x = .ok (made₁ ids') := by
  rcases hx with ⟨ids', hresult, -⟩ | ⟨-, hnone⟩
  · exact ⟨ids', hresult⟩
  · exact absurd hknown (hnone k hk)

theorem of_ok {a : α} (hx : Replayed ids known x made₁) (h : x = .ok a) : ∃ ids', a = made₁ ids' := by
  rcases hx with ⟨ids', hresult, -⟩ | ⟨⟨e, herror⟩, -⟩
  · rw [h] at hresult; exact ⟨ids', Except.ok.inj hresult⟩
  · rw [h] at herror; cases herror

end Replayed

section Identities

variable {sha : Sha256} (ids : IdentityRegistry)

theorem stable_replayed {input : StableInput} (hvalid : input.validate = .ok ()) :
    Replayed ids (fun k => k.Knows (stableId sha input) (registered sha "trellis.syntax.v1\x00" input.json))
      (ids.stable sha input) fun ids' => (stableId sha input, ids') := by
  cases hresult : ids.stable sha input with
  | ok out =>
      obtain ⟨id, ids'⟩ := out
      obtain ⟨rfl, -, -⟩ := IdentityRegistry.stable_ok hresult
      refine .inl ⟨ids', rfl, fun k hk hknows => ?_⟩
      obtain ⟨r', hsame, hwithin⟩ := IdentityRegistry.stable_within hk ⟨hvalid, hknows⟩
      rw [hresult] at hsame
      cases hsame
      exact hwithin
  | error e =>
      refine .inr ⟨⟨e, rfl⟩, fun k hk hknows => ?_⟩
      obtain ⟨r', hsame, -⟩ := IdentityRegistry.stable_within hk ⟨hvalid, hknows⟩
      rw [hresult] at hsame
      cases hsame

theorem occurrence_replayed {input : OccurrenceInput} (hvalid : input.validate = .ok ()) :
    Replayed ids (fun k => k.Knows (occurrenceId sha input)
        (registered sha "trellis.occurrence.v2\x00" input.json))
      (ids.occurrence sha input) fun ids' => (occurrenceId sha input, ids') := by
  cases hresult : ids.occurrence sha input with
  | ok out =>
      obtain ⟨id, ids'⟩ := out
      obtain ⟨rfl, -, -⟩ := IdentityRegistry.occurrence_ok hresult
      refine .inl ⟨ids', rfl, fun k hk hknows => ?_⟩
      obtain ⟨r', hsame, hwithin⟩ := IdentityRegistry.occurrence_within hk ⟨hvalid, hknows⟩
      rw [hresult] at hsame
      cases hsame
      exact hwithin
  | error e =>
      refine .inr ⟨⟨e, rfl⟩, fun k hk hknows => ?_⟩
      obtain ⟨r', hsame, -⟩ := IdentityRegistry.occurrence_within hk ⟨hvalid, hknows⟩
      rw [hresult] at hsame
      cases hsame

end Identities

/-! ### Another revision -/

section Rebind

variable (revision proof : String)

def Context.rebind (c : Context) : Context := { c with revisionId := revision, proofId := proof }

/-- The state of a walk in another revision, with another registry. -/
def ParserState.rebind (s : ParserState) (ids : IdentityRegistry) : ParserState :=
  { s with
    declarations := s.declarations.map (Declaration.rebind revision proof)
    calls := s.calls.map (Call.rebind revision proof)
    controlRegions := s.controlRegions.map (ControlRegion.rebind revision proof)
    ids := ids }

end Rebind

namespace Context

variable {c : Context} {revision proof : String} {n : Node} {p p' : Place} {s s' : ParserState}

/-- A registry knows the identities of all that was declared. -/
def DeclarationsKnown (c : Context) (ds : List Declaration) (k : IdentityRegistry) : Prop :=
  ∀ d ∈ ds, IdentityRegistry.HasStable c.libs.sha k (c.stableInput d.ancestors d.key)

theorem DeclarationsKnown.mono {ds ds' : List Declaration} {k : IdentityRegistry}
    (h : c.DeclarationsKnown ds' k) (hds : ds ⊆ ds') : c.DeclarationsKnown ds k :=
  fun d hd => h d (hds hd)

/-! ### The walk -/

theorem declare_replayed (h : c.declare n p s = .ok (p', s')) (ids : IdentityRegistry) :
    Replayed ids (c.DeclarationsKnown s'.declarations)
      ((c.rebind revision proof).declare n p (s.rebind revision proof ids))
      fun ids' => (p', s'.rebind revision proof ids') := by
  unfold declare at h ⊢
  have hsame : declares (c.rebind revision proof).file p.up n = declares c.file p.up n := rfl
  rw [hsame]
  cases hk : declares c.file p.up n with
  | none =>
      simp only [hk] at h
      cases h
      exact .inl ⟨ids, rfl, fun _ h _ => h⟩
  | some k =>
      simp only [hk] at h
      obtain ⟨⟨id, ids₁⟩, hstable, h⟩ := bind_eq_ok.mp h
      obtain ⟨lookupKey, hlookup, h⟩ := bind_eq_ok.mp h
      cases h
      obtain ⟨rfl, -, hknown⟩ := IdentityRegistry.stable_ok hstable
      refine (stable_replayed ids hknown.valid).bind (fun k hall => ?_) fun ids' => ?_
      · exact (hall _ (List.mem_append_right _ List.mem_cons_self)).knows
      · have hlookup' : (c.rebind revision proof).lookupKeyOf n = .ok lookupKey := hlookup
        refine .after hlookup' (.inl ⟨ids', ?_, fun _ h _ => h⟩)
        unfold ParserState.rebind
        simp only [List.map_append]
        rfl

theorem control_replayed (h : c.control n p s = .ok (p', s')) (ids : IdentityRegistry) :
    (c.rebind revision proof).control n p (s.rebind revision proof ids) =
      .ok (p', s'.rebind revision proof ids) := by
  unfold control at h ⊢
  by_cases hregion : isRegion n = true
  · rw [if_pos hregion] at h ⊢
    obtain ⟨_, hseen, h⟩ := bind_eq_ok.mp h
    cases h
    refine bind_eq_ok.mpr ⟨(), hseen, ?_⟩
    unfold ParserState.rebind
    simp only [List.map_append]
    rfl
  · rw [if_neg hregion] at h ⊢
    cases h
    rfl

theorem call_replayed (h : c.call n p s = .ok s') (ids : IdentityRegistry) :
    (c.rebind revision proof).call n p (s.rebind revision proof ids) =
      .ok (s'.rebind revision proof ids) := by
  unfold call at h ⊢
  have hsame : isCall (c.rebind revision proof).file.language n = isCall c.file.language n := rfl
  rw [hsame]
  by_cases hcall : isCall c.file.language n = true
  · rw [if_pos hcall] at h ⊢
    obtain ⟨_, hseen, h⟩ := bind_eq_ok.mp h
    cases h
    refine bind_eq_ok.mpr ⟨(), hseen, ?_⟩
    unfold ParserState.rebind
    simp only [List.map_append]
    rfl
  · rw [if_neg hcall] at h ⊢
    cases h
    rfl

mutual

/-- **A walk that returned can be walked again.** -/
theorem walk_replayed (revision proof : String) : ∀ (n : Node) (p : Place) (s s' : ParserState),
    c.walk n p s = .ok s' → ∀ ids, Replayed ids (c.DeclarationsKnown s'.declarations)
      ((c.rebind revision proof).walk n p (s.rebind revision proof ids))
      (s'.rebind revision proof)
  | ⟨kind, named, field, range, children⟩, p, s, s', h, ids => by
      rw [Context.walk] at h ⊢
      obtain ⟨_, hbudget, h⟩ := bind_eq_ok.mp h
      have hbudget' : (ensure (p.depth < 128 ∧ (s.rebind revision proof ids).visits < 1000000)
          "native extraction work budget exceeded" : Except String Unit) = .ok () := hbudget
      rw [hbudget']
      by_cases hhidden : isOpaque c.file.language ⟨kind, named, field, range, children⟩ = true
      · rw [if_pos hhidden] at h
        cases h
        have hhidden' : isOpaque (c.rebind revision proof).file.language
            ⟨kind, named, field, range, children⟩ = true := hhidden
        show Replayed ids _ (if isOpaque (c.rebind revision proof).file.language
          ⟨kind, named, field, range, children⟩ = true then _ else _) _
        rw [if_pos hhidden']
        exact .inl ⟨ids, rfl, fun _ h _ => h⟩
      · rw [if_neg hhidden] at h
        obtain ⟨⟨p₁, s₁⟩, hdeclare, h⟩ := bind_eq_ok.mp h
        obtain ⟨⟨p₂, s₂⟩, hcontrol, h⟩ := bind_eq_ok.mp h
        obtain ⟨s₃, hcall, h⟩ := bind_eq_ok.mp h
        have hhidden' : ¬ isOpaque (c.rebind revision proof).file.language
            ⟨kind, named, field, range, children⟩ = true := hhidden
        show Replayed ids _ (if isOpaque (c.rebind revision proof).file.language
          ⟨kind, named, field, range, children⟩ = true then _ else _) _
        rw [if_neg hhidden']
        have hkept : s₁.declarations ⊆ s'.declarations := by
          have hcontrols := (control_adds hcontrol).declarations
          have hcalls := (call_adds hcall).declarations
          have hrest := ((rule_adds c).walkAll _ _ _ _ h).declarations
          exact ((hcontrols.trans hcalls).trans hrest).subset
        refine (declare_replayed hdeclare ids).bind (fun k hall => hall.mono hkept) fun ids₁ => ?_
        refine .after (control_replayed hcontrol ids₁) (.after (call_replayed hcall ids₁) ?_)
        exact walkAll_replayed revision proof children _ s₃ s' h ids₁

theorem walkAll_replayed (revision proof : String) : ∀ (ns : List Node) (p : Place)
    (s s' : ParserState), c.walkAll ns p s = .ok s' → ∀ ids,
      Replayed ids (c.DeclarationsKnown s'.declarations)
        ((c.rebind revision proof).walkAll ns p (s.rebind revision proof ids))
        (s'.rebind revision proof)
  | [], p, s, s', h, ids => by
      rw [Context.walkAll] at h ⊢
      cases h
      exact .pure
  | n :: rest, p, s, s', h, ids => by
      rw [Context.walkAll] at h ⊢
      by_cases hnamed : n.named = true
      · rw [if_pos hnamed] at h ⊢
        obtain ⟨s₁, hwalk, h⟩ := bind_eq_ok.mp h
        refine (walk_replayed revision proof n p s s₁ hwalk ids).bind (fun k hall => hall.mono ?_)
          fun ids₁ => walkAll_replayed revision proof rest p s₁ s' h ids₁
        exact ((rule_adds c).walkAll _ _ _ _ h).declarations.subset
      · rw [if_neg hnamed] at h ⊢
        exact walkAll_replayed revision proof rest p s s' h ids

end

/-! ### The numbering -/

end Context

section Rows

variable {α : Type} {f : α → α} {owner : α → String} {range : α → Range}

def onRow (f : α → α) (row : α × Nat) : α × Nat := (f row.1, row.2)

theorem zipIdx_map (f : α → α) (rows : List α) : (rows.map f).zipIdx = rows.zipIdx.map (onRow f) := by
  rw [List.zipIdx_map]
  rfl

theorem byOwner_map (howner : ∀ row, owner (f row) = owner row)
    (hrange : ∀ row, range (f row) = range row) (rows : List α) :
    byOwner owner range (rows.map f) =
      (byOwner owner range rows).map fun e => (onRow f e.1, e.2) := by
  have hkeys : Groups.keys owner (fun a b => a ≤ b) (rows.map f) =
      Groups.keys owner (fun a b => a ≤ b) rows := by
    unfold Groups.keys
    rw [List.map_map]
    congr 2
    exact List.map_congr_left fun row _ => howner row
  unfold byOwner
  rw [hkeys, List.map_flatMap]
  refine List.flatMap_congr fun o _ => ?_
  have hgroup : Groups.group (fun row : α × Nat => owner row.1)
      (fun a b => (range a.1).le (range b.1)) (rows.zipIdx.map (onRow f)) o =
        (Groups.group (fun row : α × Nat => owner row.1)
          (fun a b => (range a.1).le (range b.1)) rows.zipIdx o).map (onRow f) := by
    refine Groups.group_map (fun row _ => howner row.1) fun a _ b _ => ?_
    show _ = (range (f a.1)).le (range (f b.1))
    rw [hrange, hrange]
  rw [zipIdx_map, hgroup, List.zipIdx_map]
  rfl

theorem writeBack_map (rows : List α) (out : List ((α × Nat) × α)) :
    writeBack (rows.map f) (out.map fun e => (onRow f e.1, f e.2)) = (writeBack rows out).map f := by
  unfold writeBack
  rw [zipIdx_map, List.map_map, List.map_map, List.map_map]
  refine List.map_congr_left fun row _ => ?_
  have hlookup : ((out.map ((fun entry : (α × Nat) × α => (entry.1.2, entry.2)) ∘ fun e =>
      (onRow f e.1, f e.2))).lookup row.2) =
        ((out.map fun entry => (entry.1.2, entry.2)).lookup row.2).map f := by
    induction out with
    | nil => rfl
    | cons e out ih =>
        rw [List.map_cons, List.map_cons, List.lookup_cons, List.lookup_cons]
        show (match row.2 == e.1.2 with | true => some (f e.2) | false => _) = _
        cases row.2 == e.1.2 with
        | true => rfl
        | false => exact ih
  show ((out.map _).lookup row.2).getD (f row.1) = f (((out.map _).lookup row.2).getD row.1)
  rw [hlookup]
  cases (out.map fun entry => (entry.1.2, entry.2)).lookup row.2 <;> rfl

end Rows

namespace Context

variable {c : Context} {revision proof : String} {s s' : ParserState}

/-- A registry knows the identities of rows with their numbers. -/
def RowsKnown {α : Type} (c : Context) (kind : OccurrenceKind) (owner : α → String)
    (todo : List ((α × Nat) × Nat)) (k : IdentityRegistry) : Prop :=
  ∀ e ∈ todo, IdentityRegistry.HasOccurrence c.libs.sha k
    (c.occurrenceInput (owner e.1.1) kind e.2)

theorem numberRows_replayed {α : Type} {kind : OccurrenceKind} {owner : α → String} {f : α → α}
    {set : α → Nat → String → Except String α} (howner : ∀ row, owner (f row) = owner row)
    (hset : ∀ row ordinal id out, set row ordinal id = .ok out → set (f row) ordinal id = .ok (f out))
    {todo : List ((α × Nat) × Nat)} {out : List ((α × Nat) × α)} {ids₀ ids₁ : IdentityRegistry}
    (h : c.numberRows kind owner set todo ids₀ = .ok (out, ids₁)) (ids : IdentityRegistry) :
    Replayed ids (c.RowsKnown kind owner todo)
      ((c.rebind revision proof).numberRows kind owner set
        (todo.map fun e => (onRow f e.1, e.2)) ids)
      fun ids' => (out.map fun e => (onRow f e.1, f e.2), ids') := by
  induction todo generalizing ids₀ out ids with
  | nil => cases h; exact .pure
  | cons e todo ih =>
      obtain ⟨row, ordinal⟩ := e
      obtain ⟨⟨id, ids₂⟩, hid, h⟩ := bind_eq_ok.mp h
      obtain ⟨numbered, hnumbered, h⟩ := bind_eq_ok.mp h
      obtain ⟨⟨rest, ids₃⟩, hrest, h⟩ := bind_eq_ok.mp h
      cases h
      obtain ⟨rfl, -, hknown⟩ := IdentityRegistry.occurrence_ok hid
      have hinput : (c.rebind revision proof).occurrenceInput (owner (f row.1)) kind ordinal =
          c.occurrenceInput (owner row.1) kind ordinal := by
        rw [howner]
        rfl
      rw [List.map_cons]
      show Replayed ids _ (IdentityRegistry.occurrence c.libs.sha ids
        ((c.rebind revision proof).occurrenceInput (owner (f row.1)) kind ordinal) >>= _) _
      rw [hinput]
      refine (occurrence_replayed ids hknown.valid).bind
        (fun k hall => (hall _ List.mem_cons_self).knows) fun ids' => ?_
      refine .after (hset _ _ _ _ hnumbered) ((ih hrest ids').bind
        (fun k hall e he => hall e (List.mem_cons_of_mem _ he)) fun ids₄ => ?_)
      exact .inl ⟨ids₄, rfl, fun _ h _ => h⟩

theorem mapM_map_ok {α : Type} {f : α → α} {g : α → Except String α} {rows out : List α}
    (h : rows.mapM g = .ok out) (hg : ∀ row made, g row = .ok made → g (f row) = .ok (f made)) :
    (rows.map f).mapM g = .ok (out.map f) := by
  rw [mapM_eq_ok, List.forall₂_map_left_iff, List.forall₂_map_right_iff]
  exact (mapM_eq_ok.mp h).imp hg

/-- A registry knows the identities of what is numbered after a walk. -/
def OccurrencesKnown (c : Context) (s : ParserState) (k : IdentityRegistry) : Prop :=
  c.RowsKnown .control ControlRegion.ownerSyntaxId
      (byOwner ControlRegion.ownerSyntaxId ControlRegion.range s.controlRegions) k ∧
    c.RowsKnown .call Call.ownerSyntaxId (byOwner Call.ownerSyntaxId Call.range s.calls) k

/-- **A numbering that returned returns again.** -/
theorem finish_replayed (h : c.finishOccurrences s = .ok s') (ids : IdentityRegistry) :
    Replayed ids (c.OccurrencesKnown s)
      ((c.rebind revision proof).finishOccurrences (s.rebind revision proof ids))
      (s'.rebind revision proof) := by
  obtain ⟨_, hforeign, h⟩ := bind_eq_ok.mp h
  obtain ⟨⟨controls, ids₁⟩, hcontrols, h⟩ := bind_eq_ok.mp h
  obtain ⟨regions, hparents, h⟩ := bind_eq_ok.mp h
  obtain ⟨_, hforeign', h⟩ := bind_eq_ok.mp h
  obtain ⟨⟨calls, ids₂⟩, hcalls, h⟩ := bind_eq_ok.mp h
  cases h
  have hrows : byOwner ControlRegion.ownerSyntaxId ControlRegion.range
      (s.rebind revision proof ids).controlRegions = _ :=
    byOwner_map (f := ControlRegion.rebind revision proof) (fun _ => rfl) (fun _ => rfl)
      s.controlRegions
  have hrows' : byOwner Call.ownerSyntaxId Call.range (s.rebind revision proof ids).calls = _ :=
    byOwner_map (f := Call.rebind revision proof) (fun _ => rfl) (fun _ => rfl) s.calls
  have hreplaced : replacements (controls.map fun e =>
      (onRow (ControlRegion.rebind revision proof) e.1, ControlRegion.rebind revision proof e.2)) =
        replacements controls := by
    unfold replacements
    rw [List.map_map]
    rfl
  unfold finishOccurrences
  rw [hrows, hrows']
  refine .after (a := ()) (ensure_eq_ok.mpr fun region hregion => ?_) ?_
  · obtain ⟨region, hold, rfl⟩ := List.mem_map.mp hregion
    exact ensure_eq_ok.mp hforeign region hold
  refine (numberRows_replayed (f := ControlRegion.rebind revision proof) (fun _ => rfl)
    (fun row ordinal id out hset => ?_) hcontrols ids).bind (fun _ hall => hall.1) fun ids₃ => ?_
  · cases hset; rfl
  simp only [hreplaced]
  refine .after (a := regions.map (ControlRegion.rebind revision proof)) ?_ ?_
  · have hwritten := writeBack_map (f := ControlRegion.rebind revision proof) s.controlRegions controls
    rw [show (s.rebind revision proof ids).controlRegions =
      s.controlRegions.map (ControlRegion.rebind revision proof) from rfl, hwritten]
    refine mapM_map_ok hparents fun row made hmade => ?_
    cases hid : row.parentId with
    | none =>
        have hid' : (row.rebind revision proof).parentId = none := hid
        simp only [hid, hid'] at hmade ⊢
        cases hmade
        rfl
    | some parent =>
        have hid' : (row.rebind revision proof).parentId = some parent := hid
        simp only [hid, hid'] at hmade ⊢
        obtain ⟨new, hnew, hmade⟩ := bind_eq_ok.mp hmade
        cases hmade
        exact bind_eq_ok.mpr ⟨new, hnew, rfl⟩
  refine .after (a := ()) (ensure_eq_ok.mpr fun call hcall => ?_) ?_
  · obtain ⟨call, hold, rfl⟩ := List.mem_map.mp hcall
    exact ensure_eq_ok.mp hforeign' call hold
  refine (numberRows_replayed (f := Call.rebind revision proof) (fun _ => rfl)
    (fun row ordinal id out hset => ?_) hcalls ids₃).bind (fun _ hall => hall.2) fun ids₄ => ?_
  · obtain ⟨regionIds, hregions, hset⟩ := bind_eq_ok.mp hset
    cases hset
    exact bind_eq_ok.mpr ⟨regionIds, hregions, rfl⟩
  refine .inl ⟨ids₄, ?_, fun _ h _ => h⟩
  have hwritten := writeBack_map (f := Call.rebind revision proof) s.calls calls
  rw [show (s.rebind revision proof ids).calls = s.calls.map (Call.rebind revision proof) from rfl,
    hwritten]
  rfl

/-- A registry knows the identities of all facts of a document. -/
structure FactsKnown (c : Context) (facts : DocumentFacts) (k : IdentityRegistry) : Prop where
  declarations : c.DeclarationsKnown facts.declarations k
  controlRegions : ∀ r ∈ facts.controlRegions, IdentityRegistry.HasOccurrence c.libs.sha k
    (c.occurrenceInput r.ownerSyntaxId .control r.ordinal)
  calls : ∀ call ∈ facts.calls, IdentityRegistry.HasOccurrence c.libs.sha k
    (c.occurrenceInput call.ownerSyntaxId .call call.ordinal)

theorem occurrencesKnown_of_finished {replaced : List (String × String)}
    (hf : Finished c s s' replaced) {facts : DocumentFacts} {k : IdentityRegistry}
    (hcontrols : facts.controlRegions = s'.controlRegions) (hcalls : facts.calls = s'.calls)
    (hknown : c.FactsKnown facts k) : c.OccurrencesKnown s k := by
  constructor
  · rintro ⟨row, ordinal⟩ he
    obtain ⟨hrow, rfl⟩ := mem_byOwner.mp he
    have hmem : c.finishedRegion s.controlRegions replaced row ∈ facts.controlRegions := by
      rw [hcontrols, hf.controlRegions]
      exact List.mem_map_of_mem hrow
    exact hknown.controlRegions _ hmem
  · rintro ⟨row, ordinal⟩ he
    obtain ⟨hrow, rfl⟩ := mem_byOwner.mp he
    have hmem : c.finishedCall s.calls replaced row ∈ facts.calls := by
      rw [hcalls, hf.calls]
      exact List.mem_map_of_mem hrow
    exact hknown.calls _ hmem

end Context

/-! ### A document -/

/-- **A document that was measured can be measured for another revision.** -/
theorem measureDocument_replayed {libs : Libraries} {h : Artifact} {f : SourceFile}
    {document : Document} {facts : DocumentFacts} {ids₀ ids₁ : IdentityRegistry}
    (hmeasured : measureDocument libs h.producer h.sourceSet h.revision f document ids₀ =
      .ok (facts, ids₁)) (revision : Revision) (document' : Document)
    (hdocument : document'.key = document.key ∧ document'.contentHash = document.contentHash ∧
      document'.byteLength = document.byteLength) (ids : IdentityRegistry) :
    Replayed ids ((contextOf libs h f).FactsKnown facts)
      (measureDocument libs h.producer h.sourceSet revision f document' ids)
      fun ids' => (facts.rebind revision.id
        (proofId libs.sha ⟨h.sourceSet.id, f.language, f.path⟩ revision.id), ids') := by
  unfold measureDocument at hmeasured ⊢
  obtain ⟨_, hpath, hmeasured⟩ := bind_eq_ok.mp hmeasured
  obtain ⟨_, hhash, hmeasured⟩ := bind_eq_ok.mp hmeasured
  obtain ⟨_, hcaptured, hmeasured⟩ := bind_eq_ok.mp hmeasured
  obtain ⟨context, hcontext, hmeasured⟩ := bind_eq_ok.mp hmeasured
  rw [hdocument.1, hdocument.2.1, hdocument.2.2]
  refine .after hpath (.after hhash (.after hcaptured (.after hcontext ?_)))
  obtain ⟨_, -, hcontext⟩ := bind_eq_ok.mp hcontext
  cases hcontext
  cases htree : libs.parse f.language f.text with
  | none => rw [htree] at hmeasured; cases hmeasured
  | some tree =>
      rw [htree] at hmeasured
      obtain ⟨⟨id, ids₂⟩, hstable, hmeasured⟩ := bind_eq_ok.mp hmeasured
      obtain ⟨s, hwalk, hmeasured⟩ := bind_eq_ok.mp hmeasured
      obtain ⟨s', hfinish, hmeasured⟩ := bind_eq_ok.mp hmeasured
      cases hmeasured
      obtain ⟨rfl, -, hknown⟩ := IdentityRegistry.stable_ok hstable
      obtain ⟨replaced, hf⟩ := finish_ok hfinish
      have hadds : [_] <+: s.declarations := (Context.walk_adds hwalk).declarations
      have hwalk' := Context.walk_replayed (c := contextOf libs h f) revision.id
        (proofId libs.sha ⟨h.sourceSet.id, f.language, f.path⟩ revision.id) tree.root _ _ s hwalk
      refine (stable_replayed ids hknown.valid).bind (fun k hall => ?_) fun ids₃ =>
        (hwalk' ids₃).bind (fun k hall => ?_) fun ids₄ =>
          (Context.finish_replayed hfinish ids₄).bind (fun k hall => ?_) fun ids₅ =>
            .inl ⟨ids₅, rfl, fun _ h _ => h⟩
      · refine (hall.declarations ((contextOf libs h f).moduleAt tree.root.range) ?_).knows
        show _ ∈ s'.declarations
        rw [hf.declarations]
        exact hadds.subset List.mem_cons_self
      · have hsame : s'.declarations = s.declarations := hf.declarations
        exact hsame ▸ hall.declarations
      · exact Context.occurrencesKnown_of_finished hf rfl rfl hall

end Baleyg.Native
