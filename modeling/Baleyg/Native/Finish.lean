/-
What the numbering after a walk makes of its rows.

Every row gets its place among the rows of its owner for an ordinal, and the occurrence
identity of its owner and that place.  Nothing else of it changes, except that a pending id
of a region becomes the identity this region got: pending ids are told apart by owner and
range, and the walk made sure that no owner has a region of one range twice.
-/
import Baleyg.Lib.Lookup
import Baleyg.Native.Recorded
import Mathlib.Data.List.Sigma

namespace Baleyg.Native

open Fallible (ensure bind_eq_ok ensure_eq_ok mapM_eq_ok)

/-! ### Pending ids -/

theorem utf8Size_of_isLowerHex {c : Char} (h : isLowerHex c = true) : c.utf8Size = 1 := by
  have hle : c.val ≤ 0x7f := by
    unfold isLowerHex at h
    rw [Bool.or_eq_true, Bool.and_eq_true, Bool.and_eq_true, decide_eq_true_iff,
      decide_eq_true_iff, decide_eq_true_iff, decide_eq_true_iff] at h
    rcases h with ⟨-, h⟩ | ⟨-, h⟩
    · exact UInt32.le_trans h (by decide)
    · exact UInt32.le_trans h (by decide)
  unfold Char.utf8Size
  exact if_pos hle

theorem length_of_validHash {s : String} (h : validHash s = true) : s.toList.length = 64 := by
  unfold validHash at h
  rw [Bool.and_eq_true, beq_iff_eq, List.all_eq_true] at h
  rw [← h.1, byteLength]
  have hone : s.toList.map Char.utf8Size = s.toList.map fun _ => 1 :=
    List.map_congr_left fun c hc => utf8Size_of_isLowerHex (h.2 c hc)
  rw [hone, List.map_const', List.sum_replicate_nat, Nat.mul_one]

theorem stableId_length (sha : Sha256) (input : StableInput) :
    (stableId sha input).toList.length = 39 := by
  have hdigest := length_of_validHash
    (sha.digest_valid "trellis.syntax.v1\x00" input.json.canonical)
  have hcut : (String.ofList ((sha.digest "trellis.syntax.v1\x00" input.json.canonical).toList.take
      32)).toList.length = 32 := by
    rw [String.toList_ofList, List.length_take, hdigest]
    rfl
  unfold stableId handleOf
  rw [String.toList_append, List.length_append, hcut]
  rfl

theorem colon_inj {a b a' b' : Nat} (h : (toString a).toList ++ ':' :: (toString b).toList =
    (toString a').toList ++ ':' :: (toString b').toList) : a = a' ∧ b = b' := by
  have hdigits : ∀ n : Nat, (toString n).toList = Nat.toDigits 10 n := fun n => by
    rw [Nat.toString_eq_ofList_toDigits, String.toList_ofList]
  simp only [hdigits] at h
  have hstops : ∀ cs, Value.Stops (':' :: cs) := fun cs d hd => by
    cases hd
    rfl
  have hend : Value.Stops [] := fun d hd => by cases hd
  obtain ⟨hfirst, hrest⟩ := Value.toDigits_inj (hstops _) (hstops _) h
  have hlast : Nat.toDigits 10 b ++ [] = Nat.toDigits 10 b' ++ [] := by
    rw [List.append_nil, List.append_nil]
    exact List.tail_eq_of_cons_eq hrest
  exact ⟨hfirst, (Value.toDigits_inj hend hend hlast).1⟩

/-- **A pending id says whose region it is and where.** -/
theorem Context.pendingId_inj {c : Context} {owner owner' : String} {r r' : Range}
    (hlength : owner.toList.length = owner'.toList.length)
    (h : c.pendingId owner r = c.pendingId owner' r') : owner = owner' ∧ r = r' := by
  have hlist := congrArg String.toList h
  unfold Context.pendingId at hlist
  simp only [String.toList_append, List.append_assoc] at hlist
  have htail := List.append_cancel_left (List.append_cancel_left (List.append_cancel_left hlist))
  obtain ⟨howner, hranges⟩ := List.append_inj htail hlength
  obtain ⟨hstart, hstop⟩ := colon_inj (List.tail_eq_of_cons_eq hranges)
  refine ⟨String.toList_inj.mp howner, ?_⟩
  cases r
  cases r'
  simp only at hstart hstop
  rw [hstart, hstop]

/-! ### The loop that numbers -/

section Number

variable {α : Type} {owner : α → String} {range : α → Range}

/-- The place of a row, with its index, among the rows of its owner. -/
def rank [DecidableEq α] (owner : α → String) (range : α → Range) (rows : List α)
    (row : α × Nat) : Nat :=
  Groups.place (fun r : α × Nat => owner r.1) (fun a b => (range a.1).le (range b.1))
    rows.zipIdx row

theorem nodup_zipIdx (rows : List α) : rows.zipIdx.Nodup :=
  List.Nodup.of_map Prod.snd (List.nodup_zipIdx_map_snd rows)

theorem eq_of_mem_zipIdx {rows : List α} {a b : α × Nat} (ha : a ∈ rows.zipIdx)
    (hb : b ∈ rows.zipIdx) (h : a.2 = b.2) : a = b :=
  List.inj_on_of_nodup_map (List.nodup_zipIdx_map_snd rows) ha hb h

theorem exists_index {rows : List α} {row : α} (h : row ∈ rows) : ∃ i, (row, i) ∈ rows.zipIdx := by
  rw [← List.zipIdx_map_fst 0 rows] at h
  obtain ⟨entry, hentry, rfl⟩ := List.mem_map.mp h
  exact ⟨entry.2, hentry⟩

/-- What the loop makes of a row with its index. -/
structure Numbers [DecidableEq α] (c : Context) (kind : OccurrenceKind) (owner : α → String)
    (range : α → Range) (set : α → Nat → String → Except String α) (rows : List α)
    (ids : IdentityRegistry) (row : α × Nat) (numbered : α) : Prop where
  mem : row ∈ rows.zipIdx
  made : set row.1 (rank owner range rows row) (occurrenceId c.libs.sha
    (c.occurrenceInput (owner row.1) kind (rank owner range rows row))) = .ok numbered
  known : IdentityRegistry.HasOccurrence c.libs.sha ids
    (c.occurrenceInput (owner row.1) kind (rank owner range rows row))

variable {c : Context} {kind : OccurrenceKind} {set : α → Nat → String → Except String α}
  {ids ids' : IdentityRegistry}

theorem numberRows_ok {todo : List ((α × Nat) × Nat)} {out : List ((α × Nat) × α)}
    (h : c.numberRows kind owner set todo ids = .ok (out, ids')) :
    ids.Within ids' ∧ List.Forall₂ (fun row entry => entry.1 = row.1 ∧
      set row.1.1 row.2 (occurrenceId c.libs.sha
        (c.occurrenceInput (owner row.1.1) kind row.2)) = .ok entry.2 ∧
      IdentityRegistry.HasOccurrence c.libs.sha ids'
        (c.occurrenceInput (owner row.1.1) kind row.2)) todo out := by
  induction todo generalizing ids out with
  | nil => cases h; exact ⟨.refl _, .nil⟩
  | cons row todo ih =>
      obtain ⟨row, ordinal⟩ := row
      obtain ⟨⟨id, ids₁⟩, hid, h⟩ := bind_eq_ok.mp h
      obtain ⟨numbered, hset, h⟩ := bind_eq_ok.mp h
      obtain ⟨⟨rest, ids₂⟩, hrest, h⟩ := bind_eq_ok.mp h
      cases h
      obtain ⟨rfl, hwithin, hknown⟩ := IdentityRegistry.occurrence_ok hid
      obtain ⟨hwithin', hall⟩ := ih hrest
      exact ⟨hwithin.trans hwithin', .cons ⟨rfl, hset, hknown.mono hwithin'⟩ hall⟩

variable [DecidableEq α]

/-- The rows of `byOwner` are the rows with their indexes, each with its place. -/
theorem mem_byOwner {rows : List α} {row : α × Nat} {ordinal : Nat} :
    (row, ordinal) ∈ byOwner owner range rows ↔
      row ∈ rows.zipIdx ∧ ordinal = rank owner range rows row := by
  unfold byOwner
  rw [List.mem_flatMap]
  constructor
  · rintro ⟨o, -, hrow⟩
    exact Groups.mem_zipIdx_group (nodup_zipIdx rows) hrow
  · rintro ⟨hrow, rfl⟩
    refine ⟨owner row.1, Groups.mem_keys.mpr ⟨row.1, ?_, rfl⟩, Groups.place_mem_zipIdx hrow⟩
    exact List.fst_mem_of_mem_zipIdx hrow

/-- **Every row is numbered, once.** -/
theorem numberRows_byOwner {rows : List α} {out : List ((α × Nat) × α)}
    (h : c.numberRows kind owner set (byOwner owner range rows) ids = .ok (out, ids')) :
    ids.Within ids' ∧
      (∀ entry ∈ out, Numbers c kind owner range set rows ids' entry.1 entry.2) ∧
      ∀ row ∈ rows.zipIdx, ∃ numbered, (row, numbered) ∈ out := by
  obtain ⟨hwithin, hall⟩ := numberRows_ok h
  refine ⟨hwithin, fun entry hentry => ?_, fun row hrow => ?_⟩
  · obtain ⟨⟨row, ordinal⟩, htodo, hrow, hset, hknown⟩ :=
      Fallible.exists_of_forall₂_right hall hentry
    obtain ⟨hmem, rfl⟩ := mem_byOwner.mp htodo
    rw [hrow]
    exact ⟨hmem, hset, hknown⟩
  · obtain ⟨entry, hentry, hfst, -⟩ :=
      Fallible.exists_of_forall₂_left hall (mem_byOwner.mpr ⟨hrow, rfl⟩)
    have hsame : entry.1 = row := hfst
    exact ⟨entry.2, hsame ▸ hentry⟩

end Number

/-! ### The rows, written back -/

section WriteBack

variable {α : Type} {rows : List α} {out : List ((α × Nat) × α)} {f : α × Nat → α}

theorem writeBack_eq (hout : ∀ entry ∈ out, entry.1 ∈ rows.zipIdx ∧ entry.2 = f entry.1)
    (hall : ∀ row ∈ rows.zipIdx, ∃ numbered, (row, numbered) ∈ out) :
    writeBack rows out = rows.zipIdx.map f := by
  refine List.map_congr_left fun row hrow => ?_
  have hfound : (out.map fun entry => (entry.1.2, entry.2)).lookup row.2 = some (f row) := by
    obtain ⟨numbered, hmem⟩ := hall row hrow
    have hmade : numbered = f row := (hout _ hmem).2
    refine Lookup.lookup_of_unique (List.mem_map.mpr ⟨_, hmem, by rw [hmade]⟩) fun other hother => ?_
    obtain ⟨entry, hentry, heq⟩ := List.mem_map.mp hother
    obtain ⟨hindex, rfl⟩ := Prod.mk.injEq .. ▸ heq
    obtain ⟨hentry', hmade'⟩ := hout entry hentry
    rw [hmade', eq_of_mem_zipIdx hentry' hrow hindex]
  rw [hfound]
  rfl

end WriteBack

def renamed (replaced : List (String × String)) (id : String) : String :=
  (replaced.lookup id).getD id

theorem replace_eq_ok {replaced : List (String × String)} {missing id new : String} :
    replace replaced missing id = .ok new ↔ replaced.lookup id = some new := by
  unfold replace
  cases replaced.lookup id with
  | none =>
      constructor
      · intro h; cases h
      · intro h; cases h
  | some found => exact ⟨fun h => congrArg some (Except.ok.inj h), fun h => by rw [Option.some.inj h]; rfl⟩

theorem renamed_of_replace {replaced : List (String × String)} {missing id new : String}
    (h : replace replaced missing id = .ok new) : new = renamed replaced id := by
  unfold renamed
  rw [replace_eq_ok.mp h]
  rfl

namespace Context

variable (c : Context)

def finishedRegion (rs : List ControlRegion) (replaced : List (String × String))
    (row : ControlRegion × Nat) : ControlRegion :=
  let ordinal := rank ControlRegion.ownerSyntaxId ControlRegion.range rs row
  { row.1 with
    id := occurrenceId c.libs.sha (c.occurrenceInput row.1.ownerSyntaxId .control ordinal)
    ordinal := ordinal
    parentId := row.1.parentId.map (renamed replaced) }

def finishedCall (calls : List Call) (replaced : List (String × String)) (row : Call × Nat) :
    Call :=
  let ordinal := rank Call.ownerSyntaxId Call.range calls row
  { row.1 with
    id := occurrenceId c.libs.sha (c.occurrenceInput row.1.ownerSyntaxId .call ordinal)
    ordinal := ordinal
    regionIds := row.1.regionIds.map (renamed replaced) }

end Context

/-- **What the numbering leaves.**  `replaced` holds the identity of every region under its
pending id. -/
structure Finished (c : Context) (s s' : ParserState) (replaced : List (String × String)) :
    Prop where
  declarations : s'.declarations = s.declarations
  sawDefinition : s'.sawDefinition = s.sawDefinition
  sawCall : s'.sawCall = s.sawCall
  opaqueRust : s'.opaqueRust = s.opaqueRust
  within : s.ids.Within s'.ids
  controlRegions : s'.controlRegions =
    s.controlRegions.zipIdx.map (c.finishedRegion s.controlRegions replaced)
  calls : s'.calls = s.calls.zipIdx.map (c.finishedCall s.calls replaced)
  found : ∀ id new, replaced.lookup id = some new → ∃ row ∈ s.controlRegions.zipIdx,
    row.1.id = id ∧ new = (c.finishedRegion s.controlRegions replaced row).id
  parents : ∀ r ∈ s.controlRegions, ∀ id ∈ r.parentId, ∃ new, replaced.lookup id = some new
  regions : ∀ call ∈ s.calls, ∀ id ∈ call.regionIds, ∃ new, replaced.lookup id = some new
  knownControls : ∀ row ∈ s.controlRegions.zipIdx, IdentityRegistry.HasOccurrence c.libs.sha s'.ids
    (c.occurrenceInput row.1.ownerSyntaxId .control
      (rank ControlRegion.ownerSyntaxId ControlRegion.range s.controlRegions row))
  knownCalls : ∀ row ∈ s.calls.zipIdx, IdentityRegistry.HasOccurrence c.libs.sha s'.ids
    (c.occurrenceInput row.1.ownerSyntaxId .call
      (rank Call.ownerSyntaxId Call.range s.calls row))

/-- **The numbering finishes a walk.** -/
theorem finish_ok {c : Context} {s s' : ParserState} (h : c.finishOccurrences s = .ok s') :
    ∃ replaced, Finished c s s' replaced := by
  obtain ⟨_, _, h⟩ := bind_eq_ok.mp h
  obtain ⟨⟨controls, ids⟩, hcontrols, h⟩ := bind_eq_ok.mp h
  obtain ⟨regions, hparents, h⟩ := bind_eq_ok.mp h
  obtain ⟨_, _, h⟩ := bind_eq_ok.mp h
  obtain ⟨⟨calls, ids'⟩, hcalls, h⟩ := bind_eq_ok.mp h
  cases h
  obtain ⟨hids, hnumbered, hall⟩ := numberRows_byOwner hcontrols
  obtain ⟨hids', hnumbered', hall'⟩ := numberRows_byOwner hcalls
  -- a region as the numbering leaves it, its parent still pending
  have hmade : ∀ entry ∈ controls, entry.1 ∈ s.controlRegions.zipIdx ∧
      entry.2 = { c.finishedRegion s.controlRegions (replacements controls) entry.1 with
        parentId := entry.1.1.parentId } := fun entry hentry =>
    ⟨(hnumbered entry hentry).mem, (Except.ok.inj (hnumbered entry hentry).made).symm⟩
  have hmade' : ∀ entry ∈ calls, entry.1 ∈ s.calls.zipIdx ∧
      entry.2 = c.finishedCall s.calls (replacements controls) entry.1 := fun entry hentry => by
    obtain ⟨hmem, hset, -⟩ := hnumbered' entry hentry
    obtain ⟨regionIds, hregions, hset⟩ := bind_eq_ok.mp hset
    refine ⟨hmem, ?_⟩
    rw [Except.ok.inj hset.symm, Fallible.eq_map_of_mapM_eq_ok hregions
      fun _ _ _ hrenamed => renamed_of_replace hrenamed]
    rfl
  have hwritten : writeBack s.controlRegions controls = s.controlRegions.zipIdx.map fun row =>
      { c.finishedRegion s.controlRegions (replacements controls) row with
        parentId := row.1.parentId } := writeBack_eq hmade hall
  have hwritten' := writeBack_eq hmade' hall'
  rw [hwritten] at hparents
  -- the step that names the parent
  have hparent : List.Forall₂ (fun region next : ControlRegion =>
      next = { region with parentId := region.parentId.map (renamed (replacements controls)) } ∧
        ∀ id ∈ region.parentId, ∃ new, (replacements controls).lookup id = some new)
      (s.controlRegions.zipIdx.map fun row =>
        { c.finishedRegion s.controlRegions (replacements controls) row with
          parentId := row.1.parentId }) regions := by
    refine (Fallible.mapM_eq_ok.mp hparents).imp fun region next hnext => ?_
    cases hid : region.parentId with
    | none =>
        rw [hid] at hnext
        refine ⟨?_, fun id hid => absurd hid (Option.not_mem_none id)⟩
        rw [← Except.ok.inj hnext, Option.map_none, ← hid]
    | some parent =>
        rw [hid] at hnext
        obtain ⟨new, hnew, hnext⟩ := bind_eq_ok.mp hnext
        refine ⟨?_, fun id hid => ⟨new, ?_⟩⟩
        · rw [← Except.ok.inj hnext, renamed_of_replace hnew]; rfl
        · rw [← Option.some.inj hid]; exact replace_eq_ok.mp hnew
  refine ⟨replacements controls, rfl, rfl, rfl, rfl, hids.trans hids', ?_, hwritten',
    fun id new hlookup => ?_, fun r hr id hid => ?_, fun call hcall id hid => ?_,
    fun row hrow => ?_, fun row hrow => ?_⟩
  · have hregions := Fallible.map_eq_of_forall₂ (g := id) hparent fun _ _ hnext => hnext.1
    rw [List.map_id, List.map_map] at hregions
    exact hregions
  · have hmem := Lookup.mem_of_lookup hlookup
    obtain ⟨entry, hentry, heq⟩ := List.mem_map.mp (List.mem_reverse.mp hmem)
    obtain ⟨hid, hnew⟩ := Prod.mk.injEq .. ▸ heq
    obtain ⟨hrow, hmade⟩ := hmade entry hentry
    refine ⟨entry.1, hrow, hid, ?_⟩
    rw [← hnew, hmade]
  · obtain ⟨index, hindex⟩ := exists_index hr
    obtain ⟨next, -, hnext⟩ := Fallible.exists_of_forall₂_left hparent (List.mem_map_of_mem hindex)
    exact hnext.2 id hid
  · obtain ⟨index, hindex⟩ := exists_index hcall
    obtain ⟨numbered, hmem⟩ := hall' _ hindex
    obtain ⟨regionIds, hregions, -⟩ := bind_eq_ok.mp (hnumbered' _ hmem).made
    obtain ⟨new, -, hnew⟩ := Fallible.exists_of_mapM_eq_ok hregions hid
    exact ⟨new, replace_eq_ok.mp hnew⟩
  · obtain ⟨numbered, hmem⟩ := hall row hrow
    exact (hnumbered _ hmem).known.mono hids'
  · obtain ⟨numbered, hmem⟩ := hall' row hrow
    exact (hnumbered' _ hmem).known

end Baleyg.Native
