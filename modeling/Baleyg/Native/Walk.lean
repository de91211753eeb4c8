/-
What holds of a walk.

`Rule` is the induction over a walk, stated once: what holds of a node that is skipped, of a
node whose children it holds of, and of the lists in between, holds of every walk that
returns.  Each fact about a walk is then one case per step of a visit.

Two declarations of the same ancestors are never one inside the other, because what is
declared inside of a declaration has that declaration among its ancestors.  So the ones that
are numbered together come one behind the other, in the order they are met.
-/
import Baleyg.Native.Validate

namespace Baleyg.Native

open Fallible (ensure bind_eq_ok ensure_eq_ok)

/-- The state behind the budget check. -/
def ParserState.visited (s : ParserState) : ParserState := { s with visits := s.visits + 1 }

namespace Context

variable (c : Context)

/-! ### The steps of a visit -/

def keyAt (n : Node) (p : Place) (s : ParserState) (k : DeclarationKind) : Key :=
  { keyOf c.file n k with
    ordinal := s.declarationOrdinals (p.ancestors, k, (keyOf c.file n k).name,
      (keyOf c.file n k).signature) }

def HasLookup (n : Node) (lookupKey : Option String) : Prop :=
  (name c.file n = none ∧ lookupKey = none) ∨
    ∃ value r key, name c.file n = some (value, r) ∧
      lookup c.libs c.file.language value = .ok key ∧ lookupKey = some key

def declaredState (n : Node) (p : Place) (s : ParserState) (k : DeclarationKind)
    (ids : IdentityRegistry) (lookupKey : Option String) : ParserState :=
  let key := c.keyAt n p s k
  { s with
    ids := ids
    declarationOrdinals := Function.update s.declarationOrdinals
      (p.ancestors, k, key.name, key.signature) (key.ordinal + 1)
    declarations := s.declarations ++
      [c.declaration n p key (stableId c.libs.sha (c.stableInput p.ancestors key)) lookupKey]
    sawDefinition := true }

def regionAt (n : Node) (p : Place) (s : ParserState) : ControlRegion :=
  ⟨c.pendingId p.owner n.range, p.owner, s.controlOrdinals p.owner, c.document, c.revisionId,
    n.kind, n.range, p.regions.getLast?, none, c.proofId⟩

def callAt (n : Node) (p : Place) (s : ParserState) : Call :=
  ⟨"", p.owner, s.callOrdinals p.owner, c.document, c.revisionId, n.range, (callee c.file n).2,
    (callee c.file n).1, p.regions, c.proofId⟩

variable {c} {n : Node} {p p' : Place} {s s' : ParserState}

theorem hasLookup_of_ok {lookupKey : Option String} (h : c.lookupKeyOf n = .ok lookupKey) :
    c.HasLookup n lookupKey := by
  unfold lookupKeyOf at h
  cases hname : name c.file n with
  | none =>
      simp only [hname] at h
      cases h
      exact .inl ⟨hname, rfl⟩
  | some named =>
      obtain ⟨value, r⟩ := named
      simp only [hname] at h
      cases hkey : lookup c.libs c.file.language value with
      | error e => rw [hkey] at h; cases h
      | ok key =>
          rw [hkey] at h
          cases h
          exact .inr ⟨value, r, key, hname, hkey, rfl⟩

/-- **All a declaration can do.** -/
theorem declare_ok (h : c.declare n p s = .ok (p', s')) :
    (declares c.file p.up n = none ∧ p' = p ∧ s' = s) ∨
      ∃ k ids lookupKey, declares c.file p.up n = some k ∧ c.HasLookup n lookupKey ∧
        s.ids.Within ids ∧
        IdentityRegistry.HasStable c.libs.sha ids (c.stableInput p.ancestors (c.keyAt n p s k)) ∧
        p' = p.declared k (c.keyAt n p s k)
          (stableId c.libs.sha (c.stableInput p.ancestors (c.keyAt n p s k))) ∧
        s' = c.declaredState n p s k ids lookupKey := by
  unfold declare at h
  cases hk : declares c.file p.up n with
  | none =>
      simp only [hk] at h
      cases h
      exact .inl ⟨rfl, rfl, rfl⟩
  | some k =>
      simp only [hk] at h
      obtain ⟨⟨id, ids⟩, hstable, h⟩ := bind_eq_ok.mp h
      obtain ⟨hid, hwithin, hhas⟩ := IdentityRegistry.stable_ok hstable
      subst hid
      obtain ⟨lookupKey, hlookup, h⟩ := bind_eq_ok.mp h
      cases h
      exact .inr ⟨k, ids, lookupKey, rfl, hasLookup_of_ok hlookup, hwithin, hhas, rfl, rfl⟩

/-- **All a control region can do.** -/
theorem control_ok (h : c.control n p s = .ok (p', s')) :
    (isRegion n = false ∧ p' = p ∧ s' = s) ∨
      isRegion n = true ∧ (p.owner, OccurrenceKind.control, n.range) ∉ s.seen ∧
        p' = { p with regions := p.regions ++ [c.pendingId p.owner n.range] } ∧
        s' = { s with
          controlOrdinals := Function.update s.controlOrdinals p.owner
            (s.controlOrdinals p.owner + 1)
          seen := (p.owner, .control, n.range) :: s.seen
          controlRegions := s.controlRegions ++ [c.regionAt n p s] } := by
  unfold control at h
  by_cases hregion : isRegion n = true
  · rw [if_pos hregion] at h
    obtain ⟨_, hseen, h⟩ := bind_eq_ok.mp h
    cases h
    exact .inr ⟨hregion, ensure_eq_ok.mp hseen, rfl, rfl⟩
  · rw [if_neg hregion] at h
    cases h
    exact .inl ⟨Bool.eq_false_iff.mpr hregion, rfl, rfl⟩

/-- **All a call can do.** -/
theorem call_ok (h : c.call n p s = .ok s') :
    (isCall c.file.language n = false ∧ s' = s) ∨
      isCall c.file.language n = true ∧ (p.owner, OccurrenceKind.call, n.range) ∉ s.seen ∧
        s' = { s with
          callOrdinals := Function.update s.callOrdinals p.owner (s.callOrdinals p.owner + 1)
          sawCall := true
          seen := (p.owner, .call, n.range) :: s.seen
          calls := s.calls ++ [c.callAt n p s] } := by
  unfold call at h
  by_cases hcall : isCall c.file.language n = true
  · rw [if_pos hcall] at h
    obtain ⟨_, hseen, h⟩ := bind_eq_ok.mp h
    cases h
    exact .inr ⟨hcall, ensure_eq_ok.mp hseen, rfl⟩
  · rw [if_neg hcall] at h
    cases h
    exact .inl ⟨Bool.eq_false_iff.mpr hcall, rfl⟩

/-! ### The induction over a walk -/

structure Rule (c : Context) (P : Node → Place → ParserState → ParserState → Prop)
    (Q : List Node → Place → ParserState → ParserState → Prop) : Prop where
  skip : ∀ n p s, isOpaque c.file.language n = true →
    P n p s { s.visited with opaqueRust := true }
  visit : ∀ n p s p₁ s₁ p₂ s₂ s₃ s', isOpaque c.file.language n = false →
    c.declare n p s.visited = .ok (p₁, s₁) → c.control n p₁ s₁ = .ok (p₂, s₂) →
    c.call n p₂ s₂ = .ok s₃ → Q n.children (p₂.inside n) s₃ s' → P n p s s'
  nil : ∀ p s, Q [] p s s
  pass : ∀ n rest p s s', n.named = false → Q rest p s s' → Q (n :: rest) p s s'
  cons : ∀ n rest p s s₁ s', n.named = true → P n p s s₁ → Q rest p s₁ s' →
    Q (n :: rest) p s s'

mutual

/-- **The rule holds of every walk.** -/
theorem Rule.walk {P : Node → Place → ParserState → ParserState → Prop}
    {Q : List Node → Place → ParserState → ParserState → Prop} (hrule : c.Rule P Q) :
    ∀ (n : Node) (p : Place) (s s' : ParserState), c.walk n p s = .ok s' → P n p s s'
  | ⟨kind, named, field, range, children⟩, p, s, s', h => by
      rw [Context.walk] at h
      obtain ⟨_, -, h⟩ := bind_eq_ok.mp h
      by_cases hhidden : isOpaque c.file.language ⟨kind, named, field, range, children⟩ = true
      · rw [if_pos hhidden] at h
        cases h
        exact hrule.skip _ p s hhidden
      · rw [if_neg hhidden] at h
        obtain ⟨⟨p₁, s₁⟩, hdeclare, h⟩ := bind_eq_ok.mp h
        obtain ⟨⟨p₂, s₂⟩, hcontrol, h⟩ := bind_eq_ok.mp h
        obtain ⟨s₃, hcall, h⟩ := bind_eq_ok.mp h
        exact hrule.visit _ p s p₁ s₁ p₂ s₂ s₃ s' (Bool.eq_false_iff.mpr hhidden) hdeclare
          hcontrol hcall (Rule.walkAll hrule children _ s₃ s' h)

theorem Rule.walkAll {P : Node → Place → ParserState → ParserState → Prop}
    {Q : List Node → Place → ParserState → ParserState → Prop} (hrule : c.Rule P Q) :
    ∀ (ns : List Node) (p : Place) (s s' : ParserState), c.walkAll ns p s = .ok s' → Q ns p s s'
  | [], p, s, s', h => by
      rw [Context.walkAll] at h
      cases h
      exact hrule.nil p s
  | n :: rest, p, s, s', h => by
      rw [Context.walkAll] at h
      by_cases hnamed : n.named = true
      · rw [if_pos hnamed] at h
        obtain ⟨s₁, hwalk, h⟩ := bind_eq_ok.mp h
        exact hrule.cons n rest p s s₁ s' hnamed (Rule.walk hrule n p s s₁ hwalk)
          (Rule.walkAll hrule rest p s₁ s' h)
      · rw [if_neg hnamed] at h
        exact hrule.pass n rest p s s' (Bool.eq_false_iff.mpr hnamed)
          (Rule.walkAll hrule rest p s s' h)

end

/-! ### A walk only adds -/

structure Adds (s s' : ParserState) : Prop where
  declarations : s.declarations <+: s'.declarations
  calls : s.calls <+: s'.calls
  controlRegions : s.controlRegions <+: s'.controlRegions
  ids : s.ids.Within s'.ids

theorem Adds.refl (s : ParserState) : Adds s s :=
  ⟨List.prefix_refl _, List.prefix_refl _, List.prefix_refl _, .refl _⟩

theorem Adds.trans {t : ParserState} (h : Adds s s') (h' : Adds s' t) : Adds s t :=
  ⟨h.declarations.trans h'.declarations, h.calls.trans h'.calls,
    h.controlRegions.trans h'.controlRegions, h.ids.trans h'.ids⟩

theorem declare_adds (h : c.declare n p s.visited = .ok (p', s')) : Adds s s' := by
  rcases declare_ok h with ⟨-, -, rfl⟩ | ⟨k, ids, lookupKey, -, -, hwithin, -, -, rfl⟩
  · exact ⟨List.prefix_refl _, List.prefix_refl _, List.prefix_refl _, .refl _⟩
  · exact ⟨List.prefix_append _ _, List.prefix_refl _, List.prefix_refl _, hwithin⟩

theorem control_adds (h : c.control n p s = .ok (p', s')) : Adds s s' := by
  rcases control_ok h with ⟨-, -, rfl⟩ | ⟨-, -, -, rfl⟩
  · exact .refl _
  · exact ⟨List.prefix_refl _, List.prefix_refl _, List.prefix_append _ _, .refl _⟩

theorem call_adds (h : c.call n p s = .ok s') : Adds s s' := by
  rcases call_ok h with ⟨-, rfl⟩ | ⟨-, -, rfl⟩
  · exact .refl _
  · exact ⟨List.prefix_refl _, List.prefix_append _ _, List.prefix_refl _, .refl _⟩

theorem rule_adds (c : Context) : c.Rule (fun _ _ s s' => Adds s s') fun _ _ s s' => Adds s s' where
  skip _ _ _ _ := ⟨List.prefix_refl _, List.prefix_refl _, List.prefix_refl _, .refl _⟩
  visit _ _ _ _ _ _ _ _ _ _ hdeclare hcontrol hcall hchildren :=
    (declare_adds hdeclare).trans
      ((control_adds hcontrol).trans ((call_adds hcall).trans hchildren))
  nil _ s := .refl s
  pass _ _ _ _ _ _ h := h
  cons _ _ _ _ _ _ _ h hrest := h.trans hrest

theorem walk_adds (h : c.walk n p s = .ok s') : Adds s s' := (rule_adds c).walk n p s s' h

/-! ### Declarations of one number come in order -/

end Context

def Declaration.ordinalKey (d : Declaration) : OrdinalKey :=
  (d.ancestors, d.kind, d.name, d.key.signature)

/-- Those that are numbered together lie one behind the other. -/
def Ordered (ds : List Declaration) : Prop :=
  ds.Pairwise fun d e => d.ordinalKey = e.ordinalKey → d.range.stop ≤ e.range.start

namespace Context

variable {c : Context} {n : Node} {p p' : Place} {s s' : ParserState}

/-- Whatever a walk from a place in a range declares. -/
structure Declares (c : Context) (p : Place) (inside : Range → Prop) (s s' : ParserState)
    (ds : List Declaration) : Prop where
  added : s'.declarations = s.declarations ++ ds
  ancestors : ∀ d ∈ ds, p.ancestors <+: d.ancestors
  inside : ∀ d ∈ ds, inside d.range
  kinds : ∀ d ∈ ds, d.kind ≠ .moduleItem
  ordered : Ordered ds

theorem Declares.none {inside : Range → Prop} (h : s'.declarations = s.declarations) :
    c.Declares p inside s s' [] :=
  ⟨h.trans (List.append_nil _).symm, fun _ hd => absurd hd List.not_mem_nil,
    fun _ hd => absurd hd List.not_mem_nil, fun _ hd => absurd hd List.not_mem_nil,
    List.Pairwise.nil⟩

theorem declares_eq_some {k : DeclarationKind} (h : declares c.file p.up n = some k) :
    nativeKind c.file.language p.up n = some k := (Option.filter_eq_some_iff.mp h).1

theorem declare_declares (h : c.declare n p s.visited = .ok (p', s')) :
    ∃ ds, s'.declarations = s.declarations ++ ds ∧
      (ds = [] ∧ p'.ancestors = p.ancestors ∨
        ∃ d, ds = [d] ∧ d.ancestors = p.ancestors ∧ d.range = n.range ∧ d.kind ≠ .moduleItem ∧
          ∃ key, p'.ancestors = p.ancestors ++ [key]) := by
  rcases declare_ok h with ⟨-, rfl, rfl⟩ | ⟨k, ids, lookupKey, hk, -, -, -, rfl, rfl⟩
  · exact ⟨[], (List.append_nil _).symm, .inl ⟨rfl, rfl⟩⟩
  · exact ⟨[_], rfl, .inr ⟨_, rfl, rfl, rfl, nativeKind_ne_module (declares_eq_some hk), _, rfl⟩⟩

theorem control_declares (h : c.control n p s = .ok (p', s')) :
    s'.declarations = s.declarations ∧ p'.ancestors = p.ancestors := by
  rcases control_ok h with ⟨-, rfl, rfl⟩ | ⟨-, -, rfl, rfl⟩ <;> exact ⟨rfl, rfl⟩

theorem call_declares (h : c.call n p s = .ok s') : s'.declarations = s.declarations := by
  rcases call_ok h with ⟨-, rfl⟩ | ⟨-, -, rfl⟩ <;> rfl

theorem rule_declares (c : Context) :
    c.Rule
      (fun n p s s' => n.Shaped c.file.text →
        ∃ ds, c.Declares p (fun r => r.within n.range) s s' ds)
      fun ns p s s' => (∀ n ∈ ns, n.Shaped c.file.text) →
        ns.Pairwise (fun a b => a.range.stop ≤ b.range.start) →
        ∃ ds, c.Declares p (fun r => ∃ n ∈ ns, r.within n.range) s s' ds where
  skip n p s _ _ := ⟨[], .none rfl⟩
  visit n p s p₁ s₁ p₂ s₂ s₃ s' _ hdeclare hcontrol hcall hchildren hn := by
    obtain ⟨ds, hadded, hancestors, hinside, hkinds, hordered⟩ :=
      hchildren (fun child hchild => hn.child hchild) hn.ordered
    obtain ⟨own, hown, hcases⟩ := declare_declares hdeclare
    obtain ⟨hsame, hplace⟩ := control_declares hcontrol
    have hplace' : (p₂.inside n).ancestors = p₁.ancestors := hplace
    rw [call_declares hcall, hsame, hown] at hadded
    have hwithin : ∀ d ∈ ds, d.range.within n.range := fun d hd => by
      obtain ⟨child, hchild, hwithin⟩ := hinside d hd
      exact Range.within_trans hwithin (hn.within hchild)
    rcases hcases with ⟨rfl, hsame⟩ | ⟨d, rfl, hd, hrange, hkind, key, hkey⟩
    · refine ⟨ds, ?_, fun d hd => ?_, hwithin, hkinds, hordered⟩
      · rw [hadded, List.append_nil]
      · rw [← hsame, ← hplace']; exact hancestors d hd
    · have hbelow : ∀ e ∈ ds, p.ancestors ++ [key] <+: e.ancestors := fun e he => by
        rw [← hkey, ← hplace']
        exact hancestors e he
      refine ⟨d :: ds, ?_, fun e he => ?_, fun e he => ?_, fun e he => ?_,
        List.pairwise_cons.mpr ⟨?_, hordered⟩⟩
      · rw [hadded, List.append_assoc, List.singleton_append]
      · rcases List.mem_cons.mp he with rfl | he
        · rw [hd]
        · exact (List.prefix_append _ _).trans (hbelow e he)
      · rcases List.mem_cons.mp he with rfl | he
        · rw [hrange]; exact Range.within_refl _
        · exact hwithin e he
      · rcases List.mem_cons.mp he with rfl | he
        · exact hkind
        · exact hkinds e he
      · intro e he hsame
        -- what is declared inside has more ancestors
        have hlength := (hbelow e he).length_le
        have hancestors : d.ancestors = e.ancestors := congrArg Prod.fst hsame
        rw [← hancestors, hd, List.length_append, List.length_singleton] at hlength
        omega
  nil p s _ _ := ⟨[], .none rfl⟩
  pass n rest p s s' _ hrest hshaped hordered := by
    obtain ⟨ds, hadded, hancestors, hinside, hkinds, hds⟩ :=
      hrest (fun m hm => hshaped m (List.mem_cons_of_mem n hm)) hordered.of_cons
    refine ⟨ds, hadded, hancestors, fun d hd => ?_, hkinds, hds⟩
    obtain ⟨m, hm, hwithin⟩ := hinside d hd
    exact ⟨m, List.mem_cons_of_mem n hm, hwithin⟩
  cons n rest p s s₁ s' _ hnode hrest hshaped hordered := by
    obtain ⟨ds, hadded, hancestors, hinside, hkinds, hds⟩ := hnode (hshaped n List.mem_cons_self)
    obtain ⟨more, hadded', hancestors', hinside', hkinds', hmore⟩ :=
      hrest (fun m hm => hshaped m (List.mem_cons_of_mem n hm)) hordered.of_cons
    refine ⟨ds ++ more, ?_, fun d hd => ?_, fun d hd => ?_, fun d hd => ?_,
      List.pairwise_append.mpr ⟨hds, hmore, fun d hd e he _ => ?_⟩⟩
    · rw [hadded', hadded, List.append_assoc]
    · rcases List.mem_append.mp hd with hd | hd
      · exact hancestors d hd
      · exact hancestors' d hd
    · rcases List.mem_append.mp hd with hd | hd
      · exact ⟨n, List.mem_cons_self, hinside d hd⟩
      · obtain ⟨m, hm, hwithin⟩ := hinside' d hd
        exact ⟨m, List.mem_cons_of_mem n hm, hwithin⟩
    · exact (List.mem_append.mp hd).elim (hkinds d) (hkinds' d)
    · obtain ⟨m, hm, hwithin⟩ := hinside' e he
      have hbefore := (List.pairwise_cons.mp hordered).1 m hm
      exact (hinside d hd).2.trans (hbefore.trans hwithin.1)

/-- **Declarations of one number come in order.** -/
theorem walk_declares (hn : n.Shaped c.file.text) (h : c.walk n p s = .ok s') :
    ∃ ds, c.Declares p (fun r => r.within n.range) s s' ds :=
  (rule_declares c).walk n p s s' h hn

end Context

end Baleyg.Native
