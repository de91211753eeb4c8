/-
The parser accepts what the grammar and the contract admit, and nothing else.

The two directions are one statement a nonterminal each, about every fuel: a call that returns
has read a derivation, and a derivation at the cursor is read by every call that has fuel for
it.  The grammar lets white space stand around a structural character, so a derivation of a
value may begin and end with some; the parser skips what is before a value and leaves what is
behind it to whoever looks for the next character.
-/
import Baleyg.Contract.Tokens

namespace Baleyg.Contract

open Fallible (ensure bind_eq_ok ensure_bind_eq_ok ensure_eq_ok)

/-! ### The structure around values -/

theorem Structural.ends {ch : Char} (hch : ch = ',' ∨ ch = ']' ∨ ch = '\x7d') {s : Units}
    (h : Structural ch s) (r : Units) : Ends (s ++ r) := by
  obtain ⟨a, b, ha, -, rfl⟩ := h
  intro u hu
  cases a with
  | nil =>
      obtain rfl := Option.some.inj hu
      rcases hch with rfl | rfl | rfl
      · exact .inr (.inl rfl)
      · exact .inr (.inr (.inl rfl))
      · exact .inr (.inr (.inr rfl))
  | cons v a =>
      obtain rfl := Option.some.inj hu
      exact .inl (isSpace_iff.mpr (ha v List.mem_cons_self))

theorem Structural.length_pos {ch : Char} {s : Units} (h : Structural ch s) : 0 < s.length := by
  obtain ⟨a, b, -, -, rfl⟩ := h
  rw [List.length_append, List.length_cons]
  omega

/-- Blanks around a structural character are skipped on both sides. -/
theorem space_structural {ch : Char} {s w r : Units} {o : Nat} (hch : isSpace (unit ch) = false)
    (h : Structural ch s) (hw : Ws w) : ∃ b o', Ws b ∧
      (⟨o, w ++ (s ++ r)⟩ : Cursor).space = ⟨o', unit ch :: (b ++ r)⟩ := by
  obtain ⟨a, b, ha, hb, rfl⟩ := h
  refine ⟨b, o + (w ++ a).length, hb, ?_⟩
  rw [List.append_assoc, ← List.append_assoc, List.cons_append]
  exact space_eq (hw.append ha) fun u hu => Option.some.inj hu ▸ hch

theorem peek_cons (o : Nat) (u : UInt16) (r : Units) : (⟨o, u :: r⟩ : Cursor).peek = some u := rfl

theorem peek_ne {o : Nat} {u v : UInt16} {r : Units} (h : u ≠ v) :
    (⟨o, u :: r⟩ : Cursor).peek ≠ some v := fun heq => h (Option.some.inj heq)

theorem ok_bind {ε α β : Type} (a : α) (f : α → Except ε β) : Except.ok a >>= f = f a := rfl

theorem rest_of_peek {c : Cursor} {u : UInt16} (h : c.peek = some u) :
    c.rest = u :: (c.skip 1).rest := by
  show _ = u :: c.rest.drop 1
  rw [List.drop_one]
  exact (List.cons_head?_tail h).symm

theorem space_space (c : Cursor) : c.space.space = c.space := by
  obtain ⟨w, -, -, hdark⟩ := space_spec c
  exact space_eq ws_nil hdark

/-- A value may have blanks before it. -/
theorem value_space (fuel : Nat) (c : Cursor) : value fuel c.space = value fuel c := by
  cases fuel with
  | zero => rfl
  | succ fuel =>
      rw [value, value, space_space]

theorem items_space (fuel : Nat) (c : Cursor) : items fuel c.space = items fuel c := by
  cases fuel with
  | zero => rfl
  | succ fuel => rw [items, items, value_space]

theorem members_space (fuel : Nat) (seen : List Units) (c : Cursor) :
    members fuel seen c.space = members fuel seen c := by
  cases fuel with
  | zero => rfl
  | succ fuel => rw [members, members, space_space]

/-! ### Scalars -/

theorem scalar_ok {c next : Cursor} {v : Value} (h : scalar c = .ok (v, next)) :
    ∃ t tree, IsValue t tree ∧ tree.Admissible ∧ tree.value = v ∧ c.rest = t ++ next.rest := by
  unfold scalar at h
  cases hword : words.find? fun word => word.1.isPrefixOf c.rest with
  | some entry =>
      obtain ⟨word, v'⟩ := entry
      simp only [hword] at h
      cases h
      have hlead := List.find?_some hword
      rw [List.isPrefixOf_iff_prefix] at hlead
      have hrest : c.rest = word ++ (c.skip word.length).rest :=
        (List.prefix_iff_eq_append.mp hlead).symm
      have hmem := List.mem_of_find?_eq_some hword
      simp only [words, List.mem_cons, Prod.mk.injEq, List.not_mem_nil, or_false] at hmem
      rcases hmem with ⟨rfl, rfl⟩ | ⟨rfl, rfl⟩ | ⟨rfl, rfl⟩
      · exact ⟨_, _, .yes, .boolean true, rfl, hrest⟩
      · exact ⟨_, _, .no, .boolean false, rfl, hrest⟩
      · exact ⟨_, _, .null, .null, rfl, hrest⟩
  | none =>
      simp only [hword] at h
      split_ifs at h with hnumber
      · obtain ⟨t, hint, hsafe, rfl, hrest⟩ := number_ok h
        have hnumber : IsNumber t := ⟨[], t, [], [], by simp, .inl rfl, hint, .inl rfl, .inl rfl⟩
        exact ⟨t, _, .number hnumber, .number hint hsafe, rfl, hrest⟩

theorem scalar_word {word rest : Units} {v : Value} {o : Nat} (h : (word, v) ∈ words) :
    ∃ o', scalar ⟨o, word ++ rest⟩ = .ok (v, ⟨o', rest⟩) := by
  simp only [words, List.mem_cons, Prod.mk.injEq, List.not_mem_nil, or_false] at h
  rcases h with ⟨rfl, rfl⟩ | ⟨rfl, rfl⟩ | ⟨rfl, rfl⟩
  · exact ⟨o + 4, rfl⟩
  · exact ⟨o + 5, rfl⟩
  · exact ⟨o + 4, rfl⟩

theorem scalar_of_isInt {t rest : Units} {o : Nat} (h : IsInt t)
    (hsafe : numeral t ≤ maxSafeInteger) (hends : Ends rest) :
    ∃ o', scalar ⟨o, t ++ rest⟩ = .ok (.number (.natural (numeral t)), ⟨o', rest⟩) := by
  obtain ⟨o', hnumber⟩ := @number_of_isInt _ rest o h hsafe hends
  obtain ⟨d, ds, rfl⟩ : ∃ d ds, t = d :: ds := by
    rcases h with rfl | ⟨d, ds, rfl, _⟩
    · exact ⟨_, _, rfl⟩
    · exact ⟨_, _, rfl⟩
  have hd : isDigit d = true := h.digits d List.mem_cons_self
  refine ⟨o', ?_⟩
  unfold scalar
  have hnone : words.find? (fun word => word.1.isPrefixOf (d :: ds ++ rest)) = none := by
    refine List.find?_eq_none.mpr fun entry hentry hlead => ?_
    have hheads : ∀ entry ∈ words, ∃ u tail, entry.1 = u :: tail ∧ isDigit u = false := by
      simp only [words, List.forall_mem_cons]
      exact ⟨⟨_, _, rfl, by decide⟩, ⟨_, _, rfl, by decide⟩, ⟨_, _, rfl, by decide⟩,
        fun _ h => absurd h List.not_mem_nil⟩
    obtain ⟨u, tail, hentry, hu⟩ := hheads entry hentry
    rw [hentry, List.cons_append, List.isPrefixOf_cons_cons, Bool.and_eq_true, beq_iff_eq] at hlead
    rw [hlead.1, hd] at hu
    cases hu
  simp only [hnone]
  rw [if_pos (.inr (by exact hd))]
  exact hnumber

/-! ### What a value begins with -/

/-- A unit that may begin a value and is no blank. -/
def Leads (u : UInt16) : Prop :=
  isSpace u = false ∧ u ≠ unit ']' ∧ u ≠ unit '\x7d' ∧ u ≠ 0xFEFF

instance (u : UInt16) : Decidable (Leads u) := by
  unfold Leads
  infer_instance

theorem leads_of_isDigit {u : UInt16} (h : isDigit u = true) : Leads u := by
  refine ⟨?_, ?_, ?_, ?_⟩
  · by_contra hspace
    rw [Bool.not_eq_false] at hspace
    have hall : ∀ u ∈ [unit ' ', unit '\t', unit '\n', unit '\r'], isDigit u = false :=
      List.all_iff_forall_prop.mp (by decide)
    rw [hall u (isSpace_iff.mp hspace)] at h
    cases h
  all_goals
    rintro rfl
    revert h
    decide

/-- A number begins with a unit that leads. -/
theorem IsNumber.head {t : Units} (h : IsNumber t) : ∃ u r, t = u :: r ∧ Leads u := by
  obtain ⟨sign, int, frac, exp, rfl, hsign, hint, -, -⟩ := h
  rcases hsign with rfl | rfl
  · have hdigits := hint.digits
    rcases hint with rfl | ⟨d, ds, rfl, -⟩
    · exact ⟨_, _, rfl, by decide⟩
    · exact ⟨_, _, rfl, leads_of_isDigit (hdigits d List.mem_cons_self)⟩
  · exact ⟨unit '-', int ++ frac ++ exp, by simp, by decide⟩

theorem Structural.head {ch : Char} {s : Units} (h : Structural ch s) (r : Units) :
    ∃ a r', Ws a ∧ s ++ r = a ++ unit ch :: r' := by
  obtain ⟨a, b, ha, -, rfl⟩ := h
  exact ⟨a, b ++ r, ha, by rw [List.append_assoc, List.cons_append]⟩

/-- **Neither a closing bracket nor a byte order mark begins a value.** -/
theorem IsValue.head {t : Units} {tree : Tree} (h : IsValue t tree) :
    ∃ a u r, Ws a ∧ t = a ++ u :: r ∧ Leads u := by
  cases h with
  | null | yes | no => exact ⟨[], _, _, ws_nil, rfl, by decide⟩
  | number h =>
      obtain ⟨u, r, rfl, hu⟩ := h.head
      exact ⟨[], u, r, ws_nil, rfl, hu⟩
  | string h =>
      obtain ⟨r, rfl⟩ := h.head
      exact ⟨[], _, r, ws_nil, rfl, by decide⟩
  | emptyArray ho _ | array ho _ _ | emptyObject ho _ | object ho _ _ =>
      obtain ⟨a, r, ha, heq⟩ := ho.head _
      exact ⟨a, _, r, ha, heq, by decide⟩

theorem IsItems.head {t : Units} {trees : List Tree} (h : IsItems t trees) :
    ∃ a u r, Ws a ∧ t = a ++ u :: r ∧ Leads u := by
  cases h with
  | one h => exact h.head
  | more h _ _ =>
      obtain ⟨a, u, r, ha, rfl, hu⟩ := h.head
      exact ⟨a, u, _, ha, by rw [List.append_assoc, List.cons_append], hu⟩

theorem IsMembers.head {t : Units} {members : List (Units × Tree)} (h : IsMembers t members) :
    ∃ r, t = unit '\x22' :: r := by
  cases h with
  | one hk _ _ | more hk _ _ _ _ =>
      obtain ⟨r, rfl⟩ := hk.head
      exact ⟨_, rfl⟩

/-! ### One call of the parser -/

section Calls

variable {fuel : Nat} {c c' : Cursor}

theorem value_string (hspace : c.space = c') (hpeek : c'.peek = some (unit '\x22')) :
    value (fuel + 1) c = (string c').map fun p => (.string p.1, p.2) := by
  subst hspace
  show (if c.space.peek = _ then _ else _) = _
  rw [if_pos hpeek]
  cases string c.space <;> rfl

theorem value_object (hspace : c.space = c') (hpeek : c'.peek = some (unit '\x7b')) :
    value (fuel + 1) c =
      if (c'.skip 1).space.peek = some (unit '\x7d') then
        .ok (.object [], (c'.skip 1).space.skip 1)
      else (members fuel [] (c'.skip 1).space).map fun p => (.object p.1, p.2) := by
  subst hspace
  show (if c.space.peek = _ then _ else if c.space.peek = _ then _ else _) = _
  rw [if_neg (by rw [hpeek]; decide), if_pos hpeek]
  refine if_congr Iff.rfl rfl ?_
  cases members fuel [] (c.space.skip 1).space <;> rfl

theorem value_array (hspace : c.space = c') (hpeek : c'.peek = some (unit '[')) :
    value (fuel + 1) c =
      if (c'.skip 1).space.peek = some (unit ']') then
        .ok (.array [], (c'.skip 1).space.skip 1)
      else (items fuel (c'.skip 1).space).map fun p => (.array p.1, p.2) := by
  subst hspace
  show (if c.space.peek = _ then _ else if c.space.peek = _ then _ else
    if c.space.peek = _ then _ else _) = _
  rw [if_neg (by rw [hpeek]; decide), if_neg (by rw [hpeek]; decide), if_pos hpeek]
  refine if_congr Iff.rfl rfl ?_
  cases items fuel (c.space.skip 1).space <;> rfl

theorem value_scalar (hspace : c.space = c') (hquote : c'.peek ≠ some (unit '\x22'))
    (hbrace : c'.peek ≠ some (unit '\x7b')) (hbracket : c'.peek ≠ some (unit '[')) :
    value (fuel + 1) c = scalar c' := by
  subst hspace
  show (if c.space.peek = _ then _ else if c.space.peek = _ then _ else
    if c.space.peek = _ then _ else _) = _
  rw [if_neg hquote, if_neg hbrace, if_neg hbracket]

end Calls

/-! ### A derivation at the cursor is read -/

/-- What a call does that has enough fuel. -/
structure Reads (fuel : Nat) : Prop where
  value : ∀ (o : Nat) (rest : Units) {t w : Units} {tree : Tree}, IsValue t tree → tree.Admissible →
    2 * t.length + 1 ≤ fuel → Ws w → Ends rest →
    ∃ w' o', Ws w' ∧ value fuel ⟨o, w ++ (t ++ rest)⟩ = .ok (tree.value, ⟨o', w' ++ rest⟩)
  items : ∀ (o : Nat) (rest : Units) {t w cl : Units} {trees : List Tree}, IsItems t trees →
    (∀ tree ∈ trees, tree.Admissible) → 2 * t.length + 2 ≤ fuel → Ws w → Structural ']' cl →
    ∃ w' o', Ws w' ∧
      items fuel ⟨o, w ++ (t ++ (cl ++ rest))⟩ = .ok (Tree.values trees, ⟨o', w' ++ rest⟩)
  members : ∀ (o : Nat) (rest : Units) (seen : List Units) {t w cl : Units}
    {ms : List (Units × Tree)}, IsMembers t ms → (ms.map Prod.fst).Nodup → (∀ m ∈ ms, m.1 ∉ seen) →
    (∀ m ∈ ms, validString m.1 = true) → (∀ m ∈ ms, m.2.Admissible) →
    2 * t.length + 2 ≤ fuel → Ws w → Structural '\x7d' cl →
    ∃ w' o', Ws w' ∧ members fuel seen ⟨o, w ++ (t ++ (cl ++ rest))⟩ =
      .ok (Tree.memberValues ms, ⟨o', w' ++ rest⟩)

theorem space_leads {w a r : Units} {u : UInt16} {o : Nat} (hw : Ws w) (ha : Ws a)
    (hu : isSpace u = false) :
    (⟨o, w ++ (a ++ u :: r)⟩ : Cursor).space = ⟨o + (w ++ a).length, u :: r⟩ := by
  rw [← List.append_assoc]
  exact space_eq (hw.append ha) fun v hv => Option.some.inj hv ▸ hu

theorem space_bare {w r : Units} {u : UInt16} {o : Nat} (hw : Ws w) (hu : isSpace u = false) :
    (⟨o, w ++ u :: r⟩ : Cursor).space = ⟨o + w.length, u :: r⟩ :=
  space_eq hw fun _ hv => Option.some.inj hv ▸ hu

/-- A scalar is read to where the next unit cannot be part of it. -/
theorem value_of_scalar {fuel o o' : Nat} {w r rest : Units} {u : UInt16} {v : Value} (hw : Ws w)
    (hu : isSpace u = false) (hquote : u ≠ unit '\x22') (hbrace : u ≠ unit '\x7b')
    (hbracket : u ≠ unit '[') (h : scalar ⟨o + w.length, u :: r⟩ = .ok (v, ⟨o', rest⟩)) :
    ∃ w' o', Ws w' ∧ Contract.value (fuel + 1) ⟨o, w ++ u :: r⟩ = .ok (v, ⟨o', w' ++ rest⟩) := by
  refine ⟨[], o', ws_nil, ?_⟩
  rw [value_scalar (space_bare hw hu) (peek_ne hquote) (peek_ne hbrace) (peek_ne hbracket), h]
  rfl

theorem value_of_word {fuel o : Nat} {w rest word : Units} {v : Value} (hw : Ws w)
    (h : (word, v) ∈ words) :
    ∃ w' o', Ws w' ∧ Contract.value (fuel + 1) ⟨o, w ++ (word ++ rest)⟩ =
      .ok (v, ⟨o', w' ++ rest⟩) := by
  obtain ⟨o', hscalar⟩ := @scalar_word _ rest _ (o + w.length) h
  simp only [words, List.mem_cons, Prod.mk.injEq, List.not_mem_nil, or_false] at h
  rcases h with ⟨rfl, rfl⟩ | ⟨rfl, rfl⟩ | ⟨rfl, rfl⟩
  all_goals exact value_of_scalar hw (by decide) (by decide) (by decide) (by decide) hscalar

theorem leads_ne {u : UInt16} (h : isDigit u = true) :
    u ≠ unit '\x22' ∧ u ≠ unit '\x7b' ∧ u ≠ unit '[' := by
  refine ⟨?_, ?_, ?_⟩
  all_goals
    rintro rfl
    revert h
    decide

theorem value_of_isInt {fuel o : Nat} {w t rest : Units} (hw : Ws w) (hint : IsInt t)
    (hsafe : numeral t ≤ maxSafeInteger) (hends : Ends rest) :
    ∃ w' o', Ws w' ∧ Contract.value (fuel + 1) ⟨o, w ++ (t ++ rest)⟩ =
      .ok (.number (.natural (numeral t)), ⟨o', w' ++ rest⟩) := by
  obtain ⟨o', hscalar⟩ := @scalar_of_isInt _ rest (o + w.length) hint hsafe hends
  obtain ⟨d, ds, rfl⟩ : ∃ d ds, t = d :: ds := by
    rcases hint with rfl | ⟨d, ds, rfl, _⟩
    · exact ⟨_, _, rfl⟩
    · exact ⟨_, _, rfl⟩
  have hd : isDigit d = true := hint.digits d List.mem_cons_self
  obtain ⟨hquote, hbrace, hbracket⟩ := leads_ne hd
  exact value_of_scalar hw (leads_of_isDigit hd).1 hquote hbrace hbracket hscalar

section ReadStep

variable {fuel : Nat}

/-- The brackets of an array, around items that are read. -/
theorem value_of_array (o : Nat) (body rest : Units) {w op : Units} (hw : Ws w) (hop : Structural '[' op) :
    ∃ b o', Ws b ∧ Contract.value (fuel + 1) ⟨o, w ++ (op ++ (body ++ rest))⟩ =
      if (⟨o', b ++ (body ++ rest)⟩ : Cursor).space.peek = some (unit ']') then
        .ok (.array [], (⟨o', b ++ (body ++ rest)⟩ : Cursor).space.skip 1)
      else (Contract.items fuel (⟨o', b ++ (body ++ rest)⟩ : Cursor)).map
        fun p => (.array p.1, p.2) := by
  obtain ⟨b, o', hb, hspace⟩ := space_structural (by decide) hop hw
  refine ⟨b, o' + 1, hb, ?_⟩
  rw [value_array hspace rfl, items_space]
  rfl

theorem value_of_object (o : Nat) (body rest : Units) {w op : Units} (hw : Ws w)
    (hop : Structural '\x7b' op) :
    ∃ b o', Ws b ∧ Contract.value (fuel + 1) ⟨o, w ++ (op ++ (body ++ rest))⟩ =
      if (⟨o', b ++ (body ++ rest)⟩ : Cursor).space.peek = some (unit '\x7d') then
        .ok (.object [], (⟨o', b ++ (body ++ rest)⟩ : Cursor).space.skip 1)
      else (Contract.members fuel [] (⟨o', b ++ (body ++ rest)⟩ : Cursor)).map
        fun p => (.object p.1, p.2) := by
  obtain ⟨b, o', hb, hspace⟩ := space_structural (by decide) hop hw
  refine ⟨b, o' + 1, hb, ?_⟩
  rw [value_object hspace rfl, members_space]
  rfl

/-- With one level more, a value is read whose parts are. -/
theorem Reads.value_step (ih : Reads fuel) {t w rest : Units} {tree : Tree} {o : Nat}
    (h : IsValue t tree) (hadmissible : tree.Admissible) (hfuel : 2 * t.length + 1 ≤ fuel + 1)
    (hw : Ws w) (hends : Ends rest) :
    ∃ w' o', Ws w' ∧ Contract.value (fuel + 1) ⟨o, w ++ (t ++ rest)⟩ =
      .ok (tree.value, ⟨o', w' ++ rest⟩) := by
  cases h with
  | null => exact value_of_word hw (List.mem_of_getElem? (i := 2) rfl)
  | yes => exact value_of_word hw (List.mem_of_getElem? (i := 0) rfl)
  | no => exact value_of_word hw (List.mem_of_getElem? (i := 1) rfl)
  | number h =>
      cases hadmissible with
      | number hint hsafe => exact value_of_isInt hw hint hsafe hends
  | string h =>
      cases hadmissible with
      | string hvalid =>
          obtain ⟨o', hstring⟩ := @string_of_isString _ _ rest (o + w.length) h hvalid
          obtain ⟨r, rfl⟩ := h.head
          refine ⟨[], o', ws_nil, ?_⟩
          rw [List.cons_append, value_string (space_bare hw (by decide)) rfl, ← List.cons_append,
            hstring]
          rfl
  | emptyArray hop hcl =>
      obtain ⟨b, o', hb, heq⟩ := value_of_array o _ rest hw hop
      obtain ⟨b', o'', hb', hspace⟩ := @space_structural _ _ _ rest o' (by decide) hcl hb
      refine ⟨b', o'' + 1, hb', ?_⟩
      rw [List.append_assoc, heq, hspace]
      exact if_pos rfl
  | array hop h hcl =>
      cases hadmissible with
      | array hitems =>
          rename_i op t cl trees
          have hlength := hop.length_pos
          have hlength' := hcl.length_pos
          simp only [List.length_append] at hfuel
          obtain ⟨b, o', hb, heq⟩ := value_of_array o (t ++ cl) rest hw hop
          obtain ⟨w', o'', hw', hread⟩ := ih.items o' rest h hitems (by omega) hb hcl
          obtain ⟨a, u, r, ha, rfl, hu⟩ := h.head
          refine ⟨w', o'', hw', ?_⟩
          rw [List.append_assoc, heq, if_neg]
          · rw [List.append_assoc, hread]; rfl
          · rw [List.append_assoc, List.append_assoc, List.cons_append, space_leads hb ha hu.1]
            exact peek_ne hu.2.1
  | emptyObject hop hcl =>
      obtain ⟨b, o', hb, heq⟩ := value_of_object o _ rest hw hop
      obtain ⟨b', o'', hb', hspace⟩ := @space_structural _ _ _ rest o' (by decide) hcl hb
      refine ⟨b', o'' + 1, hb', ?_⟩
      rw [List.append_assoc, heq, hspace]
      exact if_pos rfl
  | object hop h hcl =>
      cases hadmissible with
      | object hkeys htexts hvalues =>
          rename_i op t cl ms
          have hlength := hop.length_pos
          have hlength' := hcl.length_pos
          simp only [List.length_append] at hfuel
          obtain ⟨b, o', hb, heq⟩ := value_of_object o (t ++ cl) rest hw hop
          obtain ⟨w', o'', hw', hread⟩ := ih.members o' rest [] h hkeys
            (fun _ _ => List.not_mem_nil) htexts hvalues (by omega) hb hcl
          obtain ⟨r, rfl⟩ := h.head
          refine ⟨w', o'', hw', ?_⟩
          rw [List.append_assoc, heq, if_neg]
          · rw [List.append_assoc, hread]; rfl
          · rw [List.append_assoc, List.cons_append, space_bare hb (by decide)]
            exact peek_ne (by decide)

theorem Reads.items_step (ih : Reads fuel) {t w cl rest : Units} {trees : List Tree} {o : Nat}
    (h : IsItems t trees) (hadmissible : ∀ tree ∈ trees, tree.Admissible)
    (hfuel : 2 * t.length + 2 ≤ fuel + 1) (hw : Ws w) (hcl : Structural ']' cl) :
    ∃ w' o', Ws w' ∧ Contract.items (fuel + 1) ⟨o, w ++ (t ++ (cl ++ rest))⟩ =
      .ok (Tree.values trees, ⟨o', w' ++ rest⟩) := by
  cases h with
  | one h =>
      obtain ⟨w₁, o₁, hw₁, hvalue⟩ := ih.value o (cl ++ rest) h
        (hadmissible _ List.mem_cons_self) (by omega) hw (hcl.ends (.inr (.inl rfl)) rest)
      obtain ⟨b, o₂, hb, hspace⟩ := @space_structural _ _ _ rest o₁ (by decide) hcl hw₁
      refine ⟨b, o₂ + 1, hb, bind_eq_ok.mpr ⟨_, hvalue, ?_⟩⟩
      show (if (⟨o₁, w₁ ++ (cl ++ rest)⟩ : Cursor).space.peek = _ then _ else _) = _
      rw [hspace]
      exact if_pos rfl
  | more h hs hrest =>
      rename_i t s t' tree trees
      have hlength := hs.length_pos
      simp only [List.length_append] at hfuel
      obtain ⟨hfirst, hothers⟩ := List.forall_mem_cons.mp hadmissible
      obtain ⟨w₁, o₁, hw₁, hvalue⟩ := ih.value o (s ++ (t' ++ (cl ++ rest))) h hfirst
        (by omega) hw (hs.ends (.inl rfl) _)
      obtain ⟨b, o₂, hb, hspace⟩ := @space_structural _ _ _ (t' ++ (cl ++ rest)) o₁
        (by decide) hs hw₁
      obtain ⟨w', o', hw', hitems⟩ := ih.items (o₂ + 1) rest hrest hothers
        (by omega) hb hcl
      refine ⟨w', o', hw', ?_⟩
      simp only [List.append_assoc]
      refine bind_eq_ok.mpr ⟨_, hvalue, ?_⟩
      show (if (⟨o₁, w₁ ++ (s ++ (t' ++ (cl ++ rest)))⟩ : Cursor).space.peek = _ then _ else _) = _
      rw [hspace, if_neg (peek_ne (by decide))]
      refine ensure_bind_eq_ok.mpr ⟨rfl, bind_eq_ok.mpr ⟨_, hitems, rfl⟩⟩

theorem Reads.members_value (ih : Reads fuel) {k key s t w rest : Units} {tree : Tree}
    {seen : List Units} {o : Nat} (hk : IsString k key) (hs : Structural ':' s)
    (h : IsValue t tree) (hvalid : validString key = true) (hadmissible : tree.Admissible)
    (hseen : key ∉ seen) (hfuel : 2 * t.length + 1 ≤ fuel) (hw : Ws w) (hends : Ends rest) :
    ∃ w₁ o₁, Ws w₁ ∧ Contract.members (fuel + 1) seen ⟨o, w ++ (k ++ (s ++ (t ++ rest)))⟩ =
      if (⟨o₁, w₁ ++ rest⟩ : Cursor).space.peek = some (unit '\x7d') then
        .ok ([(key, tree.value)], (⟨o₁, w₁ ++ rest⟩ : Cursor).space.skip 1)
      else (do
        ensure ((⟨o₁, w₁ ++ rest⟩ : Cursor).space.peek = some (unit ','))
          (((⟨o₁, w₁ ++ rest⟩ : Cursor).space.skip 1).error "expected comma")
        let p ← Contract.members fuel (key :: seen) ((⟨o₁, w₁ ++ rest⟩ : Cursor).space.skip 1)
        pure ((key, tree.value) :: p.1, p.2)) := by
  obtain ⟨o₂, hstring⟩ := @string_of_isString _ _ (s ++ (t ++ rest)) (o + w.length) hk hvalid
  obtain ⟨b, o₃, hb, hspace⟩ := @space_structural _ _ _ (t ++ rest) o₂ (by decide) hs ws_nil
  rw [List.nil_append] at hspace
  obtain ⟨w₁, o₁, hw₁, hvalue⟩ := ih.value (o₃ + 1) rest h hadmissible hfuel hb hends
  have hskip : (⟨o₃, unit ':' :: (b ++ (t ++ rest))⟩ : Cursor).skip 1 =
      ⟨o₃ + 1, b ++ (t ++ rest)⟩ := rfl
  have hquote : ∃ r, k ++ (s ++ (t ++ rest)) = unit '\x22' :: r := by
    obtain ⟨r, rfl⟩ := hk.head
    exact ⟨_, rfl⟩
  obtain ⟨r, hr⟩ := hquote
  have hfirst : (⟨o, w ++ (k ++ (s ++ (t ++ rest)))⟩ : Cursor).space =
      ⟨o + w.length, k ++ (s ++ (t ++ rest))⟩ := by
    rw [hr]
    exact space_bare hw (by decide)
  have hpeek : (⟨o + w.length, k ++ (s ++ (t ++ rest))⟩ : Cursor).peek = some (unit '\x22') := by
    rw [hr]
    rfl
  refine ⟨w₁, o₁, hw₁, ?_⟩
  rw [Contract.members, hfirst]
  simp only [ensure, if_pos hpeek, if_pos hseen, hstring, hspace, hskip, hvalue, pure_bind, ok_bind]
  rw [if_pos (peek_cons _ _ _)]
  rfl

theorem Reads.members_step (ih : Reads fuel) {t w cl rest : Units} {ms : List (Units × Tree)}
    {seen : List Units} {o : Nat} (h : IsMembers t ms) (hkeys : (ms.map Prod.fst).Nodup)
    (hseen : ∀ m ∈ ms, m.1 ∉ seen) (htexts : ∀ m ∈ ms, validString m.1 = true)
    (hvalues : ∀ m ∈ ms, m.2.Admissible) (hfuel : 2 * t.length + 2 ≤ fuel + 1) (hw : Ws w)
    (hcl : Structural '\x7d' cl) :
    ∃ w' o', Ws w' ∧ Contract.members (fuel + 1) seen ⟨o, w ++ (t ++ (cl ++ rest))⟩ =
      .ok (Tree.memberValues ms, ⟨o', w' ++ rest⟩) := by
  cases h with
  | one hk hs h =>
      simp only [List.length_append] at hfuel
      obtain ⟨w₁, o₁, hw₁, heq⟩ := ih.members_value (o := o) hk hs h
        (htexts _ List.mem_cons_self) (hvalues _ List.mem_cons_self)
        (hseen _ List.mem_cons_self) (by omega) hw (hcl.ends (.inr (.inr rfl)) rest)
      obtain ⟨b, o₂, hb, hspace⟩ := @space_structural _ _ _ rest o₁ (by decide) hcl hw₁
      refine ⟨b, o₂ + 1, hb, ?_⟩
      simp only [List.append_assoc]
      rw [heq, hspace]
      exact if_pos rfl
  | more hk hs h hs' hrest =>
      rename_i k key s t s' t' tree ms
      have hlength := hs.length_pos
      have hlength' := hs'.length_pos
      simp only [List.length_append] at hfuel
      rw [List.map_cons, List.nodup_cons] at hkeys
      obtain ⟨htext, htexts⟩ := List.forall_mem_cons.mp htexts
      obtain ⟨hvalue, hvalues⟩ := List.forall_mem_cons.mp hvalues
      obtain ⟨hfresh, hseen⟩ := List.forall_mem_cons.mp hseen
      obtain ⟨w₁, o₁, hw₁, heq⟩ := ih.members_value (o := o) hk hs h htext hvalue hfresh
        (by omega) hw (hs'.ends (.inl rfl) (t' ++ (cl ++ rest)))
      obtain ⟨b, o₂, hb, hspace⟩ := @space_structural _ _ _ (t' ++ (cl ++ rest)) o₁
        (by decide) hs' hw₁
      have hunseen : ∀ m ∈ ms, m.1 ∉ key :: seen := fun m hm hmem => by
        rcases List.mem_cons.mp hmem with heq | hmem
        · exact hkeys.1 (heq ▸ List.mem_map.mpr ⟨m, hm, rfl⟩)
        · exact hseen m hm hmem
      obtain ⟨w', o', hw', hmembers⟩ := ih.members (o₂ + 1) rest (key :: seen) hrest hkeys.2
        hunseen htexts hvalues (by omega) hb hcl
      refine ⟨w', o', hw', ?_⟩
      simp only [List.append_assoc]
      rw [heq, hspace, if_neg (peek_ne (by decide))]
      exact ensure_bind_eq_ok.mpr ⟨rfl, bind_eq_ok.mpr ⟨_, hmembers, rfl⟩⟩

end ReadStep

/-- **Whatever can be derived at the cursor is read.** -/
theorem reads (fuel : Nat) : Reads fuel := by
  induction fuel with
  | zero =>
      exact ⟨fun _ _ _ _ _ _ _ h => by omega, fun _ _ _ _ _ _ _ _ h => by omega,
        fun _ _ _ _ _ _ _ _ _ _ _ _ h => by omega⟩
  | succ fuel ih =>
      exact ⟨fun _ _ _ _ _ h ha hf hw he => ih.value_step h ha hf hw he,
        fun _ _ _ _ _ _ h ha hf hw hcl => ih.items_step h ha hf hw hcl,
        fun _ _ _ _ _ _ _ h hk hs ht hv hf hw hcl => ih.members_step h hk hs ht hv hf hw hcl⟩

/-! ### What is read is a derivation -/

/-- What a call has read that returns. -/
structure Derives (fuel : Nat) : Prop where
  value : ∀ {c c' : Cursor} {v : Value}, value fuel c = .ok (v, c') →
    ∃ w t tree, Ws w ∧ IsValue t tree ∧ tree.Admissible ∧ tree.value = v ∧
      c.rest = w ++ (t ++ c'.rest)
  items : ∀ {c c' : Cursor} {vs : List Value}, items fuel c = .ok (vs, c') →
    ∃ w t cl trees, Ws w ∧ IsItems t trees ∧ (∀ tree ∈ trees, tree.Admissible) ∧
      Tree.values trees = vs ∧ Structural ']' cl ∧ c.rest = w ++ (t ++ (cl ++ c'.rest))
  members : ∀ {c c' : Cursor} {seen : List Units} {ms : List (Units × Value)},
    members fuel seen c = .ok (ms, c') →
    ∃ w t cl trees, Ws w ∧ IsMembers t trees ∧ (trees.map Prod.fst).Nodup ∧
      (∀ m ∈ trees, m.1 ∉ seen) ∧ (∀ m ∈ trees, validString m.1 = true) ∧
      (∀ m ∈ trees, m.2.Admissible) ∧ Tree.memberValues trees = ms ∧ Structural '\x7d' cl ∧
      c.rest = w ++ (t ++ (cl ++ c'.rest))

section DeriveStep

variable {fuel : Nat}

/-- With one level more, what is read has a derivation. -/
theorem Derives.value_step (ih : Derives fuel) {c c' : Cursor} {v : Value}
    (h : Contract.value (fuel + 1) c = .ok (v, c')) :
    ∃ w t tree, Ws w ∧ IsValue t tree ∧ tree.Admissible ∧ tree.value = v ∧
      c.rest = w ++ (t ++ c'.rest) := by
  obtain ⟨w, hw, hc, -⟩ := space_spec c
  by_cases hquote : c.space.peek = some (unit '\x22')
  · rw [value_string rfl hquote] at h
    obtain ⟨⟨s, next⟩, hstring, h⟩ := map_eq_ok.mp h
    cases h
    obtain ⟨t, ht, hvalid, hrest⟩ := string_ok hstring
    exact ⟨w, t, _, hw, .string ht, .string hvalid, rfl, by rw [hc, hrest]⟩
  by_cases hbrace : c.space.peek = some (unit '\x7b')
  · rw [value_object rfl hbrace] at h
    obtain ⟨b, hb, hskip, -⟩ := space_spec (c.space.skip 1)
    have hop : Structural '\x7b' (unit '\x7b' :: b) := ⟨[], b, ws_nil, hb, rfl⟩
    split_ifs at h with hclose
    · cases h
      refine ⟨w, (unit '\x7b' :: b) ++ [unit '\x7d'], _, hw,
        .emptyObject hop ⟨[], [], ws_nil, ws_nil, rfl⟩, .object .nil ?_ ?_, rfl, ?_⟩
      · exact fun _ h => absurd h List.not_mem_nil
      · exact fun _ h => absurd h List.not_mem_nil
      · rw [hc, rest_of_peek hbrace, hskip, rest_of_peek hclose]
        simp only [List.cons_append, List.append_assoc, List.nil_append]
    · obtain ⟨⟨ms, next⟩, hmembers, h⟩ := map_eq_ok.mp h
      cases h
      obtain ⟨w', t, cl, trees, hw', ht, hkeys, -, htexts, hvalues, rfl, hcl, hrest⟩ :=
        ih.members hmembers
      refine ⟨w, (unit '\x7b' :: (b ++ w')) ++ (t ++ cl), _, hw,
        .object ⟨[], b ++ w', ws_nil, hb.append hw', rfl⟩ ht hcl,
        .object hkeys htexts hvalues, rfl, ?_⟩
      rw [hc, rest_of_peek hbrace, hskip, hrest]
      simp only [List.cons_append, List.append_assoc]
  by_cases hbracket : c.space.peek = some (unit '[')
  · rw [value_array rfl hbracket] at h
    obtain ⟨b, hb, hskip, -⟩ := space_spec (c.space.skip 1)
    have hop : Structural '[' (unit '[' :: b) := ⟨[], b, ws_nil, hb, rfl⟩
    split_ifs at h with hclose
    · cases h
      refine ⟨w, (unit '[' :: b) ++ [unit ']'], _, hw,
        .emptyArray hop ⟨[], [], ws_nil, ws_nil, rfl⟩, .array ?_, rfl, ?_⟩
      · exact fun _ h => absurd h List.not_mem_nil
      · rw [hc, rest_of_peek hbracket, hskip, rest_of_peek hclose]
        simp only [List.cons_append, List.append_assoc, List.nil_append]
    · obtain ⟨⟨vs, next⟩, hitems, h⟩ := map_eq_ok.mp h
      cases h
      obtain ⟨w', t, cl, trees, hw', ht, hadmissible, rfl, hcl, hrest⟩ := ih.items hitems
      refine ⟨w, (unit '[' :: (b ++ w')) ++ (t ++ cl), _, hw,
        .array ⟨[], b ++ w', ws_nil, hb.append hw', rfl⟩ ht hcl, .array hadmissible, rfl, ?_⟩
      rw [hc, rest_of_peek hbracket, hskip, hrest]
      simp only [List.cons_append, List.append_assoc]
  · rw [value_scalar rfl hquote hbrace hbracket] at h
    obtain ⟨t, tree, ht, hadmissible, rfl, hrest⟩ := scalar_ok h
    exact ⟨w, t, tree, hw, ht, hadmissible, rfl, by rw [hc, hrest]⟩

theorem Derives.items_step (ih : Derives fuel) {c c' : Cursor} {vs : List Value}
    (h : Contract.items (fuel + 1) c = .ok (vs, c')) :
    ∃ w t cl trees, Ws w ∧ IsItems t trees ∧ (∀ tree ∈ trees, tree.Admissible) ∧
      Tree.values trees = vs ∧ Structural ']' cl ∧ c.rest = w ++ (t ++ (cl ++ c'.rest)) := by
  obtain ⟨⟨v, c₁⟩, hvalue, h⟩ := bind_eq_ok.mp h
  obtain ⟨w, t, tree, hw, ht, hadmissible, rfl, hrest⟩ := ih.value hvalue
  obtain ⟨a, ha, hspace, -⟩ := space_spec c₁
  change (if c₁.space.peek = _ then _ else _) = _ at h
  by_cases hclose : c₁.space.peek = some (unit ']')
  · rw [if_pos hclose] at h
    cases h
    refine ⟨w, t, a ++ [unit ']'], [tree], hw, .one ht, ?_, rfl, ⟨a, [], ha, ws_nil, rfl⟩, ?_⟩
    · exact fun _ hmem => List.mem_singleton.mp hmem ▸ hadmissible
    · rw [hrest, hspace, rest_of_peek hclose]
      simp only [List.append_assoc, List.cons_append, List.nil_append]
  · rw [if_neg hclose] at h
    obtain ⟨hcomma, h⟩ := ensure_bind_eq_ok.mp h
    obtain ⟨⟨vs', c₂⟩, hitems, h⟩ := bind_eq_ok.mp h
    cases h
    obtain ⟨w', t', cl, trees, hw', ht', hadmissible', rfl, hcl, hrest'⟩ := ih.items hitems
    refine ⟨w, t ++ ((a ++ unit ',' :: w') ++ t'), cl, tree :: trees, hw,
      .more ht ⟨a, w', ha, hw', rfl⟩ ht', List.forall_mem_cons.mpr ⟨hadmissible, hadmissible'⟩,
      rfl, hcl, ?_⟩
    rw [hrest, hspace, rest_of_peek hcomma, hrest']
    simp only [List.append_assoc, List.cons_append]

theorem Derives.members_step (ih : Derives fuel) {c c' : Cursor} {seen : List Units}
    {ms : List (Units × Value)} (h : Contract.members (fuel + 1) seen c = .ok (ms, c')) :
    ∃ w t cl trees, Ws w ∧ IsMembers t trees ∧ (trees.map Prod.fst).Nodup ∧
      (∀ m ∈ trees, m.1 ∉ seen) ∧ (∀ m ∈ trees, validString m.1 = true) ∧
      (∀ m ∈ trees, m.2.Admissible) ∧ Tree.memberValues trees = ms ∧ Structural '\x7d' cl ∧
      c.rest = w ++ (t ++ (cl ++ c'.rest)) := by
  obtain ⟨w, hw, hc, -⟩ := space_spec c
  obtain ⟨-, h⟩ := ensure_bind_eq_ok.mp h
  obtain ⟨⟨key, c₁⟩, hstring, h⟩ := bind_eq_ok.mp h
  obtain ⟨k, hk, hvalid, hrest₁⟩ := string_ok hstring
  obtain ⟨hseen, h⟩ := ensure_bind_eq_ok.mp h
  obtain ⟨a, ha, hspace₁, -⟩ := space_spec c₁
  obtain ⟨hcolon, h⟩ := ensure_bind_eq_ok.mp h
  obtain ⟨⟨v, c₂⟩, hvalue, h⟩ := bind_eq_ok.mp h
  obtain ⟨b, t, tree, hb, ht, hadmissible, rfl, hrest₂⟩ := ih.value hvalue
  obtain ⟨a', ha', hspace₂, -⟩ := space_spec c₂
  change (if c₂.space.peek = _ then _ else _) = _ at h
  have hs : Structural ':' (a ++ unit ':' :: b) := ⟨a, b, ha, hb, rfl⟩
  by_cases hclose : c₂.space.peek = some (unit '\x7d')
  · rw [if_pos hclose] at h
    cases h
    refine ⟨w, k ++ ((a ++ unit ':' :: b) ++ t), a' ++ [unit '\x7d'], [(key, tree)], hw,
      .one hk hs ht, List.nodup_singleton _, ?_, ?_, ?_, rfl, ⟨a', [], ha', ws_nil, rfl⟩, ?_⟩
    · exact fun _ hmem => List.mem_singleton.mp hmem ▸ hseen
    · exact fun _ hmem => List.mem_singleton.mp hmem ▸ hvalid
    · exact fun _ hmem => List.mem_singleton.mp hmem ▸ hadmissible
    · rw [hc, hrest₁, hspace₁, rest_of_peek hcolon, hrest₂, hspace₂, rest_of_peek hclose]
      simp only [List.append_assoc, List.cons_append, List.nil_append]
  · rw [if_neg hclose] at h
    obtain ⟨hcomma, h⟩ := ensure_bind_eq_ok.mp h
    obtain ⟨⟨ms', c₃⟩, hmembers, h⟩ := bind_eq_ok.mp h
    cases h
    obtain ⟨w', t', cl, trees, hw', ht', hkeys, hunseen, htexts, hvalues, rfl, hcl, hrest₃⟩ :=
      ih.members hmembers
    have hfresh : key ∉ trees.map Prod.fst := fun hmem => by
      obtain ⟨m, hm, rfl⟩ := List.mem_map.mp hmem
      exact hunseen m hm List.mem_cons_self
    refine ⟨w, k ++ ((a ++ unit ':' :: b) ++ (t ++ ((a' ++ unit ',' :: w') ++ t'))), cl,
      (key, tree) :: trees, hw, .more hk hs ht ⟨a', w', ha', hw', rfl⟩ ht',
      List.nodup_cons.mpr ⟨hfresh, hkeys⟩, ?_, ?_, ?_, rfl, hcl, ?_⟩
    · exact List.forall_mem_cons.mpr
        ⟨hseen, fun m hm hmem => hunseen m hm (List.mem_cons_of_mem _ hmem)⟩
    · exact List.forall_mem_cons.mpr ⟨hvalid, htexts⟩
    · exact List.forall_mem_cons.mpr ⟨hadmissible, hvalues⟩
    · rw [hc, hrest₁, hspace₁, rest_of_peek hcolon, hrest₂, hspace₂, rest_of_peek hcomma, hrest₃]
      simp only [List.append_assoc, List.cons_append]

end DeriveStep

/-- **Whatever is read can be derived.** -/
theorem derives (fuel : Nat) : Derives fuel := by
  induction fuel with
  | zero => exact ⟨(fun h => by cases h), (fun h => by cases h), (fun h => by cases h)⟩
  | succ fuel ih => exact ⟨ih.value_step, ih.items_step, ih.members_step⟩

/-! ### Whole texts -/

/-- No text begins with a mark of byte order. -/
theorem IsJson.head_ne_bom {s : Units} {tree : Tree} (h : IsJson s tree) :
    s.head? ≠ some 0xFEFF := by
  obtain ⟨a, t, b, ha, -, rfl, ht⟩ := h
  obtain ⟨a', u, r, ha', rfl, hu⟩ := ht.head
  have hall : ∀ u ∈ [unit ' ', unit '\t', unit '\n', unit '\r'], u ≠ 0xFEFF :=
    List.all_iff_forall_prop.mp (by decide)
  rw [List.append_assoc, ← List.append_assoc]
  cases hlead : a ++ a' with
  | nil => exact fun heq => hu.2.2.2 (Option.some.inj heq)
  | cons v lead =>
      have hv : v ∈ a ++ a' := hlead ▸ List.mem_cons_self
      exact fun heq => hall v (ha.append ha' v hv) (Option.some.inj heq)

/-- **The parser accepts the texts of the grammar that the contract admits, and no others.** -/
theorem parseText_eq_ok {s : Units} {v : Value} :
    parseText s = .ok v ↔ ∃ tree, IsJson s tree ∧ tree.Admissible ∧ tree.value = v := by
  constructor
  · intro h
    obtain ⟨-, h⟩ := ensure_bind_eq_ok.mp h
    obtain ⟨⟨v', c⟩, hvalue, h⟩ := bind_eq_ok.mp h
    obtain ⟨hend, h⟩ := ensure_bind_eq_ok.mp h
    cases h
    obtain ⟨w, t, tree, hw, ht, hadmissible, hv, hrest⟩ := (derives _).value hvalue
    obtain ⟨b, hb, hspace, -⟩ := space_spec c
    rw [hend, List.append_nil] at hspace
    exact ⟨tree, ⟨w, t, b, hw, hb, by rw [← hspace]; exact hrest, ht⟩, hadmissible, hv⟩
  · rintro ⟨tree, hjson, hadmissible, rfl⟩
    have hbom := hjson.head_ne_bom
    obtain ⟨w, t, b, hw, hb, rfl, ht⟩ := hjson
    have hends : Ends b := fun u hu => .inl (isSpace_iff.mpr (hb u (List.mem_of_mem_head? hu)))
    have hfuel : 2 * t.length + 1 ≤ 2 * (w ++ (t ++ b)).length + 2 := by
      simp only [List.length_append]
      omega
    obtain ⟨w', o', hw', hvalue⟩ := (reads _).value 0 b ht hadmissible hfuel hw hends
    have hspace := @space_eq o' _ [] (hw'.append hb) fun u hu => by cases hu
    rw [List.append_nil] at hspace
    refine ensure_bind_eq_ok.mpr ⟨hbom, bind_eq_ok.mpr ⟨_, hvalue, ?_⟩⟩
    exact ensure_bind_eq_ok.mpr ⟨congrArg Cursor.rest hspace, rfl⟩

end Baleyg.Contract
