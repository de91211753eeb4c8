/-
The tokens the parser reads are those of the grammar.

For white space, strings and numbers there are two statements each: what the parser takes for a
token is one, and a token that stands at the cursor is what the parser takes.  A string is read
twice, by a loop that looks for its end and by the standard parser that reads its escapes; both
follow the same three kinds of characters.
-/
import Mathlib.Data.Bool.AllAny
import Mathlib.Data.List.TakeWhile
import Baleyg.Contract.Grammar
import Baleyg.Lib.Lookup

namespace Baleyg.Contract

open Fallible (bind_eq_ok ensure_bind_eq_ok ensure_eq_ok)

/-! ### White space -/

theorem isSpace_iff {u : UInt16} :
    isSpace u = true ↔ u ∈ [unit ' ', unit '\t', unit '\n', unit '\r'] := by
  unfold isSpace
  simp only [Bool.or_eq_true, beq_iff_eq, List.mem_cons, List.not_mem_nil, or_false, or_assoc]

theorem ws_nil : Ws [] := fun _ hu => absurd hu List.not_mem_nil

theorem Ws.append {a b : Units} (ha : Ws a) (hb : Ws b) : Ws (a ++ b) := fun u hu =>
  (List.mem_append.mp hu).elim (ha u) (hb u)

/-- What may not be taken for white space. -/
def Dark (s : Units) : Prop := ∀ u ∈ s.head?, isSpace u = false

/-- `space` skips the white space at the cursor and nothing else. -/
theorem space_eq {o : Nat} {w r : Units} (hw : Ws w) (hr : Dark r) :
    (⟨o, w ++ r⟩ : Cursor).space = ⟨o + w.length, r⟩ := by
  have htake : (w ++ r).takeWhile isSpace = w := by
    rw [List.takeWhile_append_of_pos fun u hu => isSpace_iff.mpr (hw u hu)]
    cases r with
    | nil => rw [List.takeWhile_nil, List.append_nil]
    | cons u r => rw [List.takeWhile_cons, hr u rfl, if_neg Bool.false_ne_true, List.append_nil]
  unfold Cursor.space Cursor.skip
  rw [htake, List.drop_left]

theorem space_spec (c : Cursor) : ∃ w, Ws w ∧ c.rest = w ++ c.space.rest ∧ Dark c.space.rest := by
  have hrest : c.space.rest = c.rest.dropWhile isSpace := by
    show c.rest.drop (c.rest.takeWhile isSpace).length = _
    generalize c.rest = s
    induction s with
    | nil => rfl
    | cons u s ih =>
        cases hu : isSpace u with
        | true => rw [List.takeWhile_cons, List.dropWhile_cons, hu, if_pos rfl, if_pos rfl,
            List.length_cons, List.drop_succ_cons, ih]
        | false => rw [List.takeWhile_cons, List.dropWhile_cons, hu, if_neg Bool.false_ne_true,
            if_neg Bool.false_ne_true, List.length_nil, List.drop_zero]
  refine ⟨c.rest.takeWhile isSpace, fun u hu => ?_, ?_, fun u hu => ?_⟩
  · exact isSpace_iff.mp (List.mem_takeWhile_imp hu)
  · rw [hrest, List.takeWhile_append_dropWhile]
  · rw [hrest] at hu
    have hhead := List.head?_dropWhile_not isSpace c.rest
    rw [hu] at hhead
    simpa using hhead

/-! ### Strings -/

theorem mapM_eq_some {α β : Type} {f : α → Option β} {xs : List α} {ys : List β} :
    xs.mapM f = some ys ↔ List.Forall₂ (fun x y => f x = some y) xs ys := by
  induction xs generalizing ys with
  | nil =>
      rw [List.mapM_nil, List.forall₂_nil_left_iff]
      exact ⟨fun h => (Option.some.inj h).symm, fun h => h ▸ rfl⟩
  | cons x xs ih =>
      rw [List.mapM_cons, List.forall₂_cons_left_iff]
      constructor
      · intro h
        obtain ⟨y, hy, h⟩ := Option.bind_eq_some_iff.mp h
        obtain ⟨ys', hys, h⟩ := Option.bind_eq_some_iff.mp h
        exact ⟨y, ys', hy, ih.mp hys, (Option.some.inj h).symm⟩
      · rintro ⟨y, ys', hy, hys, rfl⟩
        exact Option.bind_eq_some_iff.mpr ⟨y, hy, Option.bind_eq_some_iff.mpr ⟨ys', ih.mpr hys, rfl⟩⟩

theorem hexUnit_eq_some {digits : Units} {u : UInt16} :
    hexUnit digits = some u ↔ ∃ values, List.Forall₂ (fun d n => hexValue d = some n) digits values ∧
      u = UInt16.ofNat (values.foldl (fun n d => 16 * n + d) 0) := by
  unfold hexUnit
  rw [Option.bind_eq_bind, Option.bind_eq_some_iff]
  constructor
  · rintro ⟨values, hvalues, h⟩
    exact ⟨values, mapM_eq_some.mp hvalues, (Option.some.inj h).symm⟩
  · rintro ⟨values, hvalues, rfl⟩
    exact ⟨values, mapM_eq_some.mpr hvalues, rfl⟩

theorem isHex_of_values {digits : Units} {values : List Nat}
    (h : List.Forall₂ (fun d n => hexValue d = some n) digits values) : digits.all isHex = true := by
  rw [List.all_eq_true]
  intro d hd
  obtain ⟨n, -, hn⟩ := Fallible.exists_of_forall₂_left h hd
  unfold isHex
  rw [hn]
  rfl

theorem values_of_isHex {digits : Units} (h : digits.all isHex = true) :
    ∃ values, List.Forall₂ (fun d n => hexValue d = some n) digits values := by
  induction digits with
  | nil => exact ⟨[], .nil⟩
  | cons d ds ih =>
      rw [List.all_cons, Bool.and_eq_true] at h
      obtain ⟨n, hn⟩ := Option.isSome_iff_exists.mp h.1
      obtain ⟨values, hvalues⟩ := ih h.2
      exact ⟨n :: values, .cons hn hvalues⟩

theorem lookup_simpleEscapes {e u : UInt16} :
    (e, u) ∈ simpleEscapes ↔ simpleEscapes.lookup e = some u := by
  refine ⟨fun h => ?_, Lookup.mem_of_lookup⟩
  have hall : ∀ entry ∈ simpleEscapes, simpleEscapes.lookup entry.1 = some entry.2 :=
    List.all_iff_forall_prop.mp (by decide)
  exact hall _ h

theorem ne_u_of_lookup {e u : UInt16} (h : simpleEscapes.lookup e = some u) : e ≠ unit 'u' := by
  rintro rfl
  cases h

section Unescape

variable {c e u a b d f : UInt16} {rest : Units}

theorem unescape_unicode (h : hexUnit [a, b, d, f] = some u) :
    unescape (unit '\x5c' :: unit 'u' :: a :: b :: d :: f :: rest) =
      (unescape rest).bind fun s => some (u :: s) := by
  conv => lhs; unfold unescape
  rw [if_pos rfl]
  show (hexUnit [a, b, d, f]).bind _ = _
  rw [h]
  rfl

theorem unescape_simple (h : simpleEscapes.lookup e = some u) :
    unescape (unit '\x5c' :: e :: rest) = (unescape rest).bind fun s => some (u :: s) := by
  conv => lhs; unfold unescape
  rw [if_pos rfl]
  show (if e = unit 'u' then _ else _) = _
  rw [if_neg (ne_u_of_lookup h), h]
  rfl

theorem unescape_plain (hback : c ≠ unit '\x5c') (hquote : c ≠ unit '\x22') (hc : ¬ c.toNat < 32) :
    unescape (c :: rest) = (unescape rest).bind fun s => some (c :: s) := by
  conv => lhs; unfold unescape
  rw [if_neg hback, if_neg (not_or.mpr ⟨hquote, hc⟩)]
  rfl

end Unescape

theorem unescape_of_chars {raw s : Units} (h : Chars raw s) : unescape raw = some s := by
  induction h with
  | nil => rfl
  | unescaped hu hquote hback _ ih => rw [unescape_plain hback hquote (by omega), ih]; rfl
  | escaped he _ ih => rw [unescape_simple (lookup_simpleEscapes.mp he), ih]; rfl
  | unicode hlength hvalues _ ih =>
      obtain ⟨a, b, d, f, rfl⟩ := List.length_eq_four.mp hlength
      simp only [List.cons_append, List.nil_append]
      rw [unescape_unicode (hexUnit_eq_some.mpr ⟨_, hvalues, rfl⟩), ih]
      rfl

section Scan

variable {i : Nat} {c e a b d f : UInt16} {rest : Units}

theorem scan_quote : scan i (unit '\x22' :: rest) = .ok ([], ⟨i + 1, rest⟩) := by
  unfold scan
  rw [if_pos rfl]
  rfl

theorem scan_unicode (h : [a, b, d, f].all isHex = true) :
    scan i (unit '\x5c' :: unit 'u' :: a :: b :: d :: f :: rest) = (scan (i + 6) rest).map fun p =>
      (unit '\x5c' :: unit 'u' :: a :: b :: d :: f :: p.1, p.2) := by
  conv => lhs; unfold scan
  rw [if_neg (by decide), if_pos rfl]
  show (if [a, b, d, f].all isHex = true then _ else _) = _
  rw [if_pos h]
  cases scan (i + 6) rest <;> rfl

theorem scan_simple (hne : e ≠ unit 'u') (h : (simpleEscapes.lookup e).isSome = true) :
    scan i (unit '\x5c' :: e :: rest) = (scan (i + 2) rest).map fun p =>
      (unit '\x5c' :: e :: p.1, p.2) := by
  conv => lhs; unfold scan
  rw [if_neg (by decide), if_pos rfl]
  show (if e = unit 'u' then _ else _) = _
  rw [if_neg hne, if_pos h]
  cases scan (i + 2) rest <;> rfl

theorem scan_plain (hquote : c ≠ unit '\x22') (hback : c ≠ unit '\x5c') (hc : ¬ c.toNat < 32) :
    scan i (c :: rest) = (scan (i + 1) rest).map fun p => (c :: p.1, p.2) := by
  conv => lhs; unfold scan
  rw [if_neg hquote, if_neg hback, if_neg hc]
  cases scan (i + 1) rest <;> rfl

theorem scan_of_chars {raw s : Units} (h : Chars raw s) :
    ∃ o, scan i (raw ++ unit '\x22' :: rest) = .ok (raw, ⟨o, rest⟩) := by
  induction h generalizing i with
  | nil => exact ⟨_, scan_quote⟩
  | unescaped hu hquote hback _ ih =>
      obtain ⟨o, hscan⟩ := @ih (i + 1)
      rw [List.cons_append, scan_plain hquote hback (by omega), hscan]
      exact ⟨o, rfl⟩
  | escaped he _ ih =>
      have hlookup := lookup_simpleEscapes.mp he
      obtain ⟨o, hscan⟩ := @ih (i + 2)
      rw [List.cons_append, List.cons_append,
        scan_simple (ne_u_of_lookup hlookup) (by rw [hlookup]; rfl), hscan]
      exact ⟨o, rfl⟩
  | unicode hlength hvalues _ ih =>
      have hhex := isHex_of_values hvalues
      obtain ⟨o, hscan⟩ := @ih (i + 6)
      obtain ⟨a, b, d, f, rfl⟩ := List.length_eq_four.mp hlength
      simp only [List.cons_append, List.nil_append]
      rw [scan_unicode hhex, hscan]
      exact ⟨o, rfl⟩

theorem map_eq_ok {ε α β : Type} {x : Except ε α} {g : α → β} {y : β} :
    x.map g = .ok y ↔ ∃ z, x = .ok z ∧ g z = y := by
  cases x with
  | error e =>
      constructor
      · intro h; cases h
      · rintro ⟨z, h, -⟩
        cases h
  | ok z =>
      constructor
      · intro h; exact ⟨z, rfl, Except.ok.inj h⟩
      · rintro ⟨_, h, rfl⟩
        cases h
        rfl

theorem scan_ok {raw src : Units} {next : Cursor} (h : scan i src = .ok (raw, next)) :
    (∃ s, Chars raw s) ∧ src = raw ++ unit '\x22' :: next.rest := by
  induction i, src using scan.induct generalizing raw next with
  | case1 => cases h
  | case2 i rest =>
      rw [scan_quote] at h
      cases h
      exact ⟨⟨[], .nil⟩, rfl⟩
  | case4 i a b d f rest hhex _ ih =>
      rw [scan_unicode hhex] at h
      obtain ⟨⟨raw, next⟩, hscan, h⟩ := map_eq_ok.mp h
      cases h
      obtain ⟨⟨s, hs⟩, rfl⟩ := ih hscan
      obtain ⟨values, hvalues⟩ := values_of_isHex hhex
      exact ⟨⟨_, .unicode rfl hvalues hs⟩, rfl⟩
  | case7 i e rest hne hlookup _ ih =>
      rw [scan_simple hne hlookup] at h
      obtain ⟨⟨raw, next⟩, hscan, h⟩ := map_eq_ok.mp h
      cases h
      obtain ⟨⟨s, hs⟩, rfl⟩ := ih hscan
      obtain ⟨u, hu⟩ := Option.isSome_iff_exists.mp hlookup
      exact ⟨⟨_, .escaped (lookup_simpleEscapes.mpr hu) hs⟩, rfl⟩
  | case10 i c rest hquote hback hc ih =>
      rw [scan_plain hquote hback hc] at h
      obtain ⟨⟨raw, next⟩, hscan, h⟩ := map_eq_ok.mp h
      cases h
      obtain ⟨⟨s, hs⟩, rfl⟩ := ih hscan
      exact ⟨⟨_, .unescaped (by omega) hquote hback hs⟩, rfl⟩
  -- the loop raises
  | case3 i hne =>
      unfold scan at h
      cases h
  | case5 i a b d f rest hhex _ =>
      unfold scan at h
      rw [if_neg (by decide), if_pos rfl] at h
      simp only [if_true] at h
      rw [if_neg hhex] at h
      cases h
  | case6 i rest hshort _ =>
      unfold scan at h
      rw [if_neg (by decide), if_pos rfl] at h
      simp only [if_true] at h
      cases h
  | case8 i e rest hne hlookup _ =>
      unfold scan at h
      rw [if_neg (by decide), if_pos rfl] at h
      simp only [if_neg hne, if_neg hlookup] at h
      cases h
  | case9 i c rest hquote hback hc =>
      unfold scan at h
      rw [if_neg hquote, if_neg hback, if_pos hc] at h
      cases h

end Scan

/-- **What `string` reads is a string of the grammar.** -/
theorem string_ok {c next : Cursor} {s : Units} (h : string c = .ok (s, next)) :
    ∃ t, IsString t s ∧ validString s = true ∧ c.rest = t ++ next.rest := by
  obtain ⟨hpeek, h⟩ := ensure_bind_eq_ok.mp h
  obtain ⟨⟨raw, last⟩, hscan, h⟩ := bind_eq_ok.mp h
  obtain ⟨⟨s', hs'⟩, hrest⟩ := scan_ok hscan
  simp only [unescape_of_chars hs'] at h
  obtain ⟨hvalid, h⟩ := ensure_bind_eq_ok.mp h
  cases h
  refine ⟨_, ⟨raw, rfl, hs'⟩, hvalid, ?_⟩
  rw [← List.cons_head?_tail hpeek, ← List.drop_one, hrest, List.cons_append, List.append_assoc]
  rfl

/-- **A string of the grammar is read.** -/
theorem string_of_isString {t s rest : Units} {o : Nat} (h : IsString t s)
    (hvalid : validString s = true) : ∃ o', string ⟨o, t ++ rest⟩ = .ok (s, ⟨o', rest⟩) := by
  obtain ⟨raw, rfl, hchars⟩ := h
  obtain ⟨o', hscan⟩ := @scan_of_chars (o + 1) rest raw s hchars
  refine ⟨o', ensure_bind_eq_ok.mpr ⟨rfl, bind_eq_ok.mpr ⟨(raw, ⟨o', rest⟩), ?_, ?_⟩⟩⟩
  · rw [← hscan]
    simp only [List.cons_append, List.append_assoc, List.nil_append, List.drop_succ_cons,
      List.drop_zero]
  · simp only [unescape_of_chars hchars]
    exact ensure_bind_eq_ok.mpr ⟨hvalid, rfl⟩

theorem IsString.head {t s : Units} (h : IsString t s) : ∃ rest, t = unit '\x22' :: rest := by
  obtain ⟨raw, rfl, -⟩ := h
  exact ⟨_, rfl⟩

/-! ### Numbers -/

/-- What may stand behind a number. -/
def Ends (s : Units) : Prop :=
  ∀ u ∈ s.head?, isSpace u = true ∨ u = unit ',' ∨ u = unit ']' ∨ u = unit '\x7d'

theorem Ends.head {s : Units} (h : Ends s) {u : UInt16} (hu : s.head? = some u) :
    isDigit u = false ∧ u ≠ unit '.' ∧ u ≠ unit 'e' ∧ u ≠ unit 'E' := by
  have hall : ∀ u ∈ [unit ' ', unit '\t', unit '\n', unit '\r', unit ',', unit ']', unit '\x7d'],
      isDigit u = false ∧ u ≠ unit '.' ∧ u ≠ unit 'e' ∧ u ≠ unit 'E' :=
    List.all_iff_forall_prop.mp (by decide)
  refine hall u ?_
  rcases h u hu with hspace | rfl | rfl | rfl
  · exact List.mem_append_left [unit ',', unit ']', unit '\x7d'] (isSpace_iff.mp hspace)
  all_goals decide

theorem IsInt.digits {s : Units} (h : IsInt s) : ∀ u ∈ s, isDigit u = true := by
  rcases h with rfl | ⟨d, ds, rfl, _, hdigits⟩
  · exact List.all_iff_forall_prop.mp (by decide)
  · exact hdigits

theorem takeWhile_digits {s rest : Units} (hs : ∀ u ∈ s, isDigit u = true)
    (hrest : ∀ u ∈ rest.head?, isDigit u = false) : (s ++ rest).takeWhile isDigit = s := by
  rw [List.takeWhile_append_of_pos hs]
  cases rest with
  | nil => rw [List.takeWhile_nil, List.append_nil]
  | cons u rest =>
      rw [List.takeWhile_cons, hrest u rfl, if_neg Bool.false_ne_true, List.append_nil]

theorem integerPart_append {t rest : Units} (h : IsInt t)
    (hrest : ∀ u ∈ rest.head?, isDigit u = false) : integerPart (t ++ rest) = t := by
  unfold integerPart
  rcases h with rfl | ⟨d, ds, rfl, hne, hdigits⟩
  · rfl
  · have hhead : (d :: ds ++ rest).head? ≠ some (unit '0') := fun h => hne (Option.some.inj h)
    rw [if_neg hhead, takeWhile_digits hdigits hrest, List.take_left]

/-- **A safe natural number of the grammar is read.** -/
theorem number_of_isInt {t rest : Units} {o : Nat} (h : IsInt t) (hsafe : numeral t ≤ maxSafeInteger)
    (hends : Ends rest) : ∃ o', number ⟨o, t ++ rest⟩ =
      .ok (.number (.natural (numeral t)), ⟨o', rest⟩) := by
  have hdigit : ∀ u ∈ rest.head?, isDigit u = false := fun u hu => (hends.head hu).1
  obtain ⟨d, ds, rfl⟩ : ∃ d ds, t = d :: ds := by
    rcases h with rfl | ⟨d, ds, rfl, _⟩
    · exact ⟨_, _, rfl⟩
    · exact ⟨_, _, rfl⟩
  have hd : isDigit d = true := h.digits d List.mem_cons_self
  have hsign : signPart (d :: ds ++ rest) = [] := by
    unfold signPart
    rw [if_neg]
    · rfl
    · rintro heq
      cases Option.some.inj heq
      revert hd
      decide
  have hfraction : fractionPart rest = [] := by
    unfold fractionPart
    exact if_neg fun hdot => (hends.head hdot.1).2.1 rfl
  have hexponent : exponentPart rest = [] := by
    unfold exponentPart
    refine if_neg fun he => ?_
    rcases he.1 with he | he
    · exact (hends.head he).2.2.1 rfl
    · exact (hends.head he).2.2.2 rfl
  have htoken : numberToken (d :: ds ++ rest) = some (d :: ds) := by
    unfold numberToken
    simp only [hsign, List.length_nil, List.drop_zero, integerPart_append h hdigit,
      if_neg (List.cons_ne_nil d ds), List.drop_left, hfraction, hexponent, List.append_nil,
      List.nil_append]
  have hnatural : isNatural (d :: ds) = true := by
    have hpart := @integerPart_append _ [] h fun u hu => by cases hu
    rw [List.append_nil] at hpart
    unfold isNatural
    rw [hpart, beq_self_eq_true]
    rfl
  refine ⟨o + (d :: ds).length, ?_⟩
  unfold number
  simp only [htoken]
  refine ensure_bind_eq_ok.mpr ⟨⟨hnatural, hsafe⟩, ?_⟩
  show Except.ok (_, Cursor.skip _ _) = _
  unfold Cursor.skip
  rw [List.drop_left]

/-! What is taken for a token is the beginning of what is left. -/

theorem fractionPart_isPrefix (s : Units) : fractionPart s <+: s := by
  unfold fractionPart
  simp only
  split_ifs with h
  · have hs := List.cons_head?_tail (Option.mem_def.mpr h.1)
    conv => rhs; rw [← hs]
    refine (List.prefix_cons_inj _).mpr ?_
    rw [List.drop_one]
    exact List.takeWhile_prefix _
  · exact List.nil_prefix

theorem exponentPart_isPrefix (s : Units) : exponentPart s <+: s := by
  unfold exponentPart
  simp only
  generalize (if (s.drop 1).head? = some (unit '+') ∨ (s.drop 1).head? = some (unit '-') then 1
    else 0) = n
  split_ifs with h
  · generalize hsign : (s.drop 1).take n = sign
    have hsplit : s = s.take 1 ++ (sign ++ (s.drop 1).drop sign.length) := by
      rw [List.prefix_iff_eq_append.mp (hsign ▸ List.take_prefix n (s.drop 1)),
        List.take_append_drop]
    conv => rhs; rw [hsplit]
    rw [List.append_assoc]
    exact (List.prefix_append_right_inj _).mpr
      ((List.prefix_append_right_inj _).mpr (List.takeWhile_prefix _))
  · exact List.nil_prefix

theorem numberToken_isPrefix {s token : Units} (h : numberToken s = some token) : token <+: s := by
  unfold numberToken at h
  simp only at h
  have hsign : signPart s <+: s := List.take_prefix _ _
  generalize hs₁ : s.drop (signPart s).length = s₁ at h
  have hinteger : integerPart s₁ <+: s₁ := List.take_prefix _ _
  generalize hs₂ : s₁.drop (integerPart s₁).length = s₂ at h
  have hfraction := fractionPart_isPrefix s₂
  generalize hs₃ : s₂.drop (fractionPart s₂).length = s₃ at h
  split_ifs at h with hnone
  obtain rfl := Option.some.inj h
  conv => rhs; rw [← List.prefix_iff_eq_append.mp hsign, hs₁,
    ← List.prefix_iff_eq_append.mp hinteger, hs₂, ← List.prefix_iff_eq_append.mp hfraction, hs₃]
  simp only [List.append_assoc]
  exact (List.prefix_append_right_inj _).mpr ((List.prefix_append_right_inj _).mpr
    ((List.prefix_append_right_inj _).mpr (exponentPart_isPrefix s₃)))

theorem isInt_of_isNatural {token : Units} (h : isNatural token = true) : IsInt token := by
  unfold isNatural at h
  rw [Bool.and_eq_true, beq_iff_eq, bne_iff_ne] at h
  obtain ⟨hpart, hne⟩ := h
  obtain ⟨d, ds, rfl⟩ := List.exists_cons_of_ne_nil hne
  unfold integerPart at hpart
  by_cases hzero : (d :: ds).head? = some (unit '0')
  · rw [if_pos hzero] at hpart
    obtain rfl := Option.some.inj hzero
    exact .inl hpart.symm
  · rw [if_neg hzero] at hpart
    refine .inr ⟨d, ds, rfl, fun h => hzero (congrArg some h), fun u hu => ?_⟩
    rw [← hpart] at hu
    have htake : (d :: ds).take ((d :: ds).takeWhile isDigit).length = (d :: ds).takeWhile isDigit :=
      (List.prefix_iff_eq_take.mp (List.takeWhile_prefix _)).symm
    rw [htake] at hu
    exact List.mem_takeWhile_imp hu

/-- **What `number` reads is a safe natural number of the grammar.** -/
theorem number_ok {c next : Cursor} {v : Value} (h : number c = .ok (v, next)) :
    ∃ t, IsInt t ∧ numeral t ≤ maxSafeInteger ∧ v = .number (.natural (numeral t)) ∧
      c.rest = t ++ next.rest := by
  unfold number at h
  cases htoken : numberToken c.rest with
  | none =>
      simp only [htoken] at h
      cases h
  | some token =>
      simp only [htoken] at h
      obtain ⟨⟨hnatural, hsafe⟩, h⟩ := ensure_bind_eq_ok.mp h
      cases h
      exact ⟨token, isInt_of_isNatural hnatural, hsafe, rfl,
        (List.prefix_iff_eq_append.mp (numberToken_isPrefix htoken)).symm⟩

end Baleyg.Contract
