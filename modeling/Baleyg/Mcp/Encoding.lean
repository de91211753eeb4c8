/-
How long a response is when it is written.

A response is written as compact JSON, and a tool's envelope is written twice in it: as a value,
and as the text of a string, where what was escaped once is escaped again.  How long either is is
a sum over characters.  So `weigh` takes what a character costs as a parameter, and one lemma about
a value holds of both spellings: `Char.utf8Size` is the cost in bytes, and `compactCharLen` is the
cost of a character that is written once more inside a string.
-/
import Mathlib.Data.String.Basic
import Baleyg.Mcp.Wire

namespace Baleyg.Mcp

namespace Json

/-! ### Spelling -/

/-- A character inside a string; what has no short escape is spelled in hex. -/
def escape (c : Char) : List Char :=
  if c = '\x22' then ['\\', '\x22']
  else if c = '\\' then ['\\', '\\']
  else if c = '\x08' then ['\\', 'b']
  else if c = '\t' then ['\\', 't']
  else if c = '\n' then ['\\', 'n']
  else if c = '\x0c' then ['\\', 'f']
  else if c = '\r' then ['\\', 'r']
  else if c.toNat ≤ 0x1f then
    ['\\', 'u', '0', '0', Nat.digitChar (c.toNat / 16), Nat.digitChar (c.toNat % 16)]
  else [c]

def quote (text : List Char) : List Char := '\x22' :: (text.flatMap escape ++ ['\x22'])

/-- What stands before an item. -/
def comma (first : Bool) : List Char := if first then [] else [',']

mutual

def emit : Json → List Char
  | null => ['n', 'u', 'l', 'l']
  | bool true => ['t', 'r', 'u', 'e']
  | bool false => ['f', 'a', 'l', 's', 'e']
  | num text => text.toList
  | str text => quote text.toList
  | arr items => '[' :: emitItems true items
  | obj members => '\x7b' :: emitMembers true members

def emitItems : Bool → List Json → List Char
  | _, [] => [']']
  | first, item :: items => comma first ++ (emit item ++ emitItems false items)

def emitMembers : Bool → List (String × Json) → List Char
  | _, [] => ['\x7d']
  | first, (key, value) :: members =>
      comma first ++ (quote key.toList ++ ':' :: (emit value ++ emitMembers false members))

end

/-- Members are written in the order of their keys. -/
def byKey (a b : String × Json) : Bool := a.1 ≤ b.1

mutual

def sorted : Json → Json
  | null => null
  | bool b => bool b
  | num text => num text
  | str text => str text
  | arr items => arr (sortedItems items)
  | obj members => obj ((sortedMembers members).mergeSort byKey)

def sortedItems : List Json → List Json
  | [] => []
  | item :: items => sorted item :: sortedItems items

def sortedMembers : List (String × Json) → List (String × Json)
  | [] => []
  | (key, value) :: members => (key, sorted value) :: sortedMembers members

end

/-- `serde_json::to_string`. -/
def encode (v : Json) : List Char := emit (sorted v)

/-! ### Weights

Members are sorted before they are written, which changes no weight.
-/

section Weight

variable (w : Char → Nat)

/-- What a text costs. -/
def weigh (text : List Char) : Nat := (text.map w).sum

@[simp] theorem weigh_nil : weigh w [] = 0 := rfl

@[simp] theorem weigh_cons (c : Char) (text : List Char) :
    weigh w (c :: text) = w c + weigh w text := by
  unfold weigh
  rw [List.map_cons, List.sum_cons]

@[simp] theorem weigh_append (first second : List Char) :
    weigh w (first ++ second) = weigh w first + weigh w second := by
  unfold weigh
  rw [List.map_append, List.sum_append]

/-- What a value costs when it is written. -/
def weight (v : Json) : Nat := weigh w (emit v)

theorem weight_str (text : String) : weight w (str text) = weigh w (quote text.toList) := rfl

theorem weight_arr (items : List Json) :
    weight w (arr items) = w '[' + weigh w (emitItems true items) := by
  unfold weight emit
  rw [weigh_cons]

theorem weight_obj (members : List (String × Json)) :
    weight w (obj members) = w '\x7b' + weigh w (emitMembers true members) := by
  unfold weight emit
  rw [weigh_cons]

theorem weigh_emitItems_nil (first : Bool) : weigh w (emitItems first []) = w ']' := by
  unfold emitItems
  rw [weigh_cons, weigh_nil, Nat.add_zero]

theorem weigh_emitItems_cons (first : Bool) (item : Json) (items : List Json) :
    weigh w (emitItems first (item :: items)) =
      weigh w (comma first) + (weight w item + weigh w (emitItems false items)) := by
  rw [emitItems, weigh_append, weigh_append]
  rfl

theorem weigh_emitMembers_nil (first : Bool) : weigh w (emitMembers first []) = w '\x7d' := by
  unfold emitMembers
  rw [weigh_cons, weigh_nil, Nat.add_zero]

theorem weigh_emitMembers_cons (first : Bool) (key : String) (value : Json)
    (members : List (String × Json)) :
    weigh w (emitMembers first ((key, value) :: members)) =
      weigh w (comma first) + (weigh w (quote key.toList) +
        (w ':' + (weight w value + weigh w (emitMembers false members)))) := by
  rw [emitMembers, weigh_append, weigh_append, weigh_cons, weigh_append]
  rfl

/-- A member costs its key, the colon and its value. -/
def memberWeight (member : String × Json) : Nat :=
  weigh w (quote member.1.toList) + (w ':' + weight w member.2)

/-- Members cost what each of them costs, and a comma between any two. -/
theorem weigh_emitMembers (members : List (String × Json)) : ∀ first : Bool,
    weigh w (emitMembers first members) =
      (if first then members.length - 1 else members.length) * w ',' +
        (members.map (memberWeight w)).sum + w '\x7d' := by
  induction members with
  | nil =>
      intro first
      cases first
      · simp [emitMembers]
      · simp [emitMembers]
  | cons member members ih =>
      intro first
      obtain ⟨key, value⟩ := member
      have hrest := ih false
      simp only [Bool.false_eq_true, if_false] at hrest
      have hmember : memberWeight w (key, value) =
          weigh w (quote key.toList) + (w ':' + weight w value) := rfl
      cases first
      · simp only [emitMembers, comma, Bool.false_eq_true, if_false, weigh_append, weigh_cons,
          weigh_nil, hrest, List.length_cons, List.map_cons, List.sum_cons, hmember, weight,
          Nat.succ_mul]
        omega
      · simp only [emitMembers, comma, if_true, weigh_append, weigh_cons, weigh_nil, hrest,
          List.length_cons, List.map_cons, List.sum_cons, hmember, weight, Nat.add_sub_cancel]
        omega

/-- The order of members costs nothing. -/
theorem weigh_emitMembers_perm {members members' : List (String × Json)}
    (h : members.Perm members') (first : Bool) :
    weigh w (emitMembers first members) = weigh w (emitMembers first members') := by
  rw [weigh_emitMembers, weigh_emitMembers, h.length_eq, (h.map _).sum_eq]

mutual

theorem weight_sorted : ∀ v : Json, weigh w (emit (sorted v)) = weigh w (emit v)
  | null | bool _ | num _ | str _ => rfl
  | arr items => by
      show weigh w ('[' :: emitItems true (sortedItems items)) = weigh w ('[' :: emitItems true items)
      rw [weigh_cons, weigh_cons, weight_sortedItems items true]
  | obj members => by
      show weigh w ('\x7b' :: emitMembers true ((sortedMembers members).mergeSort byKey)) =
        weigh w ('\x7b' :: emitMembers true members)
      rw [weigh_cons, weigh_cons, weigh_emitMembers_perm w (List.mergeSort_perm _ _),
        weight_sortedMembers members true]

theorem weight_sortedItems : ∀ (items : List Json) (first : Bool),
    weigh w (emitItems first (sortedItems items)) = weigh w (emitItems first items)
  | [], _ => rfl
  | item :: items, first => by
      show weigh w (comma first ++ (emit (sorted item) ++ emitItems false (sortedItems items))) =
        weigh w (comma first ++ (emit item ++ emitItems false items))
      rw [weigh_append, weigh_append, weigh_append, weigh_append, weight_sorted item,
        weight_sortedItems items false]

theorem weight_sortedMembers : ∀ (members : List (String × Json)) (first : Bool),
    weigh w (emitMembers first (sortedMembers members)) = weigh w (emitMembers first members)
  | [], _ => rfl
  | (key, value) :: members, first => by
      show weigh w (comma first ++ (quote key.toList ++
          ':' :: (emit (sorted value) ++ emitMembers false (sortedMembers members)))) =
        weigh w (comma first ++ (quote key.toList ++
          ':' :: (emit value ++ emitMembers false members)))
      rw [weigh_append, weigh_append, weigh_append, weigh_append, weigh_cons, weigh_cons,
        weigh_append, weigh_append, weight_sorted value, weight_sortedMembers members false]

end

/-- **What is written costs what its value costs.** -/
theorem weigh_encode (v : Json) : weigh w (encode v) = weight w v := weight_sorted w v

end Weight

/-! ### Strings -/

theorem digitChar_cost : ∀ n < 16, (Nat.digitChar n).utf8Size = 1 ∧
    compactCharLen (Nat.digitChar n) = 1 := by
  decide

/-- What a character costs that is escaped once, and what if it is escaped twice. -/
theorem escape_cost (c : Char) :
    weigh Char.utf8Size (escape c) = compactCharLen c ∧
      weigh compactCharLen (escape c) ≤ 2 * compactCharLen c ∧
      compactCharLen c ≤ 6 * c.utf8Size ∧ weigh compactCharLen (escape c) ≤ 7 * c.utf8Size := by
  by_cases hshort : c ∈ ['\x22', '\\', '\x08', '\t', '\n', '\x0c', '\r']
  · simp only [List.mem_cons, List.not_mem_nil, or_false] at hshort
    rcases hshort with rfl | rfl | rfl | rfl | rfl | rfl | rfl
    all_goals decide
  · have hpos := Char.utf8Size_pos c
    by_cases hcontrol : c.toNat ≤ 0x1f
    · have hcost : compactCharLen c = 6 := by
        unfold compactCharLen
        rw [if_neg hshort, if_pos hcontrol]
      simp only [List.mem_cons, List.not_mem_nil, or_false, not_or] at hshort
      obtain ⟨h1, h2, h3, h4, h5, h6, h7⟩ := hshort
      have hescape : escape c = ['\\', 'u', '0', '0', Nat.digitChar (c.toNat / 16),
          Nat.digitChar (c.toNat % 16)] := by
        unfold escape
        rw [if_neg h1, if_neg h2, if_neg h3, if_neg h4, if_neg h5, if_neg h6, if_neg h7,
          if_pos hcontrol]
      obtain ⟨hhigh, hhigh'⟩ := digitChar_cost (c.toNat / 16) (by omega)
      obtain ⟨hlow, hlow'⟩ := digitChar_cost (c.toNat % 16) (by omega)
      have hfixed : Char.utf8Size '\\' = 1 ∧ Char.utf8Size 'u' = 1 ∧ Char.utf8Size '0' = 1 ∧
          compactCharLen '\\' = 2 ∧ compactCharLen 'u' = 1 ∧ compactCharLen '0' = 1 := by
        decide
      obtain ⟨f1, f2, f3, f4, f5, f6⟩ := hfixed
      rw [hescape, hcost]
      simp only [weigh_cons, weigh_nil, hhigh, hhigh', hlow, hlow', f1, f2, f3, f4, f5, f6]
      exact ⟨trivial, by omega, by omega, by omega⟩
    · have hcost : compactCharLen c = c.utf8Size := by
        unfold compactCharLen
        rw [if_neg hshort, if_neg hcontrol]
      simp only [List.mem_cons, List.not_mem_nil, or_false, not_or] at hshort
      obtain ⟨h1, h2, h3, h4, h5, h6, h7⟩ := hshort
      have hescape : escape c = [c] := by
        unfold escape
        rw [if_neg h1, if_neg h2, if_neg h3, if_neg h4, if_neg h5, if_neg h6, if_neg h7,
          if_neg hcontrol]
      rw [hescape]
      simp only [weigh_cons, weigh_nil, hcost]
      omega

/-- A bound on every character is a bound on the text. -/
theorem weigh_flatMap_le {w v : Char → Nat} {f : Char → List Char} {n : Nat}
    (h : ∀ c, weigh w (f c) ≤ n * v c) (text : List Char) :
    weigh w (text.flatMap f) ≤ n * weigh v text := by
  induction text with
  | nil => simp
  | cons c text ih =>
      rw [List.flatMap_cons, weigh_append, weigh_cons, Nat.mul_add]
      exact Nat.add_le_add (h c) ih

theorem weigh_escaped (text : List Char) :
    weigh Char.utf8Size (text.flatMap escape) = weigh compactCharLen text := by
  induction text with
  | nil => rfl
  | cons c text ih => rw [List.flatMap_cons, weigh_append, weigh_cons, ih, (escape_cost c).1]

/-- A string token is as long as `compactStringTokenLen` says. -/
theorem weigh_quote (text : String) :
    weigh Char.utf8Size (quote text.toList) = compactStringTokenLen text := by
  unfold quote compactStringTokenLen
  rw [weigh_cons, weigh_append, weigh_escaped]
  show 1 + (weigh compactCharLen text.toList + 1) = 2 + weigh compactCharLen text.toList
  omega

theorem weigh_quote_le (text : String) :
    weigh compactCharLen (quote text.toList) ≤ 2 * compactStringTokenLen text := by
  have hinner := weigh_flatMap_le (fun c => (escape_cost c).2.1) text.toList
  unfold quote compactStringTokenLen
  rw [weigh_cons, weigh_append]
  show 2 + (weigh compactCharLen (text.toList.flatMap escape) + 2) ≤
    2 * (2 + weigh compactCharLen text.toList)
  omega

/-- Both costs of a string token, from the bytes of its text. -/
theorem weigh_quote_bytes (text : List Char) :
    weigh Char.utf8Size (quote text) ≤ 2 + 6 * weigh Char.utf8Size text ∧
      weigh compactCharLen (quote text) ≤ 4 + 7 * weigh Char.utf8Size text := by
  have hbytes : weigh Char.utf8Size (text.flatMap escape) ≤ 6 * weigh Char.utf8Size text :=
    weigh_flatMap_le (fun c => (escape_cost c).1.symm ▸ (escape_cost c).2.2.1) text
  have hinner := weigh_flatMap_le (fun c => (escape_cost c).2.2.2) text
  unfold quote
  simp only [weigh_cons, weigh_append, weigh_nil]
  constructor
  · show 1 + (weigh Char.utf8Size (text.flatMap escape) + 1) ≤ _
    omega
  · show 2 + (weigh compactCharLen (text.flatMap escape) + 2) ≤ _
    omega

/-- A value that is written into a string costs its characters there, and two quotes. -/
theorem weight_str_encode (v : Json) :
    weight Char.utf8Size (str (String.ofList (encode v))) = 2 + weight compactCharLen v := by
  show weigh Char.utf8Size (quote (String.ofList (encode v)).toList) = _
  rw [weigh_quote, ← weigh_encode]
  unfold compactStringTokenLen
  rw [String.toList_ofList]
  rfl

/-! ### Both spellings at once -/

/-- What a character costs a value and the text of the value together. -/
def bothLen (c : Char) : Nat := c.utf8Size + compactCharLen c

theorem weigh_bothLen (text : List Char) :
    weigh bothLen text = weigh Char.utf8Size text + weigh compactCharLen text := by
  induction text with
  | nil => rfl
  | cons c text ih =>
      have hc : bothLen c = c.utf8Size + compactCharLen c := rfl
      rw [weigh_cons, weigh_cons, weigh_cons, ih, hc]
      omega

theorem weight_bothLen (v : Json) :
    weight bothLen v = weight Char.utf8Size v + weight compactCharLen v :=
  weigh_bothLen (emit v)

theorem weight_str_bytes (text : String) :
    weight bothLen (str text) ≤ 6 + 13 * weigh Char.utf8Size text.toList := by
  obtain ⟨honce, htwice⟩ := weigh_quote_bytes text.toList
  rw [weight_bothLen, weight_str, weight_str]
  omega

/-! ### Numbers -/

/-- A digit is one byte, inside a string too. -/
theorem digit_cost {c : Char} (h : c.isDigit = true) : c.utf8Size = 1 ∧ compactCharLen c = 1 := by
  have hrange : 48 ≤ c.val ∧ c.val ≤ 57 := by
    unfold Char.isDigit at h
    simpa using h
  have hlow : 48 ≤ c.toNat := hrange.1
  have hhigh : c.toNat ≤ 57 := hrange.2
  have hsize : c.utf8Size = 1 := by
    unfold Char.utf8Size
    rw [if_pos]
    exact Nat.le_trans hhigh (by decide)
  have hshort : c ∉ ['\x22', '\\', '\x08', '\t', '\n', '\x0c', '\r'] := by
    intro hmem
    simp only [List.mem_cons, List.not_mem_nil, or_false] at hmem
    rcases hmem with rfl | rfl | rfl | rfl | rfl | rfl | rfl
    all_goals revert h; decide
  refine ⟨hsize, ?_⟩
  unfold compactCharLen
  rw [if_neg hshort, if_neg (by omega), hsize]

theorem weigh_eq_length {w : Char → Nat} {text : List Char} (h : ∀ c ∈ text, w c = 1) :
    weigh w text = text.length := by
  induction text with
  | nil => rfl
  | cons c text ih =>
      rw [weigh_cons, h c (List.mem_cons_self ..), List.length_cons,
        ih fun d hd => h d (List.mem_cons_of_mem c hd)]
      omega

/-- A number below `10 ^ k` takes `k` characters at most. -/
theorem weight_nat_le {n k : Nat} (hk : 0 < k) (h : n < 10 ^ k) :
    weight Char.utf8Size (num (toString n)) ≤ k ∧ weight compactCharLen (num (toString n)) ≤ k := by
  have htext : (toString n).toList = Nat.toDigits 10 n := Nat.toList_repr
  have hlength := (Nat.length_toDigits_le_iff (by decide : 1 < 10) hk).mpr h
  have hdigit : ∀ c ∈ Nat.toDigits 10 n, c.isDigit = true :=
    fun c hc => Nat.isDigit_of_mem_toDigits (by decide) (by decide) hc
  unfold weight emit
  rw [htext, weigh_eq_length fun c hc => (digit_cost (hdigit c hc)).1,
    weigh_eq_length fun c hc => (digit_cost (hdigit c hc)).2]
  exact ⟨hlength, hlength⟩

theorem weight_int_le {n : Int} {k : Nat} (hk : 0 < k) (h : n.natAbs < 10 ^ k) :
    weight Char.utf8Size (num (toString n)) ≤ k + 1 ∧
      weight compactCharLen (num (toString n)) ≤ k + 1 := by
  cases n with
  | ofNat n =>
      obtain ⟨honce, htwice⟩ := weight_nat_le hk h
      exact ⟨Nat.le_succ_of_le honce, Nat.le_succ_of_le htwice⟩
  | negSucc n =>
      obtain ⟨honce, htwice⟩ := weight_nat_le (n := n + 1) hk h
      have htext : (toString (Int.negSucc n)).toList = '-' :: (toString (n + 1)).toList := by
        show ("-" ++ toString (n + 1)).toList = _
        rw [String.toList_append]
        rfl
      have hcost : Char.utf8Size '-' = 1 ∧ compactCharLen '-' = 1 := by decide
      unfold weight emit at honce htwice ⊢
      rw [htext, weigh_cons, weigh_cons, hcost.1, hcost.2]
      exact ⟨by omega, by omega⟩

end Json

end Baleyg.Mcp
