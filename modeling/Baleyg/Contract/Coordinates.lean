/-
Coordinates in a source.

A range counts in bytes, in units of UTF-16 or in characters, and is turned into one of bytes by
tables of the boundaries between characters.  The tables of the sources that were last looked at
are kept.  As a source is kept as its bytes and its tables depend on nothing else, what is kept
never shows (`toByteRange_exact`).
-/
import Mathlib.Data.List.Induction
import Baleyg.Contract.Fixture
import Baleyg.Lib.Register

namespace Baleyg.Contract.Coordinates

/-- A range as `PositionRange` has it: of integers that can be told apart. -/
structure PositionRange where
  encoding : PositionEncoding
  start : Nat
  stop : Nat
  startSafe : start ≤ 2 ^ 53 - 1
  stopSafe : stop ≤ 2 ^ 53 - 1
  deriving DecidableEq, Repr

structure ByteRange where
  start : Nat
  stop : Nat
  deriving DecidableEq, Repr

/-! ### Tables -/

/-- A map from offsets to bytes. -/
abbrev Table := List (Nat × Nat)

def Table.set (table : Table) (offset byte : Nat) : Table := Register.put Prod.fst (offset, byte) table

def Table.get (table : Table) (offset : Nat) : Option Nat :=
  (Register.get Prod.fst offset table).map Prod.snd

structure Tables where
  utf8 : Table := [(0, 0)]
  utf16 : Table := [(0, 0)]
  unicodeScalar : Table := [(0, 0)]
  deriving DecidableEq, Repr

def Tables.of (tables : Tables) : PositionEncoding → Table
  | .utf8 => tables.utf8
  | .utf16 => tables.utf16
  | .unicodeScalar => tables.unicodeScalar

structure Progress where
  byte : Nat := 0
  unit : Nat := 0
  scalar : Nat := 0
  tables : Tables := {}
  deriving DecidableEq, Repr

def Progress.next (p : Progress) (char : Char) : Progress :=
  let byte := p.byte + (Utf.utf8 [char]).length
  let unit := p.unit + (Utf.utf16 [char]).length
  let scalar := p.scalar + 1
  { byte, unit, scalar
    tables :=
      { utf8 := p.tables.utf8.set byte byte
        utf16 := p.tables.utf16.set unit byte
        unicodeScalar := p.tables.unicodeScalar.set scalar byte } }

/-- `buildScalarTables`, of bytes that must be text; a byte order mark is a character. -/
def buildScalarTables (bytes : List UInt8) : Except String Tables :=
  match Utf.decode8 bytes with
  | none => throw "ERR_ENCODING_INVALID_ENCODED_DATA"
  | some text => pure (text.foldl Progress.next {}).tables

/-! ### The tables that are kept -/

/-- `recentTables`. -/
abbrev Recent := List (List UInt8 × Tables)

def bytesOf : Input → List UInt8
  | .bytes bytes => bytes
  | .string units => Utf.utf8 (Utf.decode units)

def scalarTable (recent : Recent) (source : Input) : Except String (Tables × Recent) :=
  let bytes := bytesOf source
  match recent.find? fun entry => entry.1 = bytes with
  | some entry => pure (entry.2, recent)
  | none => do
      let tables ← buildScalarTables bytes
      let kept := (bytes, tables) :: recent
      pure (tables, if 16 < kept.length then kept.dropLast else kept)

def invalidRange : String :=
  "COORD.INVALID_RANGE invalidRange: offset outside source or scalar boundary"

/-- `toByteRange`, with the tables that are kept after it. -/
def toByteRange (recent : Recent) (source : Input) (range : PositionRange) :
    Except String ByteRange × Recent :=
  match scalarTable recent source with
  | .error e => (throw e, recent)
  | .ok (tables, recent) =>
      let table := tables.of range.encoding
      if range.start > range.stop then (throw invalidRange, recent)
      else
        match table.get range.start, table.get range.stop with
        | some start, some stop => (pure ⟨start, stop⟩, recent)
        | _, _ => (throw invalidRange, recent)

def after (calls : List (Input × PositionRange)) : Recent :=
  calls.foldl (fun recent call => (toByteRange recent call.1 call.2).2) []

/-! ### Boundaries -/

def measure : PositionEncoding → List Char → Nat
  | .utf8, text => (Utf.utf8 text).length
  | .utf16, text => (Utf.utf16 text).length
  | .unicodeScalar, text => text.length

/-- An offset that lies between two characters, or at an end, and its byte offset. -/
def Boundary (encoding : PositionEncoding) (text : List Char) (offset byte : Nat) : Prop :=
  ∃ before behind, text = before ++ behind ∧ offset = measure encoding before ∧
    byte = measure .utf8 before

section Boundaries

variable {encoding encoding' : PositionEncoding} {text before behind : List Char} {char : Char}
  {offset byte offset' byte' : Nat}

theorem measure_append (encoding : PositionEncoding) (before behind : List Char) :
    measure encoding (before ++ behind) = measure encoding before + measure encoding behind := by
  cases encoding with
  | utf8 =>
      have happend : Utf.utf8 (before ++ behind) = Utf.utf8 before ++ Utf.utf8 behind :=
        List.flatMap_append
      show (Utf.utf8 (before ++ behind)).length = _
      rw [happend, List.length_append]
      rfl
  | utf16 =>
      show (Utf.utf16 (before ++ behind)).length = _
      rw [Utf.utf16_append, List.length_append]
      rfl
  | unicodeScalar => exact List.length_append

theorem measure_nil (encoding : PositionEncoding) : measure encoding [] = 0 := by
  cases encoding <;> rfl

theorem measure_singleton_pos (encoding : PositionEncoding) (char : Char) :
    0 < measure encoding [char] := by
  cases encoding with
  | utf8 =>
      have hcode : Utf.utf8 [char] = String.utf8EncodeChar char := List.append_nil _
      show 0 < (Utf.utf8 [char]).length
      rw [hcode]
      exact List.length_pos_iff.mpr (Utf.utf8EncodeChar_ne_nil char)
  | utf16 =>
      show 0 < (Utf.utf16 [char]).length
      rw [Utf.utf16_cons, Utf.utf16_nil, List.append_nil]
      unfold Utf.units
      split_ifs <;> exact Nat.succ_pos _
  | unicodeScalar => exact Nat.one_pos

theorem measure_pos (encoding : PositionEncoding) (h : text ≠ []) : 0 < measure encoding text := by
  obtain ⟨char, rest, rfl⟩ := List.exists_cons_of_ne_nil h
  have happend := measure_append encoding [char] rest
  have hpos := measure_singleton_pos encoding char
  rw [List.singleton_append] at happend
  omega

/-- **All encodings order the boundaries of a text alike.** -/
theorem measure_lt_iff {before' behind' : List Char} (h : before ++ behind = before' ++ behind') :
    measure encoding before < measure encoding before' ↔
      measure encoding' before < measure encoding' before' := by
  have hprefix : before <+: before' ∨ before' <+: before :=
    List.prefix_or_prefix_of_prefix (List.prefix_append before behind)
      (h ▸ List.prefix_append before' behind')
  rcases hprefix with ⟨more, rfl⟩ | ⟨more, rfl⟩
  · rw [measure_append, measure_append]
    by_cases hmore : more = []
    · rw [hmore, measure_nil, measure_nil]; omega
    · have hpos := measure_pos encoding hmore
      have hpos' := measure_pos encoding' hmore
      omega
  · rw [measure_append, measure_append]; omega

/-- The boundaries of a text are those before its last character, and its end. -/
theorem boundary_concat : Boundary encoding (text ++ [char]) offset byte ↔
    Boundary encoding text offset byte ∨
      offset = measure encoding (text ++ [char]) ∧ byte = measure .utf8 (text ++ [char]) := by
  constructor
  · rintro ⟨before, behind, happend, hoffset, hbyte⟩
    rcases List.eq_nil_or_concat behind with hnil | ⟨init, last, heq⟩
    · rw [hnil, List.append_nil] at happend
      rw [happend]
      exact .inr ⟨hoffset, hbyte⟩
    · rw [heq, List.concat_eq_append, ← List.append_assoc] at happend
      obtain ⟨htext, -⟩ := List.append_inj' happend rfl
      exact .inl ⟨before, init, htext, hoffset, hbyte⟩
  · rintro (⟨before, behind, happend, hoffset, hbyte⟩ | ⟨hoffset, hbyte⟩)
    · exact ⟨before, behind ++ [char], by rw [happend, List.append_assoc], hoffset, hbyte⟩
    · exact ⟨text ++ [char], [], (List.append_nil _).symm, hoffset, hbyte⟩

theorem Boundary.le (h : Boundary encoding text offset byte) : offset ≤ measure encoding text := by
  obtain ⟨before, behind, happend, hoffset, -⟩ := h
  rw [happend, measure_append]
  omega

end Boundaries

/-! ### The tables have the boundaries -/

section Tables

variable {table : Table} {offset byte key : Nat} {bytes : List UInt8} {text : List Char}

theorem Table.get_set :
    (table.set offset byte).get key = if key = offset then some byte else table.get key := by
  unfold Table.set Table.get
  by_cases hkey : key = offset
  · have hself : Register.get Prod.fst (offset, byte).1 (Register.put Prod.fst (offset, byte) table) =
        some (offset, byte) := Register.get_put_self
    rw [if_pos hkey, hkey, hself]
    rfl
  · rw [if_neg hkey, Register.get_put_of_ne hkey]

theorem Table.get_concat {encoding : PositionEncoding} {char : Char}
    (h : ∀ offset byte, table.get offset = some byte ↔ Boundary encoding text offset byte) :
    (table.set (measure encoding (text ++ [char])) (measure .utf8 (text ++ [char]))).get offset =
      some byte ↔ Boundary encoding (text ++ [char]) offset byte := by
  rw [Table.get_set, boundary_concat]
  have hlt : measure encoding text < measure encoding (text ++ [char]) := by
    rw [measure_append]
    exact Nat.lt_add_of_pos_right (measure_singleton_pos encoding char)
  by_cases hend : offset = measure encoding (text ++ [char])
  · rw [if_pos hend]
    constructor
    · intro heq
      cases heq
      exact .inr ⟨hend, rfl⟩
    · rintro (hboundary | ⟨-, hbyte⟩)
      · have hle := hboundary.le
        omega
      · rw [hbyte]
  · rw [if_neg hend, h]
    constructor
    · intro hboundary; exact .inl hboundary
    · rintro (hboundary | ⟨hoffset, -⟩)
      · exact hboundary
      · exact absurd hoffset hend

/-- **The loop over the characters enters every boundary.** -/
theorem progress_tables (text : List Char) :
    (text.foldl Progress.next {}).byte = measure .utf8 text ∧
    (text.foldl Progress.next {}).unit = measure .utf16 text ∧
    (text.foldl Progress.next {}).scalar = measure .unicodeScalar text ∧
    ∀ encoding offset byte, ((text.foldl Progress.next {}).tables.of encoding).get offset = some byte ↔
      Boundary encoding text offset byte := by
  induction text using List.reverseRecOn with
  | nil =>
      refine ⟨rfl, rfl, rfl, fun encoding offset byte => ?_⟩
      have hget : (([] : List Char).foldl Progress.next {}).tables.of encoding = [(0, 0)] := by
        cases encoding <;> rfl
      rw [hget]
      constructor
      · intro h
        by_cases hzero : offset = 0
        · rw [hzero] at h ⊢
          cases h
          exact ⟨[], [], rfl, by cases encoding <;> rfl, rfl⟩
        · unfold Table.get Register.get at h
          rw [List.find?_cons_of_neg (by simpa using fun heq => hzero heq.symm)] at h
          cases h
      · rintro ⟨before, behind, happend, hoffset, hbyte⟩
        obtain ⟨rfl, -⟩ := List.nil_eq_append_iff.mp happend
        have hzero : offset = 0 := by
          rw [hoffset]
          cases encoding <;> rfl
        rw [hzero, hbyte]
        rfl
  | append_singleton text char ih =>
      obtain ⟨hbyte, hunit, hscalar, htables⟩ := ih
      rw [List.foldl_append]
      have hbyte' : ((text.foldl Progress.next {}).next char).byte = measure .utf8 (text ++ [char]) := by
        rw [measure_append, ← hbyte]
        rfl
      have hunit' : ((text.foldl Progress.next {}).next char).unit =
          measure .utf16 (text ++ [char]) := by
        rw [measure_append, ← hunit]
        rfl
      have hscalar' : ((text.foldl Progress.next {}).next char).scalar =
          measure .unicodeScalar (text ++ [char]) := by
        rw [measure_append, ← hscalar]
        rfl
      refine ⟨hbyte', hunit', hscalar', fun encoding offset byte => ?_⟩
      have hset : ((text.foldl Progress.next {}).next char).tables.of encoding =
          ((text.foldl Progress.next {}).tables.of encoding).set (measure encoding (text ++ [char]))
            (measure .utf8 (text ++ [char])) := by
        cases encoding with
        | utf8 => rw [← hbyte']; rfl
        | utf16 => rw [← hbyte', ← hunit']; rfl
        | unicodeScalar => rw [← hbyte', ← hscalar']; rfl
      show (((text.foldl Progress.next {}).next char).tables.of encoding).get offset = some byte ↔ _
      rw [hset]
      exact Table.get_concat (htables encoding)

theorem buildScalarTables_eq (h : Utf.decode8 bytes = some text) :
    buildScalarTables bytes = .ok (text.foldl Progress.next {}).tables := by
  unfold buildScalarTables
  rw [h]
  rfl

/-! ### What is kept does not show -/

/-- Every entry that is kept has the tables of its bytes. -/
def Kept (recent : Recent) : Prop := ∀ entry ∈ recent, buildScalarTables entry.1 = .ok entry.2

theorem scalarTable_spec {recent : Recent} (h : Kept recent) (source : Input) :
    (∃ e, scalarTable recent source = .error e ∧ buildScalarTables (bytesOf source) = .error e) ∨
      ∃ tables recent', scalarTable recent source = .ok (tables, recent') ∧
        buildScalarTables (bytesOf source) = .ok tables ∧ Kept recent' := by
  unfold scalarTable
  dsimp only
  cases hfind : recent.find? fun entry => entry.1 = bytesOf source with
  | some entry =>
      have hmem := List.mem_of_find?_eq_some hfind
      have hbytes : entry.1 = bytesOf source := by
        have hfound := List.find?_some hfind
        exact of_decide_eq_true hfound
      refine .inr ⟨entry.2, recent, rfl, ?_, h⟩
      rw [← hbytes]
      exact h entry hmem
  | none =>
      cases hbuild : buildScalarTables (bytesOf source) with
      | error e => exact .inl ⟨e, rfl, rfl⟩
      | ok tables =>
          have hkept : Kept ((bytesOf source, tables) :: recent) := by
            intro entry hentry
            rcases List.mem_cons.mp hentry with heq | hold
            · rw [heq]; exact hbuild
            · exact h entry hold
          refine .inr ⟨tables, _, rfl, rfl, ?_⟩
          by_cases hmany : 16 < ((bytesOf source, tables) :: recent).length
          · rw [if_pos hmany]
            exact fun entry hentry => hkept entry ((List.dropLast_sublist _).subset hentry)
          · rw [if_neg hmany]; exact hkept

theorem kept_toByteRange {recent : Recent} (h : Kept recent) (source : Input)
    (range : PositionRange) : Kept (toByteRange recent source range).2 := by
  unfold toByteRange
  rcases scalarTable_spec h source with ⟨e, hscalar, -⟩ | ⟨tables, recent', hscalar, -, hkept⟩
  · rw [hscalar]; exact h
  · rw [hscalar]
    dsimp only
    split_ifs with hinverted
    · exact hkept
    · split
      · exact hkept
      · exact hkept

/-- **Calls leave tables that belong to their bytes.** -/
theorem kept_after (calls : List (Input × PositionRange)) : Kept (after calls) := by
  induction calls using List.reverseRecOn with
  | nil => intro entry hentry; cases hentry
  | append_singleton calls call ih =>
      unfold after at ih ⊢
      rw [List.foldl_append]
      exact kept_toByteRange ih call.1 call.2

end Tables

/-- **A range is turned into bytes exactly where it lies on boundaries**, whatever was looked at
before, in the order of the offsets and the same in all encodings. -/
theorem toByteRange_exact (calls : List (Input × PositionRange)) {source : Input} {text : List Char}
    (hvalid : Utf.decode8 (bytesOf source) = some text) :
    (∀ range out, (toByteRange (after calls) source range).1 = .ok out ↔
      range.start ≤ range.stop ∧ Boundary range.encoding text range.start out.start ∧
        Boundary range.encoding text range.stop out.stop) ∧
    (∀ encoding offset byte offset' byte', Boundary encoding text offset byte →
      Boundary encoding text offset' byte' → (offset < offset' ↔ byte < byte')) ∧
    ∀ before behind, text = before ++ behind → ∀ range : PositionRange,
      range.start = measure range.encoding before → range.stop = range.start →
        (toByteRange (after calls) source range).1 =
          .ok ⟨(Utf.utf8 before).length, (Utf.utf8 before).length⟩ := by
  have hrange : ∀ range out, (toByteRange (after calls) source range).1 = .ok out ↔
      range.start ≤ range.stop ∧ Boundary range.encoding text range.start out.start ∧
        Boundary range.encoding text range.stop out.stop := by
    intro range out
    obtain ⟨-, -, -, htables⟩ := progress_tables text
    unfold toByteRange
    rcases scalarTable_spec (kept_after calls) source with ⟨e, -, herror⟩ |
      ⟨tables, recent', hscalar, hbuild, -⟩
    · rw [buildScalarTables_eq hvalid] at herror; cases herror
    · rw [buildScalarTables_eq hvalid] at hbuild
      cases hbuild
      rw [hscalar, ← htables, ← htables]
      dsimp only
      by_cases hinverted : range.start > range.stop
      · rw [if_pos hinverted]
        constructor
        · intro h; cases h
        · intro h; omega
      · rw [if_neg hinverted]
        have hle : range.start ≤ range.stop := Nat.le_of_not_lt hinverted
        cases hstart : ((text.foldl Progress.next {}).tables.of range.encoding).get range.start with
        | none =>
            constructor
            · intro h; cases h
            · rintro ⟨-, h, -⟩
              cases h
        | some start =>
            cases hstop : ((text.foldl Progress.next {}).tables.of range.encoding).get range.stop with
            | none =>
                constructor
                · intro h; cases h
                · rintro ⟨-, -, h⟩
                  cases h
            | some stop =>
                constructor
                · intro h
                  cases h
                  exact ⟨hle, rfl, rfl⟩
                · rintro ⟨-, h, h'⟩
                  cases h
                  cases h'
                  rfl
  refine ⟨hrange, ?_, ?_⟩
  · rintro encoding _ _ _ _ ⟨before, behind, happend, rfl, rfl⟩ ⟨before', behind', happend', rfl, rfl⟩
    exact measure_lt_iff (happend.symm.trans happend')
  · intro before behind happend range hstart hstop
    have hboundary : Boundary range.encoding text range.start (measure .utf8 before) :=
      ⟨before, behind, happend, hstart, rfl⟩
    refine (hrange range ⟨_, _⟩).mpr ⟨Nat.le_of_eq hstop.symm, hboundary, ?_⟩
    rw [hstop]
    exact hboundary

def marked : Input := .bytes [0xEF, 0xBB, 0xBF, 0xF0, 0x9F, 0x98, 0x80]

/-- The text was looked at before, in another encoding, and another text after it. -/
def earlier : List (Input × PositionRange) :=
  [(marked, ⟨.utf8, 0, 3, by decide, by decide⟩), (.bytes [0xFF], ⟨.utf8, 0, 0, by decide, by decide⟩),
    (.string [0x61], ⟨.utf16, 0, 1, by decide, by decide⟩)]

theorem toByteRange_exact_mark :
    (after earlier).map Prod.fst = [[0x61], bytesOf marked] ∧
      (toByteRange (after earlier) marked ⟨.utf16, 1, 3, by decide, by decide⟩).1 = .ok ⟨3, 7⟩ := by
  have hvalid : Utf.decode8 (bytesOf marked) = some ['\uFEFF', '😀'] :=
    Utf.decode8_eq_some.mpr (by decide +kernel)
  refine ⟨by decide +kernel, ((toByteRange_exact earlier hvalid).1 _ _).mpr ⟨by decide, ?_, ?_⟩⟩
  · exact ⟨['\uFEFF'], ['😀'], rfl, by decide +kernel, by decide +kernel⟩
  · exact ⟨['\uFEFF', '😀'], [], rfl, by decide +kernel, by decide +kernel⟩

end Baleyg.Contract.Coordinates
