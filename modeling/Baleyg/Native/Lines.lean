/-
Lines and columns.

Where a byte of a text stands is looked up in an index of the places where lines begin, once built
for each file.  A line ends with a line feed and with nothing else, and a column counts bytes, both
from one on.  The look-up gives what reading the text up to the byte gives (`prefixScan`).
-/
import Mathlib.Data.List.Induction
import Baleyg.Lib.Bisect
import Baleyg.Lib.Fallible
import Baleyg.Lib.Utf
import Baleyg.Native.Records

namespace Baleyg.Native

open Bisect (partitionPoint)
open Fallible (ensure)

def textBytes (text : String) : List UInt8 := Utf.utf8 text.toList

/-- Where lines begin that some bytes end, counted from the first of them on. -/
def startsIn (bytes : List UInt8) (offset : Nat) : List Nat :=
  (bytes.zipIdx offset).filterMap fun (b, i) => if b = 10 then some (i + 1) else none

/-- Byte offsets where each line starts. -/
structure LineIndex where
  starts : List Nat
  deriving DecidableEq, Repr

def LineIndex.new (text : String) : LineIndex := ⟨0 :: startsIn (textBytes text) 0⟩

/-- `location`: line and column, both from one on. -/
def LineIndex.location (lines : LineIndex) (text : String) (byte : Nat) :
    Except String (Nat × Nat) := do
  ensure (byte ≤ byteLength text ∧ isCharBoundary text byte = true) "invalid measured graph range"
  let line := partitionPoint (fun start => decide (start ≤ byte)) lines.starts
  match lines.starts[line - 1]? with
  | none => throw "index out of bounds"
  | some start => pure (line, byte - start + 1)

def advance (at' : Nat × Nat) (c : Char) : Nat × Nat :=
  if c = '\n' then (at'.1 + 1, 1) else (at'.1, at'.2 + c.utf8Size)

/-- Line and column, from reading the text up to the byte. -/
def prefixScan (text : String) (byte : Nat) : Except String (Nat × Nat) :=
  match get text ⟨0, byte⟩ with
  | none => throw "invalid measured graph range"
  | some before => pure (before.toList.foldl advance (1, 1))

/-! ### Bytes -/

section Bytes

variable {cs taken rest : List Char} {text : String} {n : Nat}

theorem length_utf8 (cs : List Char) : (Utf.utf8 cs).length = (cs.map Char.utf8Size).sum := by
  induction cs with
  | nil => rfl
  | cons c cs ih =>
      show (String.utf8EncodeChar c ++ Utf.utf8 cs).length = _
      rw [List.length_append, String.length_utf8EncodeChar, ih, List.map_cons, List.sum_cons]

theorem utf8_append (cs ds : List Char) : Utf.utf8 (cs ++ ds) = Utf.utf8 cs ++ Utf.utf8 ds :=
  List.flatMap_append

theorem eq_newline_of_mem {c : Char} (h : (10 : UInt8) ∈ String.utf8EncodeChar c) : c = '\n' := by
  have hbyte : ∀ m : Nat, 10 < m → m < 256 → (10 : UInt8) ≠ UInt8.ofNat m := by
    intro m hlow hhigh heq
    have hnat := congrArg UInt8.toNat heq
    rw [UInt8.toNat_ofNat'] at hnat
    have hten : (10 : UInt8).toNat = 10 := rfl
    omega
  have hlt := Utf.toNat_lt c
  unfold String.utf8EncodeChar at h
  simp only [Char.toNat_val] at h
  split_ifs at h with hone htwo hthree
  · have hnat := congrArg UInt8.toNat (List.mem_singleton.mp h)
    rw [UInt8.toNat_ofNat'] at hnat
    have hten : (10 : UInt8).toNat = 10 := rfl
    have hvalue : c.toNat = '\n'.toNat := by
      have hnewline : '\n'.toNat = 10 := rfl
      omega
    exact Char.toNat_inj.mp hvalue
  · simp only [List.mem_cons, List.not_mem_nil, or_false] at h
    rcases h with h | h
    · exact absurd h (hbyte _ (by omega) (by omega))
    · exact absurd h (hbyte _ (by omega) (by omega))
  · simp only [List.mem_cons, List.not_mem_nil, or_false] at h
    rcases h with h | h | h
    · exact absurd h (hbyte _ (by omega) (by omega))
    · exact absurd h (hbyte _ (by omega) (by omega))
    · exact absurd h (hbyte _ (by omega) (by omega))
  · simp only [List.mem_cons, List.not_mem_nil, or_false] at h
    rcases h with h | h | h | h
    · exact absurd h (hbyte _ (by omega) (by omega))
    · exact absurd h (hbyte _ (by omega) (by omega))
    · exact absurd h (hbyte _ (by omega) (by omega))
    · exact absurd h (hbyte _ (by omega) (by omega))

theorem dropBytes_zero (cs : List Char) : dropBytes cs 0 = some cs := by
  cases cs with
  | nil | cons => rfl

theorem takeBytes_eq_some (h : takeBytes cs n = some taken) :
    ∃ rest, cs = taken ++ rest ∧ (taken.map Char.utf8Size).sum = n := by
  induction cs generalizing n taken with
  | nil =>
      cases n with
      | zero => cases h; exact ⟨[], rfl, rfl⟩
      | succ n => cases h
  | cons c cs ih =>
      cases n with
      | zero => cases h; exact ⟨c :: cs, rfl, rfl⟩
      | succ n =>
          unfold takeBytes at h
          by_cases hsize : c.utf8Size ≤ n + 1
          · rw [if_pos hsize] at h
            obtain ⟨taken', htaken, rfl⟩ := Option.map_eq_some_iff.mp h
            obtain ⟨rest, hrest, hsum⟩ := ih htaken
            refine ⟨rest, by rw [hrest, List.cons_append], ?_⟩
            rw [List.map_cons, List.sum_cons]
            omega
          · rw [if_neg hsize] at h; cases h

theorem takeBytes_of_dropBytes (h : dropBytes cs n = some rest) :
    ∃ taken, takeBytes cs n = some taken := by
  induction cs generalizing n with
  | nil =>
      cases n with
      | zero => exact ⟨[], rfl⟩
      | succ n => cases h
  | cons c cs ih =>
      cases n with
      | zero => exact ⟨[], rfl⟩
      | succ n =>
          unfold dropBytes at h
          by_cases hsize : c.utf8Size ≤ n + 1
          · rw [if_pos hsize] at h
            obtain ⟨taken, htaken⟩ := ih h
            exact ⟨c :: taken, by rw [takeBytes, if_pos hsize, htaken]; rfl⟩
          · rw [if_neg hsize] at h; cases h

end Bytes

/-! ### Starts -/

section Starts

variable {bytes more : List UInt8} {offset start : Nat}

theorem startsIn_append (bytes more : List UInt8) (offset : Nat) :
    startsIn (bytes ++ more) offset = startsIn bytes offset ++ startsIn more (offset + bytes.length) := by
  unfold startsIn
  rw [List.zipIdx_append, List.filterMap_append]

theorem mem_startsIn (h : start ∈ startsIn bytes offset) :
    offset < start ∧ start ≤ offset + bytes.length := by
  obtain ⟨⟨b, i⟩, hmem, hstart⟩ := List.mem_filterMap.mp h
  obtain ⟨hlow, hhigh, -⟩ := List.mem_zipIdx hmem
  by_cases hfeed : b = 10
  · simp only [if_pos hfeed, Option.some.injEq] at hstart
    omega
  · simp only [if_neg hfeed] at hstart
    cases hstart

theorem startsIn_eq_nil (h : (10 : UInt8) ∉ bytes) (offset : Nat) : startsIn bytes offset = [] := by
  refine List.eq_nil_iff_forall_not_mem.mpr fun start hstart => ?_
  obtain ⟨⟨b, i⟩, hmem, hsome⟩ := List.mem_filterMap.mp hstart
  by_cases hfeed : b = 10
  · rw [hfeed] at hmem; exact h (List.fst_mem_of_mem_zipIdx hmem)
  · simp only [if_neg hfeed] at hsome
    cases hsome

/-- **The starts in a beginning of the text say where reading it ends.** -/
theorem scan_eq (cs : List Char) : cs.foldl advance (1, 1) =
    ((startsIn (Utf.utf8 cs) 0).length + 1,
      (Utf.utf8 cs).length - (startsIn (Utf.utf8 cs) 0).getLastD 0 + 1) := by
  induction cs using List.reverseRecOn with
  | nil => rfl
  | append_singleton cs c ih =>
      have hcode : Utf.utf8 [c] = String.utf8EncodeChar c := List.append_nil _
      rw [List.foldl_append, ih, utf8_append, startsIn_append, Nat.zero_add, hcode,
        List.length_append, List.length_append, String.length_utf8EncodeChar]
      by_cases hfeed : c = '\n'
      · have hone : startsIn (String.utf8EncodeChar c) (Utf.utf8 cs).length =
            [(Utf.utf8 cs).length + 1] := by
          rw [hfeed]
          rfl
        have hsize : c.utf8Size = 1 := by
          rw [hfeed]
          rfl
        rw [hone, hsize]
        show advance _ c = _
        unfold advance
        rw [if_pos hfeed]
        simp
      · have hnone : startsIn (String.utf8EncodeChar c) (Utf.utf8 cs).length = [] :=
          startsIn_eq_nil (fun hmem => hfeed (eq_newline_of_mem hmem)) _
        have hlast : (startsIn (Utf.utf8 cs) 0).getLastD 0 ≤ (Utf.utf8 cs).length := by
          rcases List.eq_nil_or_concat (startsIn (Utf.utf8 cs) 0) with hnil | ⟨init, last, heq⟩
          · rw [hnil]; exact Nat.zero_le _
          · have hmem : last ∈ startsIn (Utf.utf8 cs) 0 := by
              rw [heq]
              simp
            rw [heq]
            have hle := (mem_startsIn hmem).2
            simp
            omega
        rw [hnone, List.append_nil, List.length_nil]
        show advance _ c = _
        unfold advance
        rw [if_neg hfeed]
        congr 1
        omega

end Starts

/-- **The index gives what reading the text gives.** -/
theorem location_eq_prefixScan (text : String) (byte : Nat) :
    (LineIndex.new text).location text byte = prefixScan text byte := by
  unfold LineIndex.location prefixScan
  by_cases hboundary : isCharBoundary text byte = true
  · obtain ⟨rest, hrest⟩ := Option.isSome_iff_exists.mp hboundary
    obtain ⟨taken, htaken⟩ := takeBytes_of_dropBytes hrest
    obtain ⟨after, happend, hsum⟩ := takeBytes_eq_some htaken
    have hget : get text ⟨0, byte⟩ = some (String.ofList taken) := by
      unfold get
      rw [if_pos (Nat.zero_le _), dropBytes_zero]
      show (takeBytes text.toList byte).bind _ = _
      rw [htaken]
      rfl
    have hbytes : (Utf.utf8 taken).length = byte := by rw [length_utf8, hsum]
    -- The starts before the byte, and those behind it.
    have hstarts : (LineIndex.new text).starts =
        (0 :: startsIn (Utf.utf8 taken) 0) ++ startsIn (Utf.utf8 after) byte := by
      show 0 :: startsIn (Utf.utf8 text.toList) 0 = _
      rw [happend, utf8_append, startsIn_append, Nat.zero_add, hbytes, List.cons_append]
    have hbefore : ∀ start ∈ 0 :: startsIn (Utf.utf8 taken) 0, decide (start ≤ byte) = true := by
      intro start hstart
      rcases List.mem_cons.mp hstart with hzero | hmem
      · rw [hzero]; exact decide_eq_true (Nat.zero_le _)
      · have hle := (mem_startsIn hmem).2
        exact decide_eq_true (by omega)
    have hbehind : ∀ start ∈ startsIn (Utf.utf8 after) byte, decide (start ≤ byte) = false := by
      intro start hstart
      have hlt := (mem_startsIn hstart).1
      exact decide_eq_false (by omega)
    have hline : partitionPoint (fun start => decide (start ≤ byte)) (LineIndex.new text).starts =
        (startsIn (Utf.utf8 taken) 0).length + 1 := by
      rw [hstarts]
      exact (Bisect.partitioned_append hbefore hbehind).partitionPoint
    have hlast : (LineIndex.new text).starts[(startsIn (Utf.utf8 taken) 0).length]? =
        some ((startsIn (Utf.utf8 taken) 0).getLastD 0) := by
      rw [hstarts, List.getElem?_append_left (by rw [List.length_cons]; omega)]
      rcases List.eq_nil_or_concat (startsIn (Utf.utf8 taken) 0) with hnil | ⟨init, last, heq⟩
      · rw [hnil]; rfl
      · rw [heq]; simp
    have hensure : byte ≤ byteLength text ∧ isCharBoundary text byte = true :=
      ⟨isCharBoundary_le hboundary, hboundary⟩
    unfold ensure
    rw [if_pos hensure, hget]
    show (match (LineIndex.new text).starts[partitionPoint (fun start => decide (start ≤ byte))
      (LineIndex.new text).starts - 1]? with
      | none => throw "index out of bounds"
      | some start => pure (partitionPoint (fun start => decide (start ≤ byte))
          (LineIndex.new text).starts, byte - start + 1)) = _
    rw [hline, Nat.add_sub_cancel, hlast]
    dsimp only
    rw [String.toList_ofList, scan_eq, hbytes]
  · have hget : get text ⟨0, byte⟩ = none := by
      cases hsome : get text ⟨0, byte⟩ with
      | none => rfl
      | some before => exact absurd (get_eq_some hsome).2.1 hboundary
    unfold ensure
    rw [if_neg (fun h => hboundary h.2), hget]
    rfl

end Baleyg.Native
