/-
Framing: lines out of a buffered stream.

`read_frame` asks its reader for what is buffered, keeps as much of it as still fits into a
line, consumes it and goes on until a line feed has come by.  What is buffered at a time is up
to the other side and to the system, so a line can arrive in any pieces, and the line feed in
the middle of one.

The loop carries what it kept and whether it dropped anything.  `Kept` says what these two are
of the part of the line that went by, which is all that an iteration needs: where the pieces
end does not enter.
-/
import Baleyg.Mcp.Wire

namespace Baleyg.Mcp

def lineFeed : UInt8 := 10

def Frame.isEof : Frame → Bool
  | eof => true
  | line _ | oversized => false

/-! ### Readers -/

/-- A buffered reader: the buffers it shows one after another, the first one in front of what
is not consumed yet.  An empty buffer is the end, so none of these is empty. -/
structure Reader where
  buffers : List (List UInt8)
  filled : ∀ b ∈ buffers, b ≠ []

namespace Reader

def stream (r : Reader) : List UInt8 := r.buffers.flatten

def fillBuf (r : Reader) : List UInt8 := r.buffers.headD []

def consume (r : Reader) (n : Nat) : Reader :=
  match r with
  | ⟨[], filled⟩ => ⟨[], filled⟩
  | ⟨b :: rest, filled⟩ =>
      if h : b.drop n = [] then ⟨rest, fun b hb => filled b (List.mem_cons_of_mem _ hb)⟩
      else ⟨b.drop n :: rest, List.forall_mem_cons.mpr
        ⟨h, fun b hb => filled b (List.mem_cons_of_mem _ hb)⟩⟩

variable {r : Reader}

theorem fillBuf_eq_nil : r.fillBuf = [] ↔ r.stream = [] := by
  obtain ⟨buffers, filled⟩ := r
  cases buffers with
  | nil => exact ⟨fun _ => rfl, fun _ => rfl⟩
  | cons b rest =>
      have hb : b ≠ [] := filled b List.mem_cons_self
      constructor
      · intro h; exact absurd h hb
      · intro h
        unfold stream at h
        rw [List.flatten_cons, List.append_eq_nil_iff] at h
        exact absurd h.1 hb

theorem fillBuf_prefix : r.fillBuf <+: r.stream := by
  obtain ⟨buffers, filled⟩ := r
  cases buffers with
  | nil => exact List.nil_prefix
  | cons b rest => exact ⟨rest.flatten, rfl⟩

theorem stream_consume {n : Nat} (h : n ≤ r.fillBuf.length) :
    (r.consume n).stream = r.stream.drop n := by
  obtain ⟨buffers, filled⟩ := r
  cases buffers with
  | nil => exact List.drop_nil.symm
  | cons b rest =>
      have hdrop : (b ++ rest.flatten).drop n = b.drop n ++ rest.flatten :=
        List.drop_append_of_le_length h
      by_cases hempty : b.drop n = []
      · have hconsume : consume ⟨b :: rest, filled⟩ n = ⟨rest, _⟩ := dif_pos hempty
        rw [hconsume]
        show rest.flatten = (b ++ rest.flatten).drop n
        rw [hdrop, hempty, List.nil_append]
      · have hconsume : consume ⟨b :: rest, filled⟩ n = ⟨b.drop n :: rest, _⟩ := dif_neg hempty
        rw [hconsume]
        exact hdrop.symm

theorem stream_consume_lt {n : Nat} (hn : 0 < n) (h : n ≤ r.fillBuf.length) :
    (r.consume n).stream.length < r.stream.length := by
  have hle : r.fillBuf.length ≤ r.stream.length := fillBuf_prefix.length_le
  rw [stream_consume h, List.length_drop]
  omega

end Reader

/-! ### Reading frames -/

/-- Up to where an iteration reads: its line feed, or all there is. -/
def position (available : List UInt8) : Nat := available.idxOf lineFeed

theorem position_le (available : List UInt8) : position available ≤ available.length :=
  List.idxOf_le_length

/-- How much an iteration consumes: the line feed too, if there is one. -/
def taken (available : List UInt8) : Nat :=
  position available + if lineFeed ∈ available then 1 else 0

theorem taken_le (available : List UInt8) : taken available ≤ available.length := by
  unfold taken position
  split
  · rename_i h
    exact List.idxOf_lt_length_of_mem h
  · exact List.idxOf_le_length

theorem taken_pos {available : List UInt8} (h : available ≠ []) : 0 < taken available := by
  unfold taken
  split
  · omega
  · rename_i hmem
    have hlen := List.length_pos_iff.mpr h
    unfold position
    rw [List.idxOf_eq_length hmem]
    omega

/-- The loop of `read_frame`. -/
def readFrom (bytes : List UInt8) (oversized : Bool) (r : Reader) : Frame × Reader :=
  let available := r.fillBuf
  if available = [] then (.eof, r)
  else
    let n := position available
    let keep := min (requestBytes - bytes.length) n
    let bytes' := if oversized then bytes else bytes ++ available.take keep
    let oversized' := if oversized then true else decide (keep < n)
    if lineFeed ∈ available then
      (if oversized' then .oversized else .line bytes', r.consume (taken available))
    else readFrom bytes' oversized' (r.consume (taken available))
termination_by r.stream.length
decreasing_by
  rename_i hempty _
  exact Reader.stream_consume_lt (taken_pos hempty) (taken_le _)

def readFrame (r : Reader) : Frame × Reader := readFrom [] false r

/-! ### One frame -/

def frameOf (line : List UInt8) : Frame :=
  if line.length ≤ requestBytes then .line line else .oversized

theorem frameOf_isEof (line : List UInt8) : (frameOf line).isEof = false := by
  unfold frameOf
  split <;> rfl

/-- What the loop carries of the part of a line that went by. -/
def Kept (seen bytes : List UInt8) (oversized : Bool) : Prop :=
  oversized = decide (requestBytes < seen.length) ∧ (oversized = false → bytes = seen)

theorem kept_nil : Kept [] [] false := ⟨rfl, fun _ => rfl⟩

theorem Kept.frame {seen bytes : List UInt8} {oversized : Bool} (h : Kept seen bytes oversized) :
    (if oversized then Frame.oversized else .line bytes) = frameOf seen := by
  obtain ⟨hoversized, hbytes⟩ := h
  unfold frameOf
  cases oversized with
  | true =>
      have hlt : requestBytes < seen.length := of_decide_eq_true hoversized.symm
      rw [if_pos rfl, if_neg (Nat.not_le.mpr hlt)]
  | false =>
      have hle : ¬ requestBytes < seen.length := of_decide_eq_false hoversized.symm
      rw [if_neg Bool.false_ne_true, if_pos (Nat.not_lt.mp hle), hbytes rfl]

/-- **An iteration keeps what it should of the piece it read.** -/
theorem Kept.step {seen bytes : List UInt8} {oversized : Bool} (h : Kept seen bytes oversized)
    {available : List UInt8} {n keep : Nat} (hn : n ≤ available.length)
    (hkeep : keep = min (requestBytes - bytes.length) n) :
    Kept (seen ++ available.take n) (if oversized then bytes else bytes ++ available.take keep)
      (if oversized then true else decide (keep < n)) := by
  obtain ⟨hoversized, hbytes⟩ := h
  have hlen : (seen ++ available.take n).length = seen.length + n := by
    rw [List.length_append, List.length_take, Nat.min_eq_left hn]
  unfold Kept
  rw [hlen]
  cases oversized with
  | true =>
      have hlt : requestBytes < seen.length := of_decide_eq_true hoversized.symm
      simp only [if_true]
      refine ⟨(decide_eq_true ?_).symm, fun h => by cases h⟩
      omega
  | false =>
      have hle : ¬ requestBytes < seen.length := of_decide_eq_false hoversized.symm
      obtain rfl := hbytes rfl
      simp only [Bool.false_eq_true, if_false]
      constructor
      · rw [decide_eq_decide]; omega
      · intro hfits
        have hfits : ¬ keep < n := of_decide_eq_false hfits
        have hall : keep = n := by omega
        rw [hall]

section Frames

variable {r : Reader} {seen bytes : List UInt8} {oversized : Bool}

/-- **Without a line feed there is no frame.** -/
theorem readFrom_of_not_mem (bytes : List UInt8) (oversized : Bool) (h : lineFeed ∉ r.stream) :
    ∃ r', readFrom bytes oversized r = (.eof, r') ∧ r'.stream = [] := by
  induction hn : r.stream.length using Nat.strongRecOn generalizing r bytes oversized with
  | _ n ih =>
      unfold readFrom
      by_cases hempty : r.fillBuf = []
      · refine ⟨r, ?_, Reader.fillBuf_eq_nil.mp hempty⟩
        simp only [hempty, if_pos]
      · have hnot : lineFeed ∉ r.fillBuf := fun hmem => h (Reader.fillBuf_prefix.subset hmem)
        have hlt := Reader.stream_consume_lt (taken_pos hempty) (taken_le r.fillBuf)
        have hrest : lineFeed ∉ (r.consume (taken r.fillBuf)).stream := by
          rw [Reader.stream_consume (taken_le _)]
          exact fun hmem => h (List.mem_of_mem_drop hmem)
        simp only [hempty, if_neg, not_false_eq_true, if_neg hnot]
        exact ih _ (hn ▸ hlt) _ _ hrest rfl

/-- **A line is read whole, or as too long, and what follows is left.** -/
theorem readFrom_of_line (hkept : Kept seen bytes oversized) {line rest : List UInt8}
    (hline : lineFeed ∉ line) (h : r.stream = line ++ lineFeed :: rest) :
    ∃ r', readFrom bytes oversized r = (frameOf (seen ++ line), r') ∧ r'.stream = rest := by
  induction hn : r.stream.length using Nat.strongRecOn generalizing r seen bytes oversized line with
  | _ n ih =>
      have hempty : r.fillBuf ≠ [] := fun hempty => by
        rw [Reader.fillBuf_eq_nil.mp hempty] at h
        exact absurd h.symm (List.append_ne_nil_of_right_ne_nil _ (List.cons_ne_nil _ _))
      obtain ⟨more, hmore⟩ := Reader.fillBuf_prefix (r := r)
      have hstep := hkept.step (position_le r.fillBuf) rfl
      have hstream := Reader.stream_consume (taken_le r.fillBuf)
      unfold readFrom
      simp only [hempty, if_neg, not_false_eq_true]
      by_cases hmem : lineFeed ∈ r.fillBuf
      · -- the line feed is in this piece, so the line ends there
        have hposition : position r.fillBuf = line.length := by
          have hwhole : r.stream.idxOf lineFeed = line.length := by
            rw [h, List.idxOf_append_of_notMem hline, List.idxOf_cons_self, Nat.add_zero]
          rw [← hmore, List.idxOf_append_of_mem hmem] at hwhole
          exact hwhole
        have htake : r.fillBuf.take (position r.fillBuf) = line := by
          have hlonger := @List.take_append_of_le_length _ r.fillBuf more _ (position_le r.fillBuf)
          rw [← hlonger, hmore, h, hposition]
          exact List.take_left
        have htaken : taken r.fillBuf = line.length + 1 := by
          unfold taken
          rw [if_pos hmem, hposition]
        rw [htake] at hstep
        simp only [if_pos hmem]
        refine ⟨_, congrArg (·, _) hstep.frame, ?_⟩
        rw [hstream, h, htaken, List.drop_append]
        simp
      · -- the piece is the beginning of the line
        have hposition : position r.fillBuf = r.fillBuf.length := List.idxOf_eq_length hmem
        have htaken : taken r.fillBuf = r.fillBuf.length := by
          unfold taken
          rw [if_neg hmem, hposition, Nat.add_zero]
        rw [hposition, List.take_length] at hstep
        have hlt := Reader.stream_consume_lt (taken_pos hempty) (taken_le r.fillBuf)
        obtain ⟨line', rfl, hmore'⟩ : ∃ line', line = r.fillBuf ++ line' ∧
            more = line' ++ lineFeed :: rest := by
          rw [← hmore] at h
          rcases List.append_eq_append_iff.mp h with ⟨line', hl, hm⟩ | ⟨tail, hb, hl⟩
          · exact ⟨line', hl, hm⟩
          · cases tail with
            | nil =>
                refine ⟨[], ?_, hl.symm⟩
                rw [List.append_nil] at hb ⊢
                exact hb.symm
            | cons byte tail =>
                obtain rfl := List.head_eq_of_cons_eq hl
                exact absurd (hb ▸ List.mem_append_right line List.mem_cons_self) hmem
        have hrest : (r.consume (taken r.fillBuf)).stream = line' ++ lineFeed :: rest := by
          rw [hstream, ← hmore, htaken, List.drop_left, hmore']
        rw [List.mem_append, not_or] at hline
        simp only [if_neg hmem]
        obtain ⟨r', hread, hleft⟩ := ih _ (hn ▸ hlt) hstep hline.2 hrest rfl
        rw [hposition]
        exact ⟨r', by rw [hread, List.append_assoc], hleft⟩

theorem readFrame_lt (h : (readFrame r).1.isEof = false) :
    (readFrame r).2.stream.length < r.stream.length := by
  by_cases hmem : lineFeed ∈ r.stream
  · obtain ⟨line, rest, hstream, hline⟩ := List.eq_append_cons_of_mem hmem
    obtain ⟨r', hread, hrest⟩ := readFrom_of_line kept_nil hline hstream
    unfold readFrame
    rw [hread, hrest, hstream, List.length_append, List.length_cons]
    omega
  · obtain ⟨r', hread, -⟩ := readFrom_of_not_mem [] false hmem
    unfold readFrame at h
    rw [hread] at h
    cases h

end Frames

/-! ### All frames -/

def frames (r : Reader) : List Frame :=
  if (readFrame r).1.isEof = true then [] else (readFrame r).1 :: frames (readFrame r).2
termination_by r.stream.length
decreasing_by
  rename_i hframe
  exact readFrame_lt (Bool.eq_false_of_not_eq_true hframe)

def lines (stream : List UInt8) : List (List UInt8) := (stream.splitOn lineFeed).dropLast

theorem lines_of_not_mem {stream : List UInt8} (h : lineFeed ∉ stream) : lines stream = [] := by
  unfold lines
  rw [List.splitOn_eq_singleton h]
  rfl

theorem lines_cons {line rest : List UInt8} (h : lineFeed ∉ line) :
    lines (line ++ lineFeed :: rest) = line :: lines rest := by
  unfold lines
  rw [List.splitOn_append_cons_self_of_not_mem h]
  exact List.dropLast_cons_of_ne_nil (List.splitOn_ne_nil _ _)

theorem frames_of_eof {r r' : Reader} (h : readFrame r = (.eof, r')) : frames r = [] := by
  unfold frames
  rw [h]
  exact if_pos rfl

theorem frames_of_line {r r' : Reader} {line : List UInt8}
    (h : readFrame r = (frameOf line, r')) : frames r = frameOf line :: frames r' := by
  rw [frames, h]
  exact if_neg (by rw [frameOf_isEof]; exact Bool.false_ne_true)

/-- **The frames are the lines.** -/
theorem frames_eq_lines (r : Reader) : frames r = (lines r.stream).map frameOf := by
  induction hn : r.stream.length using Nat.strongRecOn generalizing r with
  | _ n ih =>
      by_cases hmem : lineFeed ∈ r.stream
      · obtain ⟨line, rest, hstream, hline⟩ := List.eq_append_cons_of_mem hmem
        obtain ⟨r', hread, hrest⟩ := readFrom_of_line kept_nil hline hstream
        rw [List.nil_append] at hread
        have hlt : r'.stream.length < n := by
          rw [← hn, hrest, hstream, List.length_append, List.length_cons]
          omega
        rw [frames_of_line hread, ih _ hlt r' rfl, hrest, hstream, lines_cons hline,
          List.map_cons]
      · obtain ⟨r', hread, -⟩ := readFrom_of_not_mem [] false hmem
        rw [frames_of_eof hread, lines_of_not_mem hmem]
        rfl

/-- **Framing does not depend on chunking.**  However the buffers split the stream, the frames
are its lines, in order, each whole if it is within the limit and else one `oversized`; a tail
without a line feed is none, and another split gives the same frames. -/
theorem frames_of_stream (r : Reader) :
    frames r = (lines r.stream).map frameOf ∧
      ∀ r' : Reader, r'.stream = r.stream → frames r' = frames r := by
  refine ⟨frames_eq_lines r, fun r' hstream => ?_⟩
  rw [frames_eq_lines, frames_eq_lines, hstream]

end Baleyg.Mcp
