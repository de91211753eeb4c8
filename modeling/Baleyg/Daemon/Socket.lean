/-
Replies over the daemon's socket.

A message is JSON behind its length in four bytes.  A reply that does not fit into one frame is
sent as several: its payload's JSON is cut into chunks, and a frame carries a chunk in hexadecimal
digits and whether more follow.  The reader puts the chunks together again and parses what they
spell.

That a stream which breaks off is never taken for a shorter reply needs no look into the frames:
what was read from some bytes is read from more of them too, and what all of them hold leaves
nothing over.
-/
import Baleyg.Daemon.Compact

namespace Baleyg.Daemon.Socket

open Mcp (Json)
open Utf (utf8)

/-! ### Messages -/

/-- `Value::get` of a key. -/
def get (v : Json) (key : String) : Option Json := v.asObject?.bind fun fields => Json.get fields key

def asBool : Json → Option Bool
  | .bool b => some b
  | _ => none

def maxFrame : Nat := 1024 * 1024

structure Reply where
  id : UInt64
  payload : Json

def Reply.toJson (r : Reply) : Json :=
  .obj [("id", .num (toString r.id.toNat)), ("payload", r.payload)]

inductive Failure where
  | unexpectedEof
  | invalidData (text : String)
  | json
  | hex
deriving DecidableEq

def tooLarge : Failure := .invalidData "daemon frame too large"
def mismatch : Failure := .invalidData "daemon reply ID mismatch"

/-- `serde_json`'s `from_slice`, of a value and of a reply. -/
structure Serde where
  value : Bytes → Option Json
  reply : Bytes → Option Reply

/-- How deep `serde_json` follows nested arrays and objects. -/
def recursionLimit : Nat := 127

/-- **What `serde_json` is documented to do**: it reads what it wrote, numbers included, up to its
recursion limit, and refuses what is nested deeper. -/
structure Serde.Documented (serde : Serde) : Prop where
  value_reads : ∀ v, Plain v → depth v ≤ recursionLimit → serde.value (toVec v) = some v
  value_refuses : ∀ v, Plain v → recursionLimit < depth v → serde.value (toVec v) = none
  reply_reads : ∀ r : Reply, Plain r.payload → depth r.toJson ≤ recursionLimit →
    serde.reply (toVec r.toJson) = some r
  reply_refuses : ∀ r : Reply, Plain r.payload → recursionLimit < depth r.toJson →
    serde.reply (toVec r.toJson) = none

def toBeBytes (n : Nat) : Bytes :=
  [n / 2 ^ 24, n / 2 ^ 16, n / 2 ^ 8, n].map UInt8.ofNat

def fromBeBytes (bytes : Bytes) : Nat := bytes.foldl (fun n b => 256 * n + b.toNat) 0

/-- `write_frame` of a reply: the bytes that go out. -/
def writeFrame (message : Reply) : Except Failure Bytes :=
  let bytes := toVec message.toJson
  if maxFrame < bytes.length then .error tooLarge
  else .ok (toBeBytes bytes.length ++ bytes)

/-- `Read::read_exact`, and what is left of the stream. -/
def readExact (n : Nat) (stream : Bytes) : Except Failure (Bytes × Bytes) :=
  if stream.length < n then .error .unexpectedEof else .ok (stream.splitAt n)

def readFrame (serde : Serde) (stream : Bytes) : Except Failure (Reply × Bytes) := do
  let (length, stream) ← readExact 4 stream
  let size := fromBeBytes length
  if maxFrame < size then throw tooLarge
  let (bytes, stream) ← readExact size stream
  match serde.reply bytes with
  | none => throw .json
  | some reply => return (reply, stream)

/-! ### Writing a reply -/

def chunkBytes : Nat := 450000

def chunks (n : Nat) (bytes : Bytes) : List Bytes :=
  (List.range ((bytes.length + n - 1) / n)).map fun i => (bytes.drop (i * n)).take n

def chunkPayload (chunk : Bytes) (more : Bool) : Json :=
  .obj [("chunk", .str (String.ofList (Hex.encode chunk))), ("more", .bool more)]

def Reply.fits (r : Reply) : Bool := (toVec r.payload).length + 64 ≤ maxFrame

def replies (reply : Reply) : List Reply :=
  let payload := toVec reply.payload
  if reply.fits then [reply]
  else
    (chunks chunkBytes payload).zipIdx.map fun (chunk, index) =>
      ⟨reply.id, chunkPayload chunk ((index + 1) * chunkBytes < payload.length)⟩

def writeAll : List Reply → Except Failure Bytes
  | [] => return []
  | message :: messages => do
      let frame ← writeFrame message
      let rest ← writeAll messages
      return frame ++ rest

def writeDaemonReply (reply : Reply) : Except Failure Bytes := writeAll (replies reply)

/-! ### Reading a reply -/

def readOwn (serde : Serde) (id : UInt64) (stream : Bytes) : Except Failure (Reply × Bytes) := do
  let (reply, stream) ← readFrame serde stream
  if reply.id ≠ id then throw mismatch
  return (reply, stream)

def part (reply : Reply) : Except Failure (Bytes × Bool) :=
  match (get reply.payload "chunk").bind Json.asStr? with
  | none => throw (.invalidData "invalid daemon chunk")
  | some chunk =>
      match Hex.decode chunk.toList with
      | none => throw .hex
      | some bytes =>
          match (get reply.payload "more").bind asBool with
          | none => throw (.invalidData "missing daemon chunk flag")
          | some more => return (bytes, more)

/-! ### What is read -/

section Reading

variable {serde : Serde} {stream rest : Bytes} {r : Reply}

theorem readExact_append (bytes rest : Bytes) :
    readExact bytes.length (bytes ++ rest) = .ok (bytes, rest) := by
  have hlong : ¬ (bytes ++ rest).length < bytes.length := by
    rw [List.length_append]
    omega
  unfold readExact
  rw [if_neg hlong, List.splitAt_eq, List.take_left, List.drop_left]

theorem eq_of_readExact {n : Nat} {bytes : Bytes} (h : readExact n stream = .ok (bytes, rest)) :
    bytes.length = n ∧ stream = bytes ++ rest := by
  unfold readExact at h
  by_cases hshort : stream.length < n
  · rw [if_pos hshort] at h; contradiction
  · rw [if_neg hshort, Except.ok.injEq, List.splitAt_eq, Prod.mk.injEq] at h
    obtain ⟨rfl, rfl⟩ := h
    exact ⟨List.length_take_of_le (by omega), (List.take_append_drop n stream).symm⟩

/-- **What a frame holds**: its length, and so many bytes that are read as a reply. -/
structure Framed (serde : Serde) (stream : Bytes) (r : Reply) (rest length bytes : Bytes) :
    Prop where
  split : stream = length ++ (bytes ++ rest)
  four : length.length = 4
  size : fromBeBytes length = bytes.length
  small : bytes.length ≤ maxFrame
  read : serde.reply bytes = some r

theorem readFrame_of_split {length bytes : Bytes} (hfour : length.length = 4)
    (hsize : fromBeBytes length = bytes.length) (hsmall : bytes.length ≤ maxFrame) :
    readFrame serde (length ++ (bytes ++ rest)) =
      (serde.reply bytes).elim (.error .json) fun r => .ok (r, rest) := by
  have hlength := readExact_append length (bytes ++ rest)
  rw [hfour] at hlength
  unfold readFrame
  simp only [hlength, bind, Except.bind, hsize, if_neg (Nat.not_lt.mpr hsmall),
    readExact_append bytes rest]
  cases serde.reply bytes <;> rfl

theorem Framed.of_readFrame (h : readFrame serde stream = .ok (r, rest)) :
    ∃ length bytes, Framed serde stream r rest length bytes := by
  unfold readFrame at h
  cases hlength : readExact 4 stream with
  | error e => rw [hlength] at h; contradiction
  | ok first =>
      obtain ⟨length, stream'⟩ := first
      obtain ⟨hfour, hfirst⟩ := eq_of_readExact hlength
      rw [hlength] at h
      simp only [bind, Except.bind] at h
      by_cases hlarge : maxFrame < fromBeBytes length
      · rw [if_pos hlarge] at h; contradiction
      · rw [if_neg hlarge] at h
        cases hbytes : readExact (fromBeBytes length) stream' with
        | error e =>
            simp only [hbytes] at h
            contradiction
        | ok second =>
            obtain ⟨bytes, stream''⟩ := second
            obtain ⟨hsize, hsecond⟩ := eq_of_readExact hbytes
            simp only [hbytes] at h
            cases hreply : serde.reply bytes with
            | none =>
                simp only [hreply] at h
                contradiction
            | some reply =>
                simp only [hreply] at h
                cases h
                refine ⟨length, bytes, ?_, hfour, hsize.symm, by omega, hreply⟩
                rw [hfirst, hsecond]

theorem readFrame_append (h : readFrame serde stream = .ok (r, rest)) (more : Bytes) :
    readFrame serde (stream ++ more) = .ok (r, rest ++ more) := by
  obtain ⟨length, bytes, hframed⟩ := Framed.of_readFrame h
  rw [hframed.split, List.append_assoc, List.append_assoc,
    readFrame_of_split hframed.four hframed.size hframed.small, hframed.read, Option.elim_some]

theorem length_readFrame (h : readFrame serde stream = .ok (r, rest)) :
    rest.length < stream.length := by
  obtain ⟨length, bytes, hframed⟩ := Framed.of_readFrame h
  have hfour := hframed.four
  rw [hframed.split, List.length_append, List.length_append]
  omega

theorem readOwn_eq_ok {id : UInt64} :
    readOwn serde id stream = .ok (r, rest) ↔
      readFrame serde stream = .ok (r, rest) ∧ r.id = id := by
  unfold readOwn
  cases hread : readFrame serde stream with
  | error e => simp [bind, Except.bind]
  | ok first =>
      obtain ⟨reply, rest'⟩ := first
      by_cases hid : reply.id = id
      · simp only [bind, Except.bind, hid, ne_eq, not_true_eq_false, if_false]
        constructor
        · intro h
          cases h
          exact ⟨rfl, hid⟩
        · rintro ⟨h, -⟩
          cases h
          rfl
      · simp only [bind, Except.bind, hid, ne_eq, not_false_eq_true, if_true]
        constructor
        · intro h; contradiction
        · rintro ⟨h, hid'⟩
          cases h
          exact absurd hid' hid

end Reading

/-- Chunks put together, from the frame that is at hand on. -/
def collect (serde : Serde) (id : UInt64) (bytes : Bytes) (reply : Reply) (stream : Bytes) :
    Except Failure (Reply × Bytes) :=
  match part reply with
  | .error e => .error e
  | .ok (chunk, false) =>
      (serde.value (bytes ++ chunk)).elim (.error .json) fun payload => .ok (⟨id, payload⟩, stream)
  | .ok (chunk, true) =>
      match _hnext : readOwn serde id stream with
      | .error e => .error e
      | .ok (next, rest) => collect serde id (bytes ++ chunk) next rest
termination_by stream.length
decreasing_by exact length_readFrame (readOwn_eq_ok.mp _hnext).1

def readReply (serde : Serde) (stream : Bytes) (id : UInt64) : Except Failure (Reply × Bytes) := do
  let (reply, stream) ← readOwn serde id stream
  if (get reply.payload "chunk").isNone then return (reply, stream)
  collect serde id [] reply stream

/-! ### More bytes than were read -/

section Append

variable {serde : Serde} {id : UInt64} {bytes stream rest : Bytes} {reply next r : Reply}

theorem collect_of_last {chunk : Bytes} (h : part reply = .ok (chunk, false)) :
    collect serde id bytes reply stream =
      (serde.value (bytes ++ chunk)).elim (.error .json)
        fun payload => .ok (⟨id, payload⟩, stream) := by
  rw [collect, h]

theorem collect_of_next {chunk : Bytes} (h : part reply = .ok (chunk, true))
    (hnext : readOwn serde id stream = .ok (next, rest)) :
    collect serde id bytes reply stream = collect serde id (bytes ++ chunk) next rest := by
  rw [collect, h]
  simp only
  split
  · rename_i e herror
    rw [hnext] at herror
    contradiction
  · rename_i next' rest' hnext'
    rw [hnext] at hnext'
    cases hnext'
    rfl

theorem collect_of_error {chunk : Bytes} {e : Failure} (h : part reply = .ok (chunk, true))
    (hnext : readOwn serde id stream = .error e) :
    collect serde id bytes reply stream = .error e := by
  rw [collect, h]
  simp only
  split
  · rename_i e' herror
    rw [hnext] at herror
    cases herror
    rfl
  · rename_i next' rest' hnext'
    rw [hnext] at hnext'
    contradiction

theorem collect_append (more : Bytes) :
    collect serde id bytes reply stream = .ok (r, rest) →
      collect serde id bytes reply (stream ++ more) = .ok (r, rest ++ more) := by
  induction hlength : stream.length using Nat.strong_induction_on generalizing bytes reply stream with
  | _ n ih =>
      intro h
      cases hpart : part reply with
      | error e => rw [collect, hpart] at h; contradiction
      | ok found =>
          obtain ⟨chunk, following⟩ := found
          cases following with
          | false =>
              rw [collect_of_last hpart] at h ⊢
              cases hvalue : serde.value (bytes ++ chunk) with
              | none => rw [hvalue, Option.elim_none] at h; contradiction
              | some payload =>
                  rw [hvalue, Option.elim_some] at h
                  cases h
                  rw [Option.elim_some]
          | true =>
              cases hnext : readOwn serde id stream with
              | error e => rw [collect_of_error hpart hnext] at h; contradiction
              | ok found =>
                  obtain ⟨next, left⟩ := found
                  rw [collect_of_next hpart hnext] at h
                  obtain ⟨hread, hid⟩ := readOwn_eq_ok.mp hnext
                  have hmore := readOwn_eq_ok.mpr ⟨readFrame_append hread more, hid⟩
                  rw [collect_of_next hpart hmore]
                  exact ih left.length (hlength ▸ length_readFrame hread) rfl h

theorem readReply_of_readOwn (h : readOwn serde id stream = .ok (reply, rest)) :
    readReply serde stream id =
      if (get reply.payload "chunk").isNone then .ok (reply, rest)
      else collect serde id [] reply rest := by
  unfold readReply
  simp only [h, bind, Except.bind]
  by_cases hchunk : (get reply.payload "chunk").isNone
  · rw [if_pos hchunk, if_pos hchunk]; rfl
  · rw [if_neg hchunk, if_neg hchunk]

theorem readReply_of_error {e : Failure} (h : readOwn serde id stream = .error e) :
    readReply serde stream id = .error e := by
  unfold readReply
  rw [h]
  rfl

/-- **A reply that was read is read in front of more bytes too.** -/
theorem readReply_append (h : readReply serde stream id = .ok (r, rest)) (more : Bytes) :
    readReply serde (stream ++ more) id = .ok (r, rest ++ more) := by
  cases hown : readOwn serde id stream with
  | error e => rw [readReply_of_error hown] at h; contradiction
  | ok found =>
      obtain ⟨reply, left⟩ := found
      obtain ⟨hread, hid⟩ := readOwn_eq_ok.mp hown
      have hmore := readOwn_eq_ok.mpr ⟨readFrame_append hread more, hid⟩
      rw [readReply_of_readOwn hown] at h
      rw [readReply_of_readOwn hmore]
      by_cases hchunk : (get reply.payload "chunk").isNone
      · rw [if_pos hchunk] at h ⊢
        cases h
        rfl
      · rw [if_neg hchunk] at h ⊢
        exact collect_append more h

/-- Bytes that leave nothing over, or that are not read at all, are read nowhere before their
end. -/
theorem readReply_cut (hwhole : ∀ r rest, readReply serde stream id = .ok (r, rest) → rest = [])
    {cut : Bytes} (hcut : cut <+: stream) (hne : cut ≠ stream) :
    ∃ e, readReply serde cut id = .error e := by
  obtain ⟨more, rfl⟩ := hcut
  cases hread : readReply serde cut id with
  | error e => exact ⟨e, rfl⟩
  | ok found =>
      obtain ⟨r, rest⟩ := found
      have hnil := hwhole r (rest ++ more) (readReply_append hread more)
      have hmore := (List.append_eq_nil_iff.mp hnil).2
      rw [hmore, List.append_nil] at hne
      exact absurd rfl hne

end Append

/-! ### How long a frame is -/

theorem fromBeBytes_toBeBytes {n : Nat} (h : n < 2 ^ 32) : fromBeBytes (toBeBytes n) = n := by
  unfold fromBeBytes toBeBytes
  simp only [List.map_cons, List.map_nil, List.foldl_cons, List.foldl_nil, UInt8.toNat_ofNat']
  omega

theorem length_utf8 (text : List Char) : (utf8 text).length = Json.weigh Char.utf8Size text := by
  induction text with
  | nil => rfl
  | cons c text ih =>
      show (String.utf8EncodeChar c ++ utf8 text).length = _
      rw [List.length_append, String.length_utf8EncodeChar, ih, Json.weigh_cons]

theorem length_toVec (v : Json) : (toVec v).length = Json.weight Char.utf8Size v :=
  length_utf8 v.emit

theorem length_toJson (r : Reply) :
    (toVec r.toJson).length ≤ (toVec r.payload).length + 38 := by
  have hid : r.id.toNat < 10 ^ 20 := Nat.lt_trans r.id.toNat_lt (by decide)
  have hdigits := (Json.weight_nat_le (by decide : 0 < 20) hid).1
  have hidkey : Json.weigh Char.utf8Size (Json.quote "id".toList) = 4 := by decide
  have hpayload : Json.weigh Char.utf8Size (Json.quote "payload".toList) = 9 := by decide
  have hsigns : Char.utf8Size '\x7b' = 1 ∧ Char.utf8Size '\x7d' = 1 ∧ Char.utf8Size ':' = 1 ∧
      Char.utf8Size ',' = 1 := by decide
  rw [length_toVec, length_toVec]
  unfold Reply.toJson
  rw [Json.weight_obj]
  simp only [Json.weigh_emitMembers_cons, Json.weigh_emitMembers_nil, hidkey, hpayload, hsigns]
  simp only [Json.comma, Json.weigh_nil, Json.weigh_cons, if_true, Bool.false_eq_true, if_false, hsigns]
  omega

theorem escape_digit : ∀ n < 16, Json.escape (Hex.digit n) = [Hex.digit n] ∧
    (Hex.digit n).utf8Size = 1 := by decide

/-- A chunk is twice as long in digits, which stand for themselves in a string. -/
theorem weigh_quote_encode (chunk : Bytes) :
    Json.weigh Char.utf8Size (Json.quote (Hex.encode chunk)) = 2 * chunk.length + 2 := by
  have hescape : (Hex.encode chunk).flatMap Json.escape = Hex.encode chunk := by
    calc (Hex.encode chunk).flatMap Json.escape
        = (Hex.encode chunk).flatMap fun c => [c] := by
          apply List.flatMap_congr
          intro c hc
          obtain ⟨n, hn, rfl⟩ := Hex.isDigit_of_mem_encode hc
          exact (escape_digit n hn).1
      _ = Hex.encode chunk := List.flatMap_singleton' _
  have hlength : Json.weigh Char.utf8Size (Hex.encode chunk) = (Hex.encode chunk).length := by
    apply Json.weigh_eq_length
    intro c hc
    obtain ⟨n, hn, rfl⟩ := Hex.isDigit_of_mem_encode hc
    exact (escape_digit n hn).2
  have hquote : Char.utf8Size '\x22' = 1 := by decide
  unfold Json.quote
  rw [hescape, Json.weigh_cons, Json.weigh_append, hlength, Hex.length_encode, Json.weigh_cons,
    Json.weigh_nil, hquote]
  omega

theorem length_chunkPayload (chunk : Bytes) (more : Bool) :
    (toVec (chunkPayload chunk more)).length ≤ 2 * chunk.length + 25 := by
  have hchunk : Json.weigh Char.utf8Size (Json.quote "chunk".toList) = 7 := by decide
  have hmore : Json.weigh Char.utf8Size (Json.quote "more".toList) = 6 := by decide
  have hsigns : Char.utf8Size '\x7b' = 1 ∧ Char.utf8Size '\x7d' = 1 ∧ Char.utf8Size ':' = 1 ∧
      Char.utf8Size ',' = 1 := by decide
  have hflag : Json.weight Char.utf8Size (.bool more) ≤ 5 := by
    revert more
    decide
  have htext : Json.weight Char.utf8Size (.str (String.ofList (Hex.encode chunk))) =
      2 * chunk.length + 2 := by
    rw [Json.weight_str, String.toList_ofList, weigh_quote_encode]
  rw [length_toVec]
  unfold chunkPayload
  rw [Json.weight_obj]
  simp only [Json.weigh_emitMembers_cons, Json.weigh_emitMembers_nil, hchunk, hmore, hsigns, htext]
  simp only [Json.comma, Json.weigh_nil, Json.weigh_cons, if_true, Bool.false_eq_true, if_false,
    hsigns]
  omega

/-! ### The frames of a reply -/

theorem writeFrame_of_le {message : Reply} (h : (toVec message.toJson).length ≤ maxFrame) :
    writeFrame message =
      .ok (toBeBytes (toVec message.toJson).length ++ toVec message.toJson) := by
  unfold writeFrame
  exact if_neg (Nat.not_lt.mpr h)

def frame (message : Reply) : Bytes :=
  toBeBytes (toVec message.toJson).length ++ toVec message.toJson

theorem writeAll_of_le : ∀ {messages : List Reply},
    (∀ q ∈ messages, (toVec q.toJson).length ≤ maxFrame) →
      writeAll messages = .ok (messages.flatMap frame)
  | [], _ => rfl
  | message :: messages, h => by
      rw [writeAll, writeFrame_of_le (h message List.mem_cons_self),
        writeAll_of_le fun q hq => h q (List.mem_cons_of_mem _ hq)]
      rfl

theorem readFrame_frame (serde : Serde) {message : Reply}
    (h : (toVec message.toJson).length ≤ maxFrame) (rest : Bytes) :
    readFrame serde (frame message ++ rest) =
      (serde.reply (toVec message.toJson)).elim (.error .json) fun r => .ok (r, rest) := by
  have hsize : fromBeBytes (toBeBytes (toVec message.toJson).length) =
      (toVec message.toJson).length :=
    fromBeBytes_toBeBytes (Nat.lt_of_le_of_lt h (by decide))
  unfold frame
  rw [List.append_assoc]
  exact readFrame_of_split rfl hsize h

theorem depth_toJson (r : Reply) : depth r.toJson = depth r.payload + 1 := by
  simp only [Reply.toJson, depth, depthMembers, Nat.max_zero, Nat.zero_max]

def chunkCount (payload : Bytes) : Nat := (payload.length + chunkBytes - 1) / chunkBytes

def nthPayload (payload : Bytes) (i : Nat) : Json :=
  chunkPayload ((payload.drop (i * chunkBytes)).take chunkBytes)
    ((i + 1) * chunkBytes < payload.length)

theorem replies_of_fits {r : Reply} (h : r.fits = true) : replies r = [r] := by
  unfold replies
  exact if_pos h

theorem replies_of_not_fits {r : Reply} (h : r.fits = false) :
    replies r = (List.range (chunkCount (toVec r.payload))).map fun i =>
      ⟨r.id, nthPayload (toVec r.payload) i⟩ := by
  unfold replies
  rw [if_neg (by rw [h]; decide)]
  unfold chunks
  apply List.ext_getElem
  · simp [chunkCount]
  · intro i hi hi'; simp [nthPayload]

theorem plain_chunkPayload (chunk : Bytes) (more : Bool) : Plain (chunkPayload chunk more) := by
  have hkeys : ["chunk", "more"].Nodup := by decide
  have hfirst : ∀ key ∈ ["chunk", "more"].head?, key ∉ privateKeys := by decide
  refine .obj hkeys hfirst ?_
  intro m hm
  rcases List.mem_cons.mp hm with rfl | hm
  · exact .str _
  · rw [List.mem_singleton.mp hm]; exact .bool _

theorem part_chunkPayload (id : UInt64) (chunk : Bytes) (more : Bool) :
    part ⟨id, chunkPayload chunk more⟩ = .ok (chunk, more) := by
  have hchunk : (get (chunkPayload chunk more) "chunk").bind Json.asStr? =
      some (String.ofList (Hex.encode chunk)) := rfl
  have hmore : (get (chunkPayload chunk more) "more").bind asBool = some more := rfl
  unfold part
  rw [hchunk]
  simp only [String.toList_ofList, Hex.decode_encode, hmore]
  rfl

theorem length_nthPayload (id : UInt64) (payload : Bytes) (i : Nat) :
    (toVec (Reply.toJson ⟨id, nthPayload payload i⟩)).length ≤ maxFrame := by
  have hframe : _ ≤ (toVec (nthPayload payload i)).length + 38 :=
    length_toJson ⟨id, nthPayload payload i⟩
  have hpayload := length_chunkPayload ((payload.drop (i * chunkBytes)).take chunkBytes)
    ((i + 1) * chunkBytes < payload.length)
  have htake : ((payload.drop (i * chunkBytes)).take chunkBytes).length ≤ chunkBytes :=
    List.length_take_le _ _
  have hchunk : chunkBytes = 450000 := rfl
  have hmax : maxFrame = 1048576 := rfl
  unfold nthPayload at hframe
  unfold nthPayload
  omega

theorem lt_chunkCount {payload : Bytes} {i : Nat} :
    i < chunkCount payload ↔ i * chunkBytes < payload.length := by
  unfold chunkCount chunkBytes
  omega

theorem take_append_chunk (payload : Bytes) (i : Nat) :
    payload.take (i * chunkBytes) ++ (payload.drop (i * chunkBytes)).take chunkBytes =
      payload.take ((i + 1) * chunkBytes) := by
  rw [Nat.succ_mul, List.take_add]

theorem length_replies {r : Reply} {sent : List Reply}
    (h : sent.map Reply.payload = (replies r).map Reply.payload) :
    ∀ q ∈ sent, (toVec q.toJson).length ≤ maxFrame := by
  rintro ⟨id, payload⟩ hq
  have hmem : payload ∈ (replies r).map Reply.payload := by
    rw [← h]
    exact List.mem_map_of_mem hq
  obtain ⟨q, hwritten, rfl⟩ := List.mem_map.mp hmem
  by_cases hfits : r.fits = true
  · rw [replies_of_fits hfits, List.mem_singleton] at hwritten
    have hsmall : (toVec r.payload).length + 64 ≤ maxFrame := of_decide_eq_true hfits
    have hlength : _ ≤ (toVec q.payload).length + 38 := length_toJson ⟨id, q.payload⟩
    rw [hwritten] at hlength ⊢
    omega
  · rw [replies_of_not_fits (Bool.not_eq_true _ ▸ hfits)] at hwritten
    obtain ⟨i, -, rfl⟩ := List.mem_map.mp hwritten
    exact length_nthPayload id _ i

/-! ### Reading what was written -/

section RoundTrip

variable {serde : Serde} (hserde : serde.Documented)

include hserde

/-- A frame that carries a chunk is read, and refused where it carries another identifier. -/
theorem readOwn_chunk {payload : Bytes} {i : Nat} {q : Reply} (id : UInt64)
    (hq : q.payload = nthPayload payload i) (rest : Bytes) :
    readOwn serde id (frame q ++ rest) =
      if q.id = id then .ok (q, rest) else .error mismatch := by
  obtain ⟨qid, qpayload⟩ := q
  subst hq
  have hdepth : depth (Reply.toJson ⟨qid, nthPayload payload i⟩) ≤ recursionLimit := by
    rw [depth_toJson]
    simp only [nthPayload, chunkPayload, depth, depthMembers, recursionLimit]
    omega
  have hread := readFrame_frame serde (length_nthPayload qid payload i) rest
  rw [hserde.reply_reads _ (plain_chunkPayload _ _) hdepth, Option.elim_some] at hread
  unfold readOwn
  simp only [hread, bind, Except.bind]
  by_cases hid : qid = id
  · simp only [hid, ne_eq, not_true_eq_false, if_false, if_true]
    rfl
  · simp only [hid, ne_eq, not_false_eq_true, if_false, if_true]
    rfl

variable {sent : List Reply} {r : Reply}

/-- **Chunks are put together**, and a frame among them with another identifier ends the
reading. -/
theorem collect_sent {payload : Bytes} (id : UInt64) (tail : Bytes) :
    ∀ (i : Nat) (first : UInt64), i + 1 + sent.length = chunkCount payload →
      sent.map Reply.payload = (List.range' (i + 1) sent.length).map (nthPayload payload) →
      collect serde id (payload.take (i * chunkBytes)) ⟨first, nthPayload payload i⟩
          (sent.flatMap frame ++ tail) =
        if ∀ q ∈ sent, q.id = id then
          (serde.value payload).elim (.error .json) fun v => .ok (⟨id, v⟩, tail)
        else .error mismatch := by
  induction sent with
  | nil =>
      intro i first hcount _
      have hlast : ¬ (i + 1) * chunkBytes < payload.length := by
        rw [← lt_chunkCount, ← hcount]
        exact Nat.lt_irrefl _
      have hfirst : nthPayload payload i =
          chunkPayload ((payload.drop (i * chunkBytes)).take chunkBytes) false := by
        unfold nthPayload
        rw [decide_eq_false hlast]
      have hpart := part_chunkPayload first ((payload.drop (i * chunkBytes)).take chunkBytes) false
      have hnone : ∀ q ∈ ([] : List Reply), q.id = id := by
        intro q hq
        contradiction
      rw [hfirst, collect_of_last hpart, take_append_chunk,
        List.take_of_length_le (Nat.le_of_not_lt hlast), if_pos hnone]
      rfl
  | cons q sent ih =>
      intro i first hcount hpayloads
      rw [List.length_cons] at hcount
      rw [List.length_cons, List.range'_succ, List.map_cons, List.map_cons, List.cons.injEq]
        at hpayloads
      have hmore : (i + 1) * chunkBytes < payload.length := by
        rw [← lt_chunkCount]
        omega
      have hfirst : nthPayload payload i =
          chunkPayload ((payload.drop (i * chunkBytes)).take chunkBytes) true := by
        unfold nthPayload
        rw [decide_eq_true hmore]
      have hpart := part_chunkPayload first ((payload.drop (i * chunkBytes)).take chunkBytes) true
      have hown := readOwn_chunk hserde id hpayloads.1 (sent.flatMap frame ++ tail)
      rw [List.flatMap_cons, List.append_assoc]
      by_cases hid : q.id = id
      · rw [if_pos hid] at hown
        obtain ⟨qid, qpayload⟩ := q
        have hnext := ih (i + 1) qid (by omega) hpayloads.2
        have hpayload : qpayload = nthPayload payload (i + 1) := hpayloads.1
        subst hpayload
        rw [hfirst, collect_of_next hpart hown, take_append_chunk, hnext]
        have hall : (∀ q' ∈ (⟨qid, nthPayload payload (i + 1)⟩ : Reply) :: sent, q'.id = id) ↔
            ∀ q' ∈ sent, q'.id = id := by
          rw [List.forall_mem_cons]
          exact and_iff_right hid
        exact (if_congr hall rfl rfl).symm
      · rw [if_neg hid] at hown
        have hsome : ¬ ∀ q' ∈ q :: sent, q'.id = id := fun h => hid (h q List.mem_cons_self)
        rw [if_neg hsome, hfirst]
        exact collect_of_error hpart hown

theorem readReply_chunks (hfits : r.fits = false) (tail : Bytes)
    (hsent : sent.map Reply.payload = (replies r).map Reply.payload) :
    readReply serde (sent.flatMap frame ++ tail) r.id =
      if ∀ q ∈ sent, q.id = r.id then
        (serde.value (toVec r.payload)).elim (.error .json) fun v => .ok (⟨r.id, v⟩, tail)
      else .error mismatch := by
  have hlong : 0 * chunkBytes < (toVec r.payload).length := by
    have hlarge : ¬ (toVec r.payload).length + 64 ≤ maxFrame := of_decide_eq_false hfits
    unfold maxFrame at hlarge
    omega
  have hcount := lt_chunkCount.mpr hlong
  have hpayloads : sent.map Reply.payload =
      (List.range' 0 (chunkCount (toVec r.payload))).map (nthPayload (toVec r.payload)) := by
    rw [hsent, replies_of_not_fits hfits, List.map_map, List.range_eq_range']
    rfl
  have hlength : sent.length = chunkCount (toVec r.payload) := by
    have h := congrArg List.length hpayloads
    rwa [List.length_map, List.length_map, List.length_range'] at h
  cases sent with
  | nil => rw [← hlength] at hcount; exact absurd hcount (Nat.lt_irrefl 0)
  | cons q sent =>
      rw [List.length_cons] at hlength
      rw [← hlength, List.range'_succ, List.map_cons, List.map_cons, List.cons.injEq] at hpayloads
      have hown := readOwn_chunk hserde r.id hpayloads.1 (sent.flatMap frame ++ tail)
      rw [List.flatMap_cons, List.append_assoc]
      by_cases hid : q.id = r.id
      · rw [if_pos hid] at hown
        have hchunk : ¬ (get q.payload "chunk").isNone = true := by
          rw [hpayloads.1]
          exact Bool.false_ne_true
        have hcollect := collect_sent hserde r.id tail 0 q.id (by omega) hpayloads.2
        obtain ⟨qid, qpayload⟩ := q
        have hpayload : qpayload = nthPayload (toVec r.payload) 0 := hpayloads.1
        subst hpayload
        rw [Nat.zero_mul, List.take_zero] at hcollect
        rw [readReply_of_readOwn hown, if_neg hchunk, hcollect]
        have hall : (∀ q' ∈ (⟨qid, nthPayload (toVec r.payload) 0⟩ : Reply) :: sent,
            q'.id = r.id) ↔ ∀ q' ∈ sent, q'.id = r.id := by
          rw [List.forall_mem_cons]
          exact and_iff_right hid
        exact (if_congr hall rfl rfl).symm
      · rw [if_neg hid] at hown
        have hsome : ¬ ∀ q' ∈ q :: sent, q'.id = r.id := fun h => hid (h q List.mem_cons_self)
        rw [if_neg hsome]
        exact readReply_of_error hown

/-- How deep the reader follows a reply: in one frame the payload is nested once more. -/
def nesting (r : Reply) : Nat := if r.fits then depth r.payload + 1 else depth r.payload

omit hserde in
theorem nesting_bounds (r : Reply) :
    depth r.payload ≤ nesting r ∧ nesting r ≤ depth r.payload + 1 := by
  unfold nesting
  by_cases hfits : r.fits = true
  · rw [if_pos hfits]; omega
  · rw [if_neg hfits]; omega

theorem readFrame_of_fits {q : Reply} (hplain : Plain r.payload) (hfits : r.fits = true)
    (hq : q.payload = r.payload) (tail : Bytes) : readFrame serde (frame q ++ tail) =
      if nesting r ≤ recursionLimit then .ok (q, tail) else .error .json := by
  have hsmall : (toVec r.payload).length + 64 ≤ maxFrame := of_decide_eq_true hfits
  have hlength : (toVec q.toJson).length ≤ maxFrame := by
    have h := length_toJson q
    rw [hq] at h
    omega
  have hdepth : depth q.toJson = nesting r := by
    unfold nesting
    rw [depth_toJson, hq, if_pos hfits]
  have hqplain : Plain q.payload := hq ▸ hplain
  rw [readFrame_frame serde hlength]
  by_cases hdeep : nesting r ≤ recursionLimit
  · rw [hserde.reply_reads q hqplain (hdepth ▸ hdeep), if_pos hdeep, Option.elim_some]
  · rw [hserde.reply_refuses q hqplain (hdepth ▸ Nat.lt_of_not_le hdeep), if_neg hdeep,
      Option.elim_none]

/-- **What the reader makes of a reply that was written**: the reply, unless it is nested too
deep. -/
theorem readReply_written (hplain : Plain r.payload) (hchunk : get r.payload "chunk" = none)
    (tail : Bytes) : readReply serde ((replies r).flatMap frame ++ tail) r.id =
      if nesting r ≤ recursionLimit then .ok (r, tail) else .error .json := by
  by_cases hfits : r.fits = true
  · have hframe := readFrame_of_fits hserde hplain hfits (q := r) rfl tail
    rw [replies_of_fits hfits, List.flatMap_singleton]
    by_cases hdeep : nesting r ≤ recursionLimit
    · rw [if_pos hdeep] at hframe ⊢
      rw [readReply_of_readOwn (readOwn_eq_ok.mpr ⟨hframe, rfl⟩), hchunk]
      rfl
    · rw [if_neg hdeep] at hframe ⊢
      apply readReply_of_error
      unfold readOwn
      rw [hframe]
      rfl
  · have hfits : r.fits = false := Bool.not_eq_true _ ▸ hfits
    have hids : ∀ q ∈ replies r, q.id = r.id := by
      intro q hq
      rw [replies_of_not_fits hfits] at hq
      obtain ⟨i, -, rfl⟩ := List.mem_map.mp hq
      rfl
    have hnesting : nesting r = depth r.payload := by
      unfold nesting
      rw [if_neg (by rw [hfits]; decide)]
    rw [readReply_chunks hserde hfits tail rfl, if_pos hids, hnesting]
    by_cases hdeep : depth r.payload ≤ recursionLimit
    · rw [hserde.value_reads _ hplain hdeep, if_pos hdeep, Option.elim_some]
    · rw [hserde.value_refuses _ hplain (Nat.lt_of_not_le hdeep), if_neg hdeep, Option.elim_none]

theorem readReply_foreign (hplain : Plain r.payload)
    (hsent : sent.map Reply.payload = (replies r).map Reply.payload)
    (hforeign : ∃ q ∈ sent, q.id ≠ r.id) (tail : Bytes) :
    ∃ e, readReply serde (sent.flatMap frame ++ tail) r.id = .error e := by
  by_cases hfits : r.fits = true
  · rw [replies_of_fits hfits] at hsent
    obtain ⟨q, rfl⟩ : ∃ q, sent = [q] := by
      apply List.length_eq_one_iff.mp
      have h := congrArg List.length hsent
      rwa [List.length_map, List.length_map] at h
    rw [List.map_cons, List.map_cons, List.cons.injEq] at hsent
    obtain ⟨q', hq', hid⟩ := hforeign
    rw [List.mem_singleton.mp hq'] at hid
    have hframe := readFrame_of_fits hserde hplain hfits hsent.1 tail
    rw [List.flatMap_singleton]
    cases hown : readOwn serde r.id (frame q ++ tail) with
    | error e => exact ⟨e, readReply_of_error hown⟩
    | ok found =>
        obtain ⟨q', rest⟩ := found
        obtain ⟨hread, hsame⟩ := readOwn_eq_ok.mp hown
        rw [hread] at hframe
        by_cases hdeep : nesting r ≤ recursionLimit
        · rw [if_pos hdeep, Except.ok.injEq, Prod.mk.injEq] at hframe
          rw [hframe.1] at hsame
          exact absurd hsame hid
        · rw [if_neg hdeep] at hframe; cases hframe
  · have hfits : r.fits = false := Bool.not_eq_true _ ▸ hfits
    have hsome : ¬ ∀ q ∈ sent, q.id = r.id := by
      intro hall
      obtain ⟨q, hq, hid⟩ := hforeign
      exact hid (hall q hq)
    rw [readReply_chunks hserde hfits tail hsent, if_neg hsome]
    exact ⟨mismatch, rfl⟩

end RoundTrip

/-! ### A reader as documented -/

def Reply.ofJson (v : Json) : Option Reply :=
  match get v "id", get v "payload" with
  | some (.num text), some payload =>
      if Nat.ofDigitChars 10 text.toList 0 < 2 ^ 64 then
        some ⟨UInt64.ofNat (Nat.ofDigitChars 10 text.toList 0), payload⟩
      else none
  | _, _ => none

/-- `serde_json` on what it wrote itself. -/
def compact : Serde where
  value := read recursionLimit
  reply := fun bytes => (read recursionLimit bytes).bind Reply.ofJson

theorem compact_value (bytes : Bytes) : compact.value bytes = read recursionLimit bytes := rfl

theorem compact_reply (bytes : Bytes) :
    compact.reply bytes = (read recursionLimit bytes).bind Reply.ofJson := rfl

theorem head_toDigits (n : Nat) (hn : 0 < n) : ∃ d ds, Nat.toDigits 10 n = d :: ds ∧ d ≠ '0' := by
  induction n using Nat.strong_induction_on with
  | _ n ih =>
      by_cases hten : n < 10
      · have hdigit : ∀ m < 10, 0 < m → Nat.digitChar m ≠ '0' := by decide
        exact ⟨_, [], Nat.toDigits_of_lt_base hten, hdigit n hten hn⟩
      · obtain ⟨d, ds, hfirst, hd⟩ := ih (n / 10) (by omega) (by omega)
        rw [Nat.toDigits_of_base_le (by decide) (by omega), hfirst]
        exact ⟨d, _, rfl, hd⟩

theorem number_toString (n : Nat) : Number (toString n).toList := by
  have htext : (toString n).toList = Nat.toDigits 10 n := Nat.toList_repr
  have hdigits : Mcp.digits (Nat.toDigits 10 n) = true :=
    List.all_eq_true.mpr fun c hc => Nat.isDigit_of_mem_toDigits (by decide) (by decide) hc
  rw [htext]
  refine ⟨[], Nat.toDigits 10 n, [], [], by simp, .inl rfl, ?_, .inl rfl, .inl rfl⟩
  by_cases hzero : n = 0
  · exact .inl (hzero ▸ Nat.toDigits_zero 10)
  · obtain ⟨d, ds, hfirst, hd⟩ := head_toDigits n (Nat.pos_of_ne_zero hzero)
    exact .inr ⟨d, ds, hfirst, hd, hdigits⟩

theorem ofJson_toJson (r : Reply) : Reply.ofJson r.toJson = some r := by
  obtain ⟨id, payload⟩ := r
  have hid : get (Reply.toJson ⟨id, payload⟩) "id" = some (.num (toString id.toNat)) := rfl
  have hpayload : get (Reply.toJson ⟨id, payload⟩) "payload" = some payload := rfl
  have hnat : Nat.ofDigitChars 10 (toString id.toNat).toList 0 = id.toNat := by
    have htext : (toString id.toNat).toList = Nat.toDigits 10 id.toNat := Nat.toList_repr
    rw [htext, Nat.ofDigitChars_ten_toDigits]
  unfold Reply.ofJson
  rw [hid, hpayload]
  simp only [hnat, if_pos id.toNat_lt, UInt64.ofNat_toNat]

theorem plain_toJson {r : Reply} (h : Plain r.payload) : Plain r.toJson := by
  have hkeys : ["id", "payload"].Nodup := by decide
  have hfirst : ∀ key ∈ ["id", "payload"].head?, key ∉ privateKeys := by decide
  refine .obj hkeys hfirst ?_
  intro m hm
  rcases List.mem_cons.mp hm with rfl | hm
  · exact .num (number_toString _)
  · rw [List.mem_singleton.mp hm]; exact h

/-- There is a reader that does what `serde_json` is documented to do. -/
theorem compact_documented : compact.Documented where
  value_reads v hplain hdepth := by
    rw [compact_value, read_toVec hplain, if_pos hdepth]
  value_refuses v hplain hdepth := by
    rw [compact_value, read_toVec hplain, if_neg (Nat.not_le.mpr hdepth)]
  reply_reads r hplain hdepth := by
    rw [compact_reply, read_toVec (plain_toJson hplain), if_pos hdepth, Option.bind_some,
      ofJson_toJson]
  reply_refuses r hplain hdepth := by
    rw [compact_reply, read_toVec (plain_toJson hplain), if_neg (Nat.not_le.mpr hdepth),
      Option.bind_none]

/-! ### Writing and reading -/

/-- **What is written is read, or nothing is.**  Every frame is small enough to be sent; what was
sent is read as the reply it was, and leaves over what follows, unless it is nested too deep; what
breaks off, or holds a frame with another identifier, is refused. -/
theorem readReply_writeDaemonReply {serde : Serde} (hserde : serde.Documented) {r : Reply}
    (hplain : Plain r.payload) (hchunk : get r.payload "chunk" = none) :
    (∀ q ∈ replies r, (toVec q.toJson).length ≤ maxFrame) ∧
    ∃ bytes, writeDaemonReply r = .ok bytes ∧
      (∀ tail, readReply serde (bytes ++ tail) r.id =
        if nesting r ≤ recursionLimit then .ok (r, tail) else .error .json) ∧
      (∀ cut, cut <+: bytes → cut ≠ bytes → ∃ e, readReply serde cut r.id = .error e) ∧
      ∀ sent : List Reply, sent.map Reply.payload = (replies r).map Reply.payload →
        (∃ q ∈ sent, q.id ≠ r.id) → ∃ bytes', writeAll sent = .ok bytes' ∧
          ∀ tail, ∃ e, readReply serde (bytes' ++ tail) r.id = .error e := by
  have hsmall := length_replies (r := r) rfl
  have hwritten := readReply_written hserde hplain hchunk
  refine ⟨hsmall, (replies r).flatMap frame, writeAll_of_le hsmall, hwritten, ?_, ?_⟩
  · intro cut hcut hne
    refine readReply_cut ?_ hcut hne
    intro v rest hread
    have hwhole := hwritten []
    rw [List.append_nil, hread] at hwhole
    by_cases hdeep : nesting r ≤ recursionLimit
    · rw [if_pos hdeep, Except.ok.injEq, Prod.mk.injEq] at hwhole; exact hwhole.2
    · rw [if_neg hdeep] at hwhole; cases hwhole
  · intro sent hsent hforeign
    exact ⟨_, writeAll_of_le (length_replies hsent),
      fun tail => readReply_foreign hserde hplain hsent hforeign tail⟩

def answer : Reply := ⟨7, .str (String.ofList (Hex.encode (List.replicate 600000 0)))⟩

theorem length_answer : (toVec answer.payload).length = 1200002 := by
  rw [length_toVec]
  unfold answer
  rw [Json.weight_str, String.toList_ofList, weigh_quote_encode, List.length_replicate]

/-- The answer goes out in three frames, and is not read from less than all of them. -/
theorem readReply_writeDaemonReply_answer :
    (replies answer).length = 3 ∧ ∃ bytes, writeDaemonReply answer = .ok bytes ∧
      readReply compact (bytes ++ [0]) 7 = .ok (answer, [0]) ∧
      ∀ cut, cut <+: bytes → cut ≠ bytes → ∃ e, readReply compact cut 7 = .error e := by
  have hfits : answer.fits = false := by
    unfold Reply.fits
    rw [length_answer]
    decide
  have hthree : ∀ payload : Bytes, payload.length = 1200002 → chunkCount payload = 3 := by
    intro payload hlength
    unfold chunkCount chunkBytes
    omega
  have hcount : (replies answer).length = 3 := by
    rw [replies_of_not_fits hfits, List.length_map, List.length_range]
    exact hthree _ length_answer
  have hnesting : nesting answer ≤ recursionLimit :=
    Nat.le_trans (nesting_bounds answer).2 (show 1 ≤ recursionLimit by decide)
  obtain ⟨-, bytes, hwrite, hread, hcut, -⟩ :=
    readReply_writeDaemonReply (r := answer) compact_documented (.str _) rfl
  have hanswer := hread [0]
  rw [if_pos hnesting] at hanswer
  exact ⟨hcount, bytes, hwrite, hanswer, hcut⟩

def nested : Nat → Json
  | 0 => .arr []
  | n + 1 => .arr [nested n]

theorem depth_nested (n : Nat) : depth (nested n) = n + 1 := by
  induction n with
  | zero => rfl
  | succ n ih => rw [nested, depth, depthItems, depthItems, ih]; omega

theorem plain_nested (n : Nat) : Plain (nested n) := by
  induction n with
  | zero =>
      refine .arr ?_
      intro v hv
      contradiction
  | succ n ih =>
      refine .arr ?_
      intro v hv
      rw [List.mem_singleton.mp hv]
      exact ih

/-- A reply whose payload is nested deeper than it can be read. -/
def deep : Reply := ⟨7, .obj [("items", nested 126)]⟩

theorem readReply_deep :
    (Plain deep.payload ∧ deep.payload.isObject = true ∧ get deep.payload "chunk" = none) ∧
    (∃ serde : Serde, serde.Documented) ∧
    ∀ serde : Serde, serde.Documented → ∃ bytes, writeDaemonReply deep = .ok bytes ∧
      readReply serde bytes deep.id = .error .json := by
  have hkeys : ["items"].Nodup := by decide
  have hfirst : ∀ key ∈ ["items"].head?, key ∉ privateKeys := by decide
  have hplain : Plain deep.payload := by
    refine .obj hkeys hfirst ?_
    intro m hm
    rw [List.mem_singleton.mp hm]
    exact plain_nested 126
  have hdepth : depth deep.payload = 128 := by
    unfold deep
    rw [depth, depthMembers, depthMembers, depth_nested, Nat.max_zero]
  have hnesting : ¬ nesting deep ≤ recursionLimit := by
    have hle := (nesting_bounds deep).1
    rw [hdepth] at hle
    exact Nat.not_le_of_lt hle
  refine ⟨⟨hplain, rfl, rfl⟩, ⟨compact, compact_documented⟩, ?_⟩
  intro serde hserde
  have hchunk : get deep.payload "chunk" = none := rfl
  have hread := readReply_written hserde hplain hchunk []
  rw [if_neg hnesting, List.append_nil] at hread
  exact ⟨_, writeAll_of_le (length_replies rfl), hread⟩

/-! ### Calls -/

inductive CallError where
  | daemonUnavailable
  | outcomeUnknown
  deriving DecidableEq, Repr

/-- A connection: how the writing of the request ends, and what there is to read then. -/
structure Connection where
  written : Except Failure Unit
  received : Bytes

/-- The loop of `call`, from an attempt on, and the attempts that wrote the request. -/
def callFrom (serde : Serde) (id : UInt64) (readOnly : Bool) (connect : Nat → Option Connection)
    (attempt : Nat) : Nat → Except CallError Reply × List Nat
  | 0 => (.error .daemonUnavailable, [])
  | left + 1 =>
      match connect attempt with
      | none =>
          if left ≠ 0 then callFrom serde id readOnly connect (attempt + 1) left
          else (.error .daemonUnavailable, [])
      | some c =>
          match c.written.bind fun _ => readReply serde c.received id with
          | .ok (reply, _) => (.ok reply, [attempt])
          | .error _ =>
              if readOnly = true ∧ left ≠ 0 then
                let (result, wrote) := callFrom serde id readOnly connect (attempt + 1) left
                (result, attempt :: wrote)
              else if readOnly = true then (.error .daemonUnavailable, [attempt])
              else (.error .outcomeUnknown, [attempt])

def call (serde : Serde) (id : UInt64) (readOnly : Bool) (connect : Nat → Option Connection) :
    Except CallError Reply × List Nat :=
  callFrom serde id readOnly connect 0 (if readOnly = true then 2 else 1)

theorem callFrom_wrote {serde : Serde} {id : UInt64} {readOnly : Bool}
    {connect : Nat → Option Connection} {attempt left : Nat} {result : Except CallError Reply}
    {wrote : List Nat} (h : callFrom serde id readOnly connect attempt left = (result, wrote)) :
    wrote.length ≤ left ∧
      (readOnly = false →
        wrote.length ≤ 1 ∧ (result = .error .daemonUnavailable ↔ wrote = [])) ∧
      (readOnly = true → result ≠ .error .outcomeUnknown) := by
  induction left generalizing attempt result wrote with
  | zero => cases h; simp
  | succ left ih =>
      unfold callFrom at h
      cases hconnect : connect attempt with
      | none =>
          rw [hconnect] at h
          by_cases hleft : left ≠ 0
          · obtain ⟨hlength, hrest⟩ := ih ((if_pos hleft).symm.trans h)
            exact ⟨hlength.trans (Nat.le_succ left), hrest⟩
          · cases (if_neg hleft).symm.trans h
            simp
      | some c =>
          rw [hconnect] at h
          cases hreply : c.written.bind fun _ => readReply serde c.received id with
          | ok found =>
              simp only [hreply] at h
              cases h
              simp
          | error e =>
              simp only [hreply] at h
              by_cases hagain : readOnly = true ∧ left ≠ 0
              · rw [if_pos hagain] at h
                cases h
                obtain ⟨hlength, -, hrest⟩ := @ih (attempt + 1) _ _ rfl
                exact ⟨Nat.succ_le_succ hlength, by simp [hagain.1], hrest⟩
              · rw [if_neg hagain] at h
                cases readOnly <;> cases h <;> simp

/-- **A call that may change something is sent once at most.**  It reports an unavailable daemon
exactly when nothing was sent, so that it may be made again; one that changes nothing is sent twice
at most, and its outcome is never unknown.  A reply the daemon wrote to a call is what the call
returns. -/
theorem call_sent_once (serde : Serde) (connect : Nat → Option Connection) :
    (∀ id, (call serde id false connect).2.length ≤ 1 ∧
      ((call serde id false connect).1 = .error .daemonUnavailable ↔
        (call serde id false connect).2 = [])) ∧
    (∀ id, (call serde id true connect).2.length ≤ 2 ∧
      (call serde id true connect).1 ≠ .error .outcomeUnknown) ∧
    ∀ (readOnly : Bool) (r : Reply) (bytes tail : Bytes), serde.Documented → Plain r.payload →
      get r.payload "chunk" = none → nesting r ≤ recursionLimit →
      writeDaemonReply r = .ok bytes → connect 0 = some ⟨.ok (), bytes ++ tail⟩ →
      call serde r.id readOnly connect = (.ok r, [0]) := by
  refine ⟨fun id => (callFrom_wrote rfl).2.1 rfl, fun id => ?_, ?_⟩
  · obtain ⟨hlength, -, hknown⟩ := @callFrom_wrote serde id true connect 0 2 _ _ rfl
    exact ⟨hlength, hknown rfl⟩
  · intro readOnly r bytes tail hserde hplain hchunk hdepth hwrite hconnect
    have hbytes : writeDaemonReply r = .ok ((replies r).flatMap frame) :=
      writeAll_of_le (length_replies rfl)
    rw [hwrite] at hbytes
    cases hbytes
    have hread := readReply_written hserde hplain hchunk tail
    rw [if_pos hdepth] at hread
    have hreply : ((Except.ok () : Except Failure Unit).bind fun _ =>
        readReply serde ((replies r).flatMap frame ++ tail) r.id) = .ok (r, tail) := hread
    unfold call
    cases readOnly <;> simp only [reduceIte, callFrom, hconnect, hreply, Bool.false_eq_true]

end Baleyg.Daemon.Socket
