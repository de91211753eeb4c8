/-
What a frame can do to a session.

Whatever a frame contains, one of five things becomes of it: it is rejected or ignored and
nothing changes, it makes a legacy session ready, it cancels what is pending under one
key, or it is admitted under a key nothing is pending under, with the next token and the
identifier that is the key's own.
-/
import Mathlib
import Baleyg.Mcp.Transport

namespace Baleyg.Mcp

open Fallible (ensure bind_eq_ok ensure_eq_ok ensure_bind_eq_ok)

inductive Mode.Moves : Mode → Mode → Prop
  | stay (m : Mode) : Moves m m
  | modern : Moves .unselected .modern
  | legacy : Moves .unselected .legacyAwaitInitialized
  | ready : Moves .legacyAwaitInitialized .legacyReady

/-- **What can become of a frame.** -/
inductive Change (s : Session) : Event → Session → Prop
  | rejected (e : ProtocolError) : Change s (.error e) s
  | ignored : Change s .ignore s
  | ready (awaits : s.mode = .legacyAwaitInitialized) : Change s .ignore { s with mode := .legacyReady }
  | cancelled (key : IdKey) :
      Change s .ignore { s with pending := Register.remove Pending.key key s.pending }
  | admitted {key : IdKey} {target : Mode} (action : Action) (free : ∀ p ∈ s.pending, p.key ≠ key)
      (moves : s.mode.Moves target) :
      Change s (.admitted ⟨s.nextToken + 1, key.value, action⟩)
        ⟨target, s.nextToken + 1, s.pending ++ [⟨key, ⟨s.nextToken + 1, key.value, action⟩⟩]⟩

/-! ### Decoding -/

theorem IdKey.value_injective : Function.Injective IdKey.value := by
  intro k k' h
  cases k with
  | string s =>
      cases k' with
      | string s' => cases h; rfl
      | integer n => cases h
  | integer n =>
      cases k' with
      | string s => cases h
      | integer n' =>
          have htext : toString n = toString n' := Json.num.inj h
          rw [Int.repr_injective htext]

variable {key : IdKey} {r : Request} {frame : Frame} {event : Event} {s' : Session}

theorem decodeId_key {fields : Json.Fields} {id : Option Json}
    (h : decodeId fields = .ok (id, some key)) : id = some key.value := by
  unfold decodeId at h
  split at h
  · cases h
  · split at h
    · cases h; rfl
    · cases h
  · split at h
    · cases h
    · cases h; rfl
  · cases h

theorem decodeObject_key {fields : Json.Fields} (h : decodeObject fields = .ok r)
    (hkey : r.key = some key) : r.id = some key.value := by
  unfold decodeObject at h
  obtain ⟨⟨id, key'⟩, hid, h⟩ := bind_eq_ok.mp h
  obtain ⟨-, h⟩ := ensure_bind_eq_ok.mp h
  split at h
  · cases h
  · obtain ⟨-, h⟩ := ensure_bind_eq_ok.mp h
    obtain ⟨-, h⟩ := ensure_bind_eq_ok.mp h
    obtain ⟨-, h⟩ := ensure_bind_eq_ok.mp h
    cases h
    subst hkey
    exact decodeId_key hid

theorem decodeValue_key {value : Option Json} (h : decodeValue value = .ok r)
    (hkey : r.key = some key) : r.id = some key.value := by
  unfold decodeValue at h
  split at h
  · cases h
  · exact decodeObject_key h hkey
  · cases h

theorem decode_key {parse : List UInt8 → Option Json} (h : decode parse frame = .ok (some r))
    (hkey : r.key = some key) : r.id = some key.value := by
  cases frame with
  | eof | oversized => cases h
  | line bytes =>
      unfold decode at h
      cases hvalue : decodeValue (parse bytes) with
      | error e =>
          simp only [hvalue] at h
          cases h
      | ok r' =>
          simp only [hvalue] at h
          cases h
          exact decodeValue_key hvalue hkey

theorem decode_ne_none {parse : List UInt8 → Option Json} (h : frame ≠ .eof) :
    decode parse frame ≠ .ok none := by
  intro hnone
  cases frame with
  | eof => exact h rfl
  | oversized => cases hnone
  | line bytes =>
      unfold decode at hnone
      cases hvalue : decodeValue (parse bytes) with
      | error | ok =>
          simp only [hvalue] at hnone
          cases hnone

/-! ### Acceptance -/

variable {isUrl : String → Bool} {s : Session}

/-- **Where an admitted request leaves the mode.** -/
theorem moves_of_validate {method : String} {params : Option Json} {id : Json} {target : Mode}
    {action : Action} (h : s.validate isUrl method params id = .ok (target, action)) :
    s.mode.Moves target := by
  unfold Session.validate at h
  split at h
  · obtain ⟨hmode, h⟩ := ensure_bind_eq_ok.mp h
    obtain ⟨-, h⟩ := ensure_bind_eq_ok.mp h
    cases h
    rw [hmode]
    exact .legacy
  · obtain ⟨hnot, h⟩ := ensure_bind_eq_ok.mp h
    split at h
    · rename_i hready
      obtain ⟨_, _, h⟩ := bind_eq_ok.mp h
      obtain ⟨_, _, h⟩ := bind_eq_ok.mp h
      cases h
      cases hmode : s.mode with
      | unselected => exact .modern
      | modern => exact .stay _
      | legacyAwaitInitialized => exact absurd hmode hnot
      | legacyReady => exact absurd hmode hready
    · rename_i hready
      obtain ⟨-, h⟩ := ensure_bind_eq_ok.mp h
      obtain ⟨_, _, h⟩ := bind_eq_ok.mp h
      cases h
      rw [not_not.mp hready]
      exact .stay _

theorem change_of_notify (s : Session) (method : String) (params : Option Json) :
    Change s .ignore (s.notify method params) := by
  unfold Session.notify
  split
  · split
    · exact .ignored
    · split
      · split
        · exact .ignored
        · unfold Session.cancel
          split
          · exact .ignored
          · exact .cancelled _
      · exact .ignored
  · split
    · rename_i hready
      exact .ready hready.2.1
    · exact .ignored

theorem change_of_request {method : String} {params : Option Json}
    (h : s.request isUrl key key.value method params = (event, s')) : Change s event s' := by
  unfold Session.request at h
  split at h
  · cases h; exact .rejected _
  · rename_i hfree
    split at h
    · cases h; exact .rejected _
    · rename_i target action hvalid
      split at h
      · cases h; exact .rejected _
      · cases h
        refine .admitted action (fun p hp hkey => hfree ?_) (moves_of_validate hvalid)
        exact List.any_eq_true.mpr ⟨p, hp, decide_eq_true hkey⟩

/-- **Every frame makes one of the five changes.** -/
theorem change_of_handle {parsers : Parsers} (hmore : frame ≠ .eof)
    (h : handle parsers s frame = (event, s')) : Change s event s' := by
  unfold handle at h
  split at h
  · cases h; exact .rejected _
  · rename_i hnone
    exact absurd hnone (decode_ne_none hmore)
  · rename_i r hdecode
    unfold Session.accept at h
    split at h
    · cases h; exact change_of_notify s r.method r.params
    · rename_i key hkey
      rw [decode_key hdecode hkey] at h
      exact change_of_request h

theorem Change.moves (h : Change s event s') : s.mode.Moves s'.mode := by
  cases h with
  | rejected | ignored | cancelled => exact .stay _
  | ready hawaits =>
      show s.mode.Moves .legacyReady
      rw [hawaits]
      exact .ready
  | admitted _ _ hmoves => exact hmoves

end Baleyg.Mcp
