/-
The coordinator of one connection.

One reader hands over the frames of the input in order; the coordinator alone answers.
It takes whatever input is waiting, then the oldest outcome: the error of a message that
was rejected is written at once, and an admitted request is carried out, unless it was
cancelled meanwhile.  Before its result is committed, the input that is waiting by then is
taken as well, and may still cancel it.

The protocol itself does not depend on that order.  `Exchange` lets any completion of an
admitted request be committed at any time, however stale, between any two frames; the
coordinator's runs are runs of it.
-/
import Baleyg.Lib.Runs
import Baleyg.Mcp.Session

namespace Baleyg.Mcp

open Relation (ReflTransGen)

/-- What the connection uses of the JSON and the URL parser. -/
structure Parsers where
  json : List UInt8 → Option Json
  url : String → Bool

/-! ### Messages -/

/-- What becomes of a frame: nothing, an error to be written, or an admitted request. -/
def handle (parsers : Parsers) (s : Session) (frame : Frame) : Event × Session :=
  match decode parsers.json frame with
  | .error e => (.error e, s)
  | .ok none => (.ignore, s.eof)
  | .ok (some request) => s.accept parsers.url request

/-- The tokens a frame cancels: whoever was pending and no longer is. -/
def gone (before after : Session) : List Nat :=
  (before.pending.filter fun p => after.pending.all fun q => q.admission.token ≠ p.admission.token).map
    fun p => p.admission.token

/-- What was written for a request, or for a message that was rejected. -/
structure Written where
  token : Option Nat
  response : Json

/-! ### The protocol -/

/-- **A connection**, with what has happened on it. -/
structure Exchange where
  session : Session
  admitted : List Admission
  cancelled : List Nat
  /-- The tokens of those that were pending when the input ended. -/
  dropped : List Nat
  answered : List (Nat × Json)
  ended : Bool

namespace Exchange

def start : Exchange := ⟨.new, [], [], [], [], false⟩

/-- A frame that does not end the input. -/
def take (event : Event) (session : Session) (x : Exchange) : Exchange :=
  { x with
    session := session
    admitted := match event with
      | .admitted a => a :: x.admitted
      | _ => x.admitted
    cancelled := gone x.session session ++ x.cancelled }

/-- The input ends, or the answers can no longer be written. -/
def finish (x : Exchange) : Exchange :=
  { x with
    session := x.session.eof
    dropped := gone x.session x.session.eof ++ x.dropped
    ended := true }

def commit (p : Prepared) (x : Exchange) : Exchange :=
  { x with
    session := (x.session.commit p).2
    answered := match (x.session.commit p).1 with
      | some response => (p.token, response) :: x.answered
      | none => x.answered }

/-- **One step of a connection**: a frame, the end of the input, or a completion of an
admitted request, which carries that request's identifier. -/
inductive Step (parsers : Parsers) (x : Exchange) : Exchange → Prop
  | take {event : Event} {session : Session} (frame : Frame) (open_ : x.ended = false)
      (more : frame ≠ .eof) (handled : handle parsers x.session frame = (event, session)) :
      Step parsers x (x.take event session)
  | finish (open_ : x.ended = false) : Step parsers x x.finish
  | commit {a : Admission} {p : Prepared} (known : a ∈ x.admitted) (own : p.token = a.token)
      (id : p.response.id? = some a.id) : Step parsers x (x.commit p)

end Exchange

/-! ### The coordinator -/

inductive Outcome where
  | error (e : ProtocolError)
  | request (a : Admission)

inductive Phase where
  /-- It takes input until none is waiting. -/
  | gathering
  /-- A result is ready; it takes the input that is waiting by then. -/
  | finishing (a : Admission) (p : Prepared)
  | ended

structure Transport where
  exchange : Exchange
  outcomes : List Outcome
  phase : Phase
  written : List Written

/-- `{"jsonrpc":"2.0","id":...,"result":...}`. -/
def resultResponse (id result : Json) : Json :=
  .obj [("jsonrpc", .str "2.0"), ("id", id), ("result", result)]

/-- The response to a request, with the result its action had. -/
def responseTo (a : Admission) (result : Json) : Json :=
  match a.action with
  | .unknown => (ProtocolError.new (-32601) a.id).response
  | _ => resultResponse a.id result

namespace Transport

def start : Transport := ⟨.start, [], .gathering, []⟩

/-- `receive` of a frame that is not the end of the input. -/
def receive (event : Event) (session : Session) (w : Transport) : Transport :=
  { w with
    exchange := w.exchange.take event session
    outcomes := w.outcomes ++ match event with
      | .error e => [.error e]
      | .admitted a => [.request a]
      | .ignore => [] }

/-- `session.eof()` and the return of `run_transport`. -/
def stop (w : Transport) : Transport := { w with exchange := w.exchange.finish, phase := .ended }

/-- The result is committed and written, if it still finishes its request. -/
def settle (p : Prepared) (w : Transport) : Transport :=
  { w with
    exchange := w.exchange.commit p
    phase := .gathering
    written := match (w.exchange.session.commit p).1 with
      | some response => ⟨some p.token, response⟩ :: w.written
      | none => w.written }

/-- What the coordinator does without taking any input. -/
inductive Turn (w : Transport) : Transport → Prop
  /-- The oldest outcome is an error. -/
  | refuse {e : ProtocolError} {rest : List Outcome} (gathering : w.phase = .gathering)
      (oldest : w.outcomes = .error e :: rest) :
      Turn w { w with outcomes := rest, written := ⟨none, e.response⟩ :: w.written }
  /-- The oldest outcome is a request that was cancelled while it waited. -/
  | skip {a : Admission} {rest : List Outcome} (gathering : w.phase = .gathering)
      (oldest : w.outcomes = .request a :: rest)
      (cancelled : w.exchange.session.pendingOf a.token = none) :
      Turn w { w with outcomes := rest }
  /-- The oldest outcome is a request, which is carried out. -/
  | answer {a : Admission} {rest : List Outcome} {p : Prepared} (result : Json)
      (gathering : w.phase = .gathering) (oldest : w.outcomes = .request a :: rest)
      (ready : w.exchange.session.prepare a.token (responseTo a result) = some p) :
      Turn w { w with outcomes := rest, phase := .finishing a p }
  /-- No more input is waiting: the result, which a last look at the workspace may have
  replaced if a tool was called, is committed. -/
  | settle {a : Admission} {p : Prepared} (fresh : Option Json) (finishing : w.phase = .finishing a p)
      (called : fresh ≠ none → ∃ name arguments, a.action = .call name arguments) :
      Turn w (w.settle
        { p with response := fresh.elim p.response fun result => p.response.set "result" result })

/-- **One step of `run_transport`.** -/
inductive Step (parsers : Parsers) (w : Transport) : Transport → Prop
  /-- A frame is taken, in whichever of the loops. -/
  | receive {event : Event} {session : Session} (frame : Frame) (running : w.phase ≠ .ended)
      (more : frame ≠ .eof) (handled : handle parsers w.exchange.session frame = (event, session)) :
      Step parsers w (w.receive event session)
  /-- The input has ended, the reader is gone, or a response could not be written. -/
  | stop (running : w.phase ≠ .ended) : Step parsers w w.stop
  | turn {w' : Transport} (turn : Turn w w') : Step parsers w w'

end Transport

end Baleyg.Mcp
