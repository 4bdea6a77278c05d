/-
# Zap.Web.Server — the browser bridge: `zapweb.Handler`.

The loop reads a WebSocket message, skips it if it is a text or too short for a header, and otherwise dispatches
its tail and writes one frame back under the id it came with. A read or a write that fails ends the session.

The flag of the header is never looked at, though the comment says that only `ReqFlagReq` is acted on. A
response or an error frame is dispatched and answered like a request.
-/
import Zap.Wire.Message

namespace Zap.Web

open Zap.Lib Zap.Wire

/-! ## The handler -/

structure Incoming where
  binary : Bool
  data : List UInt8

def Incoming.reqID (x : Incoming) : Nat := ofLE (window x.data 0 4)

/-- Long enough and of the right kind for a frame. -/
def Incoming.framed (x : Incoming) : Bool := x.binary && decide (8 ≤ x.data.length)

/-- What `Dispatch` returns: a message or none, or the text of an error. -/
abbrev Outcome := Except (List UInt8) (Option Message)

def errorText : WireError → List UInt8
  | .invalidMagic => "zap: invalid magic bytes".toUTF8.data.toList
  | .invalidVersion => "zap: unsupported version".toUTF8.data.toList
  | .bufferTooSmall => "zap: buffer too small".toUTF8.data.toList
  | .outOfBounds => "zap: offset out of bounds".toUTF8.data.toList

def encode (reqID : Nat) : Outcome → List UInt8
  | .error text => le 4 reqID ++ le 4 3 ++ text
  | .ok resp => le 4 reqID ++ le 4 2 ++ (resp.elim [] Message.data)

inductive Act
  | dispatch (msg : Message) (outcome : Outcome)
  | write (frame : List UInt8)

variable {S : Type} (dispatch : S → Message → Outcome × S)

/-- The loop of `Handler`, over the messages it reads, with a server whose handlers have a state. -/
def handler : S → List Incoming → List Act
  | _, [] => []
  | s, x :: xs =>
    if x.framed = false then handler s xs
    else
      match parse (x.data.drop 8) with
      | .error e => .write (encode x.reqID (.error (errorText e))) :: handler s xs
      | .ok msg =>
        .dispatch msg (dispatch s msg).1 :: .write (encode x.reqID (dispatch s msg).1) ::
          handler (dispatch s msg).2 xs

/-! ## Requests and replies -/

/-- The server serves a list of messages in order. One whose tail is no message is answered with that error; any
other is dispatched, in the state the last one left, and answered with what the server returned. Each answer
goes out under the id of its message. -/
inductive Serves : S → List Incoming → List Act → Prop
  | done (s : S) : Serves s [] []
  | unparsed {s : S} {x : Incoming} {xs : List Incoming} {acts : List Act} {e : WireError}
      (h : parse (x.data.drop 8) = .error e) (rest : Serves s xs acts) :
      Serves s (x :: xs) (.write (encode x.reqID (.error (errorText e))) :: acts)
  | dispatched {s : S} {x : Incoming} {xs : List Incoming} {acts : List Act} {msg : Message}
      (h : parse (x.data.drop 8) = .ok msg) (rest : Serves (dispatch s msg).2 xs acts) :
      Serves s (x :: xs) (.dispatch msg (dispatch s msg).1 :: .write (encode x.reqID (dispatch s msg).1) :: acts)

variable {dispatch} {s : S} {xs : List Incoming} {acts : List Act}

end Zap.Web
