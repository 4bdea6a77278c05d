/-
# Zap.Quic.Accept — the accept loop of a QUIC node (`quic/server.go`, `conn.go`, `factory.go`).

`Server.Accept` takes one connection off the listener and brings it through three stages: the negotiated
protocol, the control stream the client has to open, the identity frame it has to send. A failure of any
stage is returned the way a failure of the listener is, as an error; the loop in `factory.Listen` ends on
the first error it sees.

A client is modelled by what the server can observe of it before the handshake times out.
-/
import Zap.Node.Readers
import Mathlib.Data.List.TakeWhile

namespace Zap.Quic

open Zap.Lib

/-! ## Identity frames -/

abbrev nodeIDFrameSize : Nat := 64

/-- `writeHandshake`: the id, cut to 60 bytes and padded, and its length. -/
def writeHandshake (nodeID : Str) : List UInt8 :=
  let id := nodeID.take (nodeIDFrameSize - 4)
  Node.writeMessage ((Arr.copy (nodeIDFrameSize - 4) id).bytes ++ le 4 id.length)

/-- `readHandshake`: the id, if the frame arrives and is well formed. -/
def readHandshake (r : List UInt8) : Option Str :=
  match Node.readFrame "EOF" [r] with
  | (.error _, _) => none
  | (.ok frame, _) =>
    if frame.length ≠ nodeIDFrameSize then none
    else
      let n := ofLE (frame.drop (nodeIDFrameSize - 4))
      if n = 0 ∨ n > nodeIDFrameSize - 4 then none else some (frame.take n)

/-- **An identity crosses**, cut to 60 bytes; the empty one is refused. -/
theorem readHandshake_writeHandshake (nodeID : Str) (rest : List UInt8) :
    readHandshake (writeHandshake nodeID ++ rest) =
      if nodeID = [] then none else some (nodeID.take (nodeIDFrameSize - 4)) := by
  set id := nodeID.take (nodeIDFrameSize - 4) with hid
  have h60 : nodeIDFrameSize - 4 = 60 := rfl
  have hle : id.length ≤ 60 := by
    rw [hid, List.length_take]
    omega
  have hpad : (Arr.copy (nodeIDFrameSize - 4) id).bytes.length = 60 := Arr.len _
  have hlen : ((Arr.copy (nodeIDFrameSize - 4) id).bytes ++ le 4 id.length).length = nodeIDFrameSize := by
    rw [List.length_append, hpad, le_length]
  obtain ⟨r', hread, -⟩ := (Node.readFrame_iff (r := [writeHandshake nodeID ++ rest]) "EOF").mp (by
    rw [List.flatten_singleton]
    exact Node.readMessageRaw_writeMessage (by rw [← hid, hlen]; decide) rest)
  have hdrop : ((Arr.copy (nodeIDFrameSize - 4) id).bytes ++ le 4 id.length).drop (nodeIDFrameSize - 4) =
      le 4 id.length := List.drop_left' hpad
  have hword : ofLE (le 4 id.length) = id.length := by
    rw [ofLE_le, Nat.mod_eq_of_lt (by omega)]
  have hfit : id.take (nodeIDFrameSize - 4) = id := List.take_of_length_le hle
  have htake : ((Arr.copy (nodeIDFrameSize - 4) id).bytes ++ le 4 id.length).take id.length = id := by
    rw [List.take_append_of_le_length (by omega), Arr.copy]
    simp only [hfit, List.take_left]
  have hunfold : readHandshake (writeHandshake nodeID ++ rest) =
      if id.length = 0 ∨ id.length > nodeIDFrameSize - 4 then none else some id := by
    rw [readHandshake, hread]
    simp only [← hid, hlen, hdrop, hword, htake, ne_eq, not_true_eq_false, if_false]
  rw [hunfold]
  by_cases hnil : nodeID = []
  · rw [if_pos hnil, if_pos (.inl (by rw [hid, hnil]; rfl))]
  · have hpos : id.length ≠ 0 := by
      rw [hid]
      simpa using hnil
    rw [if_neg hnil, if_neg (by omega)]

/-! ## The server -/

def alpn : Str := "zap/1".toUTF8.data.toList

/-- An incoming connection, as far as the server observes it within the handshake timeout: the protocol
TLS negotiated, the bytes on the control stream if the client opened one, and whether the server's own
identity frame could be written. -/
structure Client where
  protocol : Str
  control : Option (List UInt8)
  reads : Bool

/-- What `ln.Accept` returns next. -/
inductive Arrival
  | client (c : Client)
  | closed
  | cancelled

inductive AcceptError
  | listener
  | protocol
  | controlStream
  | handshake

/-- `performServerHandshake`: read the client's id, then write our own. -/
def performServerHandshake (ctrl : List UInt8) (reads : Bool) : Option Str :=
  match readHandshake ctrl with
  | none => none
  | some peerID => if reads then some peerID else none

def serverAccept : Arrival → Except AcceptError Str
  | .closed | .cancelled => .error .listener
  | .client c =>
    if c.protocol ≠ alpn then .error .protocol
    else
      match c.control with
      | none => .error .controlStream
      | some ctrl =>
        match performServerHandshake ctrl c.reads with
        | none => .error .handshake
        | some peerID => .ok peerID

/-- The loop of `factory.Listen`: whether it still runs, and the peers passed to `onConn` so far. -/
structure AcceptLoop where
  running : Bool := true
  passed : List Str := []
  deriving DecidableEq

/-- One turn. Any error ends the loop. -/
def AcceptLoop.turn (l : AcceptLoop) (a : Arrival) : AcceptLoop :=
  if l.running then
    match serverAccept a with
    | .error _ => { l with running := false }
    | .ok peerID => { l with passed := l.passed ++ [peerID] }
  else l

def acceptLoop (as : List Arrival) : AcceptLoop := as.foldl AcceptLoop.turn {}

/-! ## Bad clients -/

/-- The id of a client that behaves: it speaks the protocol, opens the control stream, sends a well-formed
identity frame in time and reads the answer. -/
def Client.peerID (c : Client) : Option Str :=
  if c.protocol = alpn ∧ c.reads then c.control.bind readHandshake else none

def Client.WellBehaved (c : Client) : Prop := c.peerID ≠ none

/-- A client gets through `Accept` exactly if it behaves. -/
theorem serverAccept_client (c : Client) :
    (∀ id, c.peerID = some id → serverAccept (.client c) = .ok id) ∧
    (c.peerID = none → ∃ e, serverAccept (.client c) = .error e) := by
  rw [Client.peerID, serverAccept]
  by_cases hproto : c.protocol = alpn
  · cases hctrl : c.control with
    | none => simp [hproto]
    | some ctrl =>
      simp only [hproto, performServerHandshake, ne_eq, not_true_eq_false, if_false, true_and, Option.bind_some]
      cases readHandshake ctrl with
      | none => simp
      | some id => cases c.reads <;> simp
  · simp [hproto]

theorem turn_stopped {l : AcceptLoop} (h : l.running = false) (as : List Arrival) :
    as.foldl AcceptLoop.turn l = l := by
  induction as with
  | nil => rfl
  | cons a as ih =>
    have hturn : l.turn a = l := by
      rw [AcceptLoop.turn, h]
      rfl
    rw [List.foldl_cons, hturn, ih]

/-- What the loop has done with a sequence of clients: it passed on those in front of the first bad one,
and runs if there is none. -/
theorem acceptLoop_clients (cs : List Client) (passed : List Str) :
    (cs.map Arrival.client).foldl AcceptLoop.turn ⟨true, passed⟩ = ⟨cs.all fun c => c.peerID.isSome,
        passed ++ (cs.takeWhile fun c => c.peerID.isSome).filterMap Client.peerID⟩ := by
  induction cs generalizing passed with
  | nil => simp
  | cons c cs ih =>
    rw [List.map_cons, List.foldl_cons]
    cases hid : c.peerID with
    | none =>
      obtain ⟨e, he⟩ := (serverAccept_client c).2 hid
      have hturn : AcceptLoop.turn ⟨true, passed⟩ (.client c) = ⟨false, passed⟩ := by
        simp only [AcceptLoop.turn, he, if_true]
      rw [hturn, turn_stopped rfl]
      simp [hid]
    | some id =>
      have hturn : AcceptLoop.turn ⟨true, passed⟩ (.client c) = ⟨true, passed ++ [id]⟩ := by
        simp only [AcceptLoop.turn, (serverAccept_client c).1 id hid, if_true]
      rw [hturn, ih]
      simp [hid]

/-- With the listener open and the context alive, the loop runs and has passed on every client of the
sequence that behaves. -/
def KeepsAccepting (cs : List Client) : Prop := acceptLoop (cs.map .client) = ⟨true, cs.filterMap Client.peerID⟩

/-- **When the loop keeps accepting**: as long as every client behaves. -/
theorem accept_loop_iff (cs : List Client) : KeepsAccepting cs ↔ ∀ c ∈ cs, c.WellBehaved := by
  have hrun := acceptLoop_clients cs []
  rw [List.nil_append] at hrun
  rw [KeepsAccepting, acceptLoop, hrun]
  constructor
  · intro h c hc hbad
    have hall := List.all_eq_true.mp (congrArg AcceptLoop.running h) c hc
    rw [hbad] at hall
    cases hall
  · intro h
    have hsome : ∀ c ∈ cs, c.peerID.isSome = true := fun c hc =>
      Option.isSome_iff_ne_none.mpr (h c hc)
    rw [List.all_eq_true.mpr hsome, List.takeWhile_eq_self_iff.2 hsome]

/-- A client that never opens the control stream, and a good one behind it: the loop has ended and the
good one is not passed on. -/
theorem silent_client_stops_loop :
    (⟨alpn, some (writeHandshake [0x61]), true⟩ : Client).peerID = some [0x61] ∧
    acceptLoop [.client ⟨alpn, none, true⟩, .client ⟨alpn, some (writeHandshake [0x61]), true⟩] =
      ⟨false, []⟩ := by
  decide

end Zap.Quic
