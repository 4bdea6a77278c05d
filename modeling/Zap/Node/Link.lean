/-
# Zap.Node.Link — two nodes on one connection.

Each end has its read loop, any number of `Call`s in flight, and `Send`s; the two ends share nothing but
the bytes on their way in either direction. A step is one thing one goroutine does under one lock or on
one channel: number a call, register it, write its request, take a response off its channel, give up,
leave; send; read a frame and act on it; return from a handler; write the answer; stop; close. Writes of
a frame are whole, since they are made under `conn.mu`, and the connection buffers without a bound.

The tags on the chunks of a stream (`Lib.Stream`) record which `Call` or `Send` a frame goes back to. The
nodes never see them: what an end does depends on the bytes it reads.
-/
import Zap.Node.Dispatch
import Zap.Lib.Stream
import Mathlib.Logic.Function.Basic

namespace Zap.Node

open Zap.Lib Zap.Wire

/-! ## Ends and frames -/

inductive Side
  | left
  | right
  deriving DecidableEq

def Side.peer : Side → Side
  | .left => .right
  | .right => .left

@[simp] theorem Side.peer_peer (s : Side) : s.peer.peer = s := by cases s <;> rfl

@[simp] theorem Side.peer_ne (s : Side) : s.peer ≠ s := by cases s <;> decide

@[simp] theorem Side.ne_peer (s : Side) : s ≠ s.peer := by cases s <;> decide

theorem Side.eq_or_peer (s t : Side) : t = s ∨ t = s.peer := by cases s <;> cases t <;> decide

/-- What started the exchange a frame belongs to: the `c`-th `Call` or the `n`-th `Send` of an end. -/
inductive Cause
  | call (s : Side) (c : Nat)
  | send (s : Side) (n : Nat)
  | unknown
  deriving DecidableEq

/-- What the writer meant a frame to be. -/
inductive Kind
  | request
  | response
  | plain
  | torn
  deriving DecidableEq

structure Tag where
  kind : Kind
  cause : Cause
  deriving DecidableEq

/-- Bytes that no writer's frame begins with. -/
def Tag.torn : Tag := ⟨.torn, .unknown⟩

abbrev Chunk := Stream.Chunk Tag UInt8

/-! ## The state of an end -/

/-- How a `Call` came out: the message it took off its channel, an error of the write, `ctx.Err()`. -/
inductive CallResult
  | message (tag : Tag) (msg : Message)
  | writeError
  | cancelled

/-- How far a `Call` has come. `leaving`: the result is settled, the deferred delete is not done yet. -/
inductive Phase
  | numbered
  | registered
  | waiting
  | leaving (r : CallResult)
  | returned (r : CallResult)

/-- One `Call`: its request, its number, and its channel of capacity one. -/
structure CallState where
  request : Message
  reqID : Nat
  phase : Phase := .numbered
  inbox : Option (Tag × Message) := none

/-- What a handler comes back with: an error or a panic, no message, or a message. -/
inductive Result
  | failed
  | nothing
  | reply (msg : Message)

/-- Where a read loop is: at the read, in a handler, before the write of the answer, or returned. With a
request id the frame is a request. -/
inductive Reader (H : Type)
  | idle
  | handling (tag : Tag) (reqID : Option Nat) (handler : H) (msg : Message)
  | replying (tag : Tag) (reqID : Option Nat) (msg : Message)
  | stopped

/-- One end of the connection: `conn.reqID`, the calls made so far, `conn.pending`, the messages handed to
`Send`, the read loop, whether the connection was closed at this end; and the handlers run and what they
came back with. -/
structure End (H : Type) where
  reqID : Nat := 0
  calls : List CallState := []
  pending : Nat → Option Nat := fun _ => none
  sent : List Message := []
  reader : Reader H := .idle
  closed : Bool := false
  invoked : List Tag := []
  produced : List (Tag × Message × Result) := []

structure Link (H : Type) where
  ends : Side → End H
  wire : Side → List Chunk

def Link.init {H : Type} : Link H := ⟨fun _ => {}, fun _ => []⟩

/-- How an end reads: with one of the two loops of a TCP node, or as `serveTransportConn` reads the control
stream of a QUIC connection, which carries no calls. -/
inductive Mode
  | tcp (l : Loop)
  | quic

/-- The two nodes: how they read, their handlers, and what a handler may come back with. -/
structure Setup (H : Type) where
  mode : Side → Mode
  handlers : Side → Nat → Option H
  may : H → Message → Result → Prop

variable {H : Type}

def Mode.body : Mode → (Nat → Option H) → List UInt8 → Action H
  | .tcp l, handlers, data => l.body handlers data
  | .quic, handlers, data =>
    match parse data with
    | .ok msg => handled handlers msg fun h => .run h msg
    | .error _ => .drop

/-- Whether what a handler returns for a one-way message is written back: `dispatchLoop` does, the other
loops discard it. -/
def Mode.answers : Mode → Bool
  | .tcp .dispatchLoop => true
  | .tcp .getOrConnect => false
  | .quic => false

/-! ## What the steps do -/

namespace End

def setCall (e : End H) (c : Nat) (k : CallState) : End H := { e with calls := e.calls.set c k }

/-- `conn.reqID++` -/
def number (e : End H) (msg : Message) : End H :=
  { e with
    reqID := (e.reqID + 1) % 2 ^ 32
    calls := e.calls ++ [{ request := msg, reqID := (e.reqID + 1) % 2 ^ 32 }] }

/-- `conn.pending[reqID] = respCh` -/
def register (e : End H) (c : Nat) (k : CallState) : End H :=
  { e.setCall c { k with phase := .registered } with
    pending := Function.update e.pending k.reqID (some c) }

/-- The deferred `delete(conn.pending, reqID)` -/
def finish (e : End H) (c : Nat) (k : CallState) (r : CallResult) : End H :=
  { e.setCall c { k with phase := .returned r } with
    pending := Function.update e.pending k.reqID none }

/-- A response: to the channel that is registered for its id, if there is one with room. -/
def deliver (e : End H) (tag : Tag) (reqID : Nat) (msg : Message) : End H :=
  match e.pending reqID with
  | none => e
  | some c =>
    match e.calls[c]? with
    | none => e
    | some k => if k.inbox.isNone then e.setCall c { k with inbox := some (tag, msg) } else e

def invoke (e : End H) (tag : Tag) (reqID : Option Nat) (h : H) (msg : Message) : End H :=
  { e with reader := .handling tag reqID h msg, invoked := e.invoked ++ [tag] }

def act (e : End H) (tag : Tag) : Action H → End H
  | .deliver reqID msg => e.deliver tag reqID msg
  | .serve h reqID msg => e.invoke tag (some reqID) h msg
  | .run h msg => e.invoke tag none h msg
  | .drop => e

/-- After the handler: an answer goes to the write, if there is one to make. -/
def give (e : End H) (answers : Bool) (tag : Tag) (reqID : Option Nat) (msg : Message) (r : Result) : End H :=
  { e with
    produced := e.produced ++ [(tag, msg, r)]
    reader :=
      match r with
      | .reply m => if reqID.isSome || answers then .replying tag reqID m else .idle
      | _ => .idle }

end End

/-- The frame a loop writes back: a response under the request's id, or a plain message. -/
def answer (tag : Tag) (reqID : Option Nat) (msg : Message) : Chunk :=
  match reqID with
  | some q => ⟨⟨if tag.kind = .request then .response else .plain, tag.cause⟩,
      writeCorrelated q reqFlagResp msg.data⟩
  | none => ⟨⟨.plain, tag.cause⟩, writeMessage msg.data⟩

namespace Link

def setEnd (σ : Link H) (s : Side) (e : End H) : Link H := { σ with ends := Function.update σ.ends s e }

def push (σ : Link H) (s : Side) (ch : Chunk) : Link H :=
  { σ with wire := Function.update σ.wire s (σ.wire s ++ [ch]) }

def stream (σ : Link H) (s : Side) : List UInt8 := Stream.bytes (σ.wire s.peer)

def take (σ : Link H) (p : Setup H) (s : Side) (data rest : List UInt8) : Link H :=
  { ends := Function.update σ.ends s
      ((σ.ends s).act (Stream.take writeMessage .torn (σ.wire s.peer) data rest).1
        ((p.mode s).body (p.handlers s) data))
    wire := Function.update σ.wire s.peer (Stream.take writeMessage .torn (σ.wire s.peer) data rest).2 }

end Link

/-- A step's label; `give` says what the handler came back with. -/
inductive Label
  | number (s : Side) (msg : Message)
  | register (s : Side) (c : Nat)
  | write (s : Side) (c : Nat)
  | writeFail (s : Side) (c : Nat)
  | receive (s : Side) (c : Nat)
  | cancel (s : Side) (c : Nat)
  | finish (s : Side) (c : Nat)
  | send (s : Side) (msg : Message)
  | read (s : Side)
  | give (s : Side) (r : Result)
  | reply (s : Side)
  | replyFail (s : Side)
  | stop (s : Side)
  | close (s : Side)

/-- One step of the two nodes. A call's write fails at any time the connection may have broken; a loop
stops at its read, on an error or because its node stops, and when its write fails; a connection is closed
at any time. -/
inductive Step (p : Setup H) : Link H → Label → Link H → Prop
  | number {σ : Link H} {s : Side} {msg : Message} : Step p σ (.number s msg) (σ.setEnd s ((σ.ends s).number msg))
  | register {σ : Link H} {s : Side} {c : Nat} {k : CallState} (hk : (σ.ends s).calls[c]? = some k)
      (hphase : k.phase = .numbered) :
      Step p σ (.register s c) (σ.setEnd s ((σ.ends s).register c k))
  | write {σ : Link H} {s : Side} {c : Nat} {k : CallState} (hk : (σ.ends s).calls[c]? = some k)
      (hphase : k.phase = .registered) (hconn : (σ.ends s).closed = false) :
      Step p σ (.write s c) ((σ.setEnd s ((σ.ends s).setCall c { k with phase := .waiting })).push s
        ⟨⟨.request, .call s c⟩, writeCorrelated k.reqID reqFlagReq k.request.data⟩)
  | writeFail {σ : Link H} {s : Side} {c : Nat} {k : CallState} (hk : (σ.ends s).calls[c]? = some k)
      (hphase : k.phase = .registered) :
      Step p σ (.writeFail s c)
        (σ.setEnd s ((σ.ends s).setCall c { k with phase := .leaving .writeError }))
  | receive {σ : Link H} {s : Side} {c : Nat} {k : CallState} {tag : Tag} {msg : Message}
      (hk : (σ.ends s).calls[c]? = some k) (hphase : k.phase = .waiting)
      (hinbox : k.inbox = some (tag, msg)) :
      Step p σ (.receive s c) (σ.setEnd s
        ((σ.ends s).setCall c { k with phase := .leaving (.message tag msg), inbox := none }))
  | cancel {σ : Link H} {s : Side} {c : Nat} {k : CallState} (hk : (σ.ends s).calls[c]? = some k)
      (hphase : k.phase = .waiting) :
      Step p σ (.cancel s c)
        (σ.setEnd s ((σ.ends s).setCall c { k with phase := .leaving .cancelled }))
  | finish {σ : Link H} {s : Side} {c : Nat} {k : CallState} {r : CallResult}
      (hk : (σ.ends s).calls[c]? = some k) (hphase : k.phase = .leaving r) :
      Step p σ (.finish s c) (σ.setEnd s ((σ.ends s).finish c k r))
  | send {σ : Link H} {s : Side} {msg : Message} (hconn : (σ.ends s).closed = false) :
      Step p σ (.send s msg)
        ((σ.setEnd s { σ.ends s with sent := (σ.ends s).sent ++ [msg] }).push s
          ⟨⟨.plain, .send s (σ.ends s).sent.length⟩, writeMessage msg.data⟩)
  | read {σ : Link H} {s : Side} {data rest : List UInt8} (hidle : (σ.ends s).reader = .idle)
      (hconn : (σ.ends s).closed = false) (hread : readMessageRaw (σ.stream s) = .ok (data, rest)) :
      Step p σ (.read s) (σ.take p s data rest)
  | oversize {σ : Link H} {s : Side} (hidle : (σ.ends s).reader = .idle)
      (hconn : (σ.ends s).closed = false) (hread : readMessageRaw (σ.stream s) = .error .tooLarge) :
      Step p σ (.read s) (σ.setEnd s { σ.ends s with reader := .stopped })
  | give {σ : Link H} {s : Side} {tag : Tag} {reqID : Option Nat} {h : H} {msg : Message} {r : Result}
      (hreader : (σ.ends s).reader = .handling tag reqID h msg) (hmay : p.may h msg r) :
      Step p σ (.give s r) (σ.setEnd s ((σ.ends s).give (p.mode s).answers tag reqID msg r))
  | reply {σ : Link H} {s : Side} {tag : Tag} {reqID : Option Nat} {msg : Message}
      (hreader : (σ.ends s).reader = .replying tag reqID msg) (hconn : (σ.ends s).closed = false) :
      Step p σ (.reply s)
        ((σ.setEnd s { σ.ends s with reader := .idle }).push s (answer tag reqID msg))
  | replyFail {σ : Link H} {s : Side} {tag : Tag} {reqID : Option Nat} {msg : Message}
      (hreader : (σ.ends s).reader = .replying tag reqID msg) :
      Step p σ (.replyFail s) (σ.setEnd s { σ.ends s with reader := .stopped })
  | stop {σ : Link H} {s : Side} (hidle : (σ.ends s).reader = .idle) :
      Step p σ (.stop s) (σ.setEnd s { σ.ends s with reader := .stopped })
  | close {σ : Link H} {s : Side} : Step p σ (.close s) (σ.setEnd s { σ.ends s with closed := true })

variable {p : Setup H} {σ : Link H} {s : Side} {ch : Chunk} {a : Action H}

theorem Step.readFrame {q : List Chunk} {data : List UInt8} (hidle : (σ.ends s).reader = .idle)
    (hconn : (σ.ends s).closed = false) (hwire : σ.wire s.peer = ch :: q) (hch : ch.bytes = writeMessage data)
    (hlen : data.length ≤ maxFrame) (ha : (p.mode s).body (p.handlers s) data = a) :
    Step p σ (.read s) ⟨Function.update σ.ends s ((σ.ends s).act ch.tag a), Function.update σ.wire s.peer q⟩ := by
  have hread : readMessageRaw (σ.stream s) = .ok (data, Stream.bytes q) := by
    rw [Link.stream, hwire, Stream.bytes_cons, hch]
    exact readMessageRaw_writeMessage hlen _
  have htake : Stream.take writeMessage .torn (σ.wire s.peer) data (Stream.bytes q) = (ch.tag, q) := by
    rw [hwire]
    exact if_pos hch
  have hstep := @Step.read H p σ s _ _ hidle hconn hread
  rwa [Link.take, htake, ha] at hstep

theorem Step.readTorn {data rest : List UInt8} (hidle : (σ.ends s).reader = .idle) (hconn : (σ.ends s).closed = false)
    (hwire : σ.wire s.peer = [ch]) (hch : ch.bytes = writeMessage data ++ rest) (hrest : rest ≠ [])
    (hlen : data.length ≤ maxFrame) (ha : (p.mode s).body (p.handlers s) data = a) :
    Step p σ (.read s) ⟨Function.update σ.ends s ((σ.ends s).act .torn a),
      Function.update σ.wire s.peer [⟨.torn, rest⟩]⟩ := by
  have hread : readMessageRaw (σ.stream s) = .ok (data, rest) := by
    rw [Link.stream, hwire, Stream.bytes_cons, Stream.bytes_nil, List.append_nil, hch]
    exact readMessageRaw_writeMessage hlen _
  have htake : Stream.take writeMessage .torn (σ.wire s.peer) data rest = (.torn, [⟨.torn, rest⟩]) := by
    rw [hwire]
    refine if_neg fun heq => hrest ?_
    rw [heq] at hch
    exact List.self_eq_append_right.mp hch
  have hstep := @Step.read H p σ s _ _ hidle hconn hread
  rwa [Link.take, htake, ha] at hstep

theorem Step.giveReply {tag : Tag} {q : Option Nat} {h : H} {msg m : Message}
    (hreader : (σ.ends s).reader = .handling tag q h msg) (hmay : p.may h msg (.reply m))
    (hanswers : (q.isSome || (p.mode s).answers) = true) :
    Step p σ (.give s (.reply m)) (σ.setEnd s { σ.ends s with
      produced := (σ.ends s).produced ++ [(tag, msg, .reply m)], reader := .replying tag q m }) := by
  have hstep := Step.give hreader hmay
  simpa only [End.give, hanswers, if_true] using hstep

theorem Step.det {τ τ' : Link H} {l : Label} (h : Step p σ l τ) (h' : Step p σ l τ') : τ = τ' := by
  cases h <;> cases h' <;> simp_all

def Run (p : Setup H) (tr : List Label) (σ : Link H) : Prop := Path (Step p) Link.init tr σ

/-- Both ends run `dispatchLoop`, with a handler for every type that may come back with anything. -/
def anyHandlers : Setup Unit := ⟨fun _ => .tcp .dispatchLoop, fun _ _ => some (), fun _ _ _ => True⟩

end Zap.Node
