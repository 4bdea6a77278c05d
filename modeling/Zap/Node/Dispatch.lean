/-
# Zap.Node.Dispatch — one turn of a node's read loop, up to the handler.

`dispatchLoop` takes a frame apart (`incoming`), looks the handler up under the upper byte of the
message's flags and runs it; what it does then is `Action`. A frame that is not for a handler goes to a
pending call (`deliver`) or nowhere (`drop`). A connection a node opens for a peer it discovered has a
loop of its own, inside `getOrConnect`, which knows responses and plain messages but no requests.
-/
import Zap.Node.Codec

namespace Zap.Node

open Zap.Lib Zap.Wire

/-! ## The loop body -/

/-- What a frame holds. -/
inductive Incoming
  | response (reqID : Nat) (msg : Message)
  | request (reqID : Nat) (msg : Message)
  | oneWay (msg : Message)
  | unparsable

/-- The classification at the head of the loop: the header decides, then the body has to parse. -/
def incoming (data : List UInt8) : Incoming :=
  match unwrapCorrelated data with
  | some (reqID, flag, body) =>
    match parse body with
    | .ok msg => if flag = reqFlagResp then .response reqID msg else .request reqID msg
    | .error _ => .unparsable
  | none =>
    match parse data with
    | .ok msg => .oneWay msg
    | .error _ => .unparsable

/-- What the loop does with a frame: hand a response over, serve a request, run a one-way handler, or go
on to the next frame. -/
inductive Action (H : Type)
  | deliver (reqID : Nat) (msg : Message)
  | serve (handler : H) (reqID : Nat) (msg : Message)
  | run (handler : H) (msg : Message)
  | drop

/-- The loop body up to the call of the handler, over a table of handlers. -/
def dispatch {H : Type} (handlers : Nat → Option H) (data : List UInt8) : Action H :=
  match incoming data with
  | .response reqID msg => .deliver reqID msg
  | .request reqID msg =>
    match handlers (msgType msg) with
    | some h => .serve h reqID msg
    | none => .drop
  | .oneWay msg =>
    match handlers (msgType msg) with
    | some h => .run h msg
    | none => .drop
  | .unparsable => .drop

/-- The body of the loop that `getOrConnect` starts, up to the call of the handler. -/
def dialerDispatch {H : Type} (handlers : Nat → Option H) (data : List UInt8) : Action H :=
  if correlatedHeaderSize ≤ data.length ∧ ofLE (window data 4 4) = reqFlagResp then
    match parse (data.drop correlatedHeaderSize) with
    | .ok msg => .deliver (ofLE (window data 0 4)) msg
    | .error _ => .drop
  else
    match parse data with
    | .ok msg =>
      match handlers (msgType msg) with
      | some h => .run h msg
      | none => .drop
    | .error _ => .drop

inductive Loop
  | dispatchLoop
  | getOrConnect

def Loop.body {H : Type} : Loop → (Nat → Option H) → List UInt8 → Action H
  | .dispatchLoop => dispatch
  | .getOrConnect => dialerDispatch

/-- The first turn of a loop over the bytes of a connection. -/
def Loop.receive {H : Type} (l : Loop) (handlers : Nat → Option H) (r : List UInt8) :
    Except ReadError (Action H) :=
  match readMessageRaw r with
  | .ok (data, _) => .ok (l.body handlers data)
  | .error e => .error e

/-! ## What arrives -/

section Arrival

variable {data : List UInt8} {m : Message}

theorem incoming_wrap (h : parse data = .ok m) {reqID : Nat} (hid : reqID < 2 ^ 32) :
    incoming (wrapCorrelated reqID reqFlagReq m.data) = .request reqID m ∧
    incoming (wrapCorrelated reqID reqFlagResp m.data) = .response reqID m := by
  simp only [incoming, unwrapCorrelated_wrapCorrelated hid (.inl rfl),
    unwrapCorrelated_wrapCorrelated hid (.inr rfl), parse_data h]
  exact ⟨rfl, rfl⟩

theorem incoming_plain_iff (h : parse data = .ok m) : incoming m.data = .oneWay m ↔ m.flags ≠ 0 := by
  simp only [incoming, unwrap_message h]
  by_cases hflags : m.flags = 0
  · simp only [if_pos hflags]
    constructor
    · intro heq
      exfalso
      revert heq
      cases parse (m.data.drop correlatedHeaderSize) with
      | error e => simp
      | ok msg =>
        simp only
        split_ifs <;> simp
    · exact fun hne => absurd hflags hne
  · simp only [if_neg hflags, parse_data h]
    simp [hflags]

end Arrival

/-! ## Plain messages and calls -/

section Confusion

variable {H : Type} {bytes : List UInt8} {m : Message}

/-- The handler of the message's type runs, as `act` says, or there is none. -/
def handled (handlers : Nat → Option H) (m : Message) (act : H → Action H) : Action H :=
  match handlers (msgType m) with
  | some h => act h
  | none => .drop

/-- A peer that gets the message through `Send` runs the handler for its type. -/
def SendRuns (l : Loop) (H : Type) (m : Message) : Prop :=
  ∀ handlers : Nat → Option H, l.receive handlers (writeMessage m.data) = .ok (handled handlers m fun h => .run h m)

/-- A peer that gets the message through `Call` serves it as a request with that body. -/
def CallServes (l : Loop) (H : Type) (m : Message) : Prop :=
  ∀ handlers : Nat → Option H, ∀ reqID < 2 ^ 32,
    l.receive handlers (writeCorrelated reqID reqFlagReq m.data) = .ok (handled handlers m fun h => .serve h reqID m)

theorem receive_frame (l : Loop) (handlers : Nat → Option H) {data : List UInt8}
    (hlen : data.length ≤ maxFrame) :
    l.receive handlers (writeMessage data) = .ok (l.body handlers data) := by
  have hread := readMessageRaw_writeMessage hlen []
  rw [List.append_nil] at hread
  rw [Loop.receive, hread]

theorem dispatch_plain (hm : parse bytes = .ok m) (hflags : m.flags ≠ 0) (handlers : Nat → Option H) :
    dispatch handlers m.data = handled handlers m fun h => .run h m := by
  rw [dispatch, (incoming_plain_iff hm).mpr hflags]
  rfl

theorem dispatch_confused (hm : parse bytes = .ok m) (hflags : m.flags = 0) (handlers : Nat → Option H)
    (h : H) (msg : Message) : dispatch handlers m.data ≠ .run h msg := by
  simp only [dispatch, incoming, unwrap_message hm, if_pos hflags]
  cases parse (m.data.drop correlatedHeaderSize) with
  | error e => simp
  | ok body =>
    by_cases hresp : m.version = reqFlagResp
    · simp [hresp]
    · simp only [if_neg hresp]
      cases handlers (msgType body) <;> simp

theorem dispatch_call (hm : parse bytes = .ok m) {reqID : Nat} (hid : reqID < 2 ^ 32)
    (handlers : Nat → Option H) :
    dispatch handlers (wrapCorrelated reqID reqFlagReq m.data) = handled handlers m fun h => .serve h reqID m := by
  rw [dispatch, (incoming_wrap hm hid).1]
  rfl

theorem dialerDispatch_ne_serve (handlers : Nat → Option H) (data : List UInt8) (h : H) (reqID : Nat)
    (msg : Message) : dialerDispatch handlers data ≠ .serve h reqID msg := by
  rw [dialerDispatch]
  split_ifs
  · cases parse (data.drop correlatedHeaderSize) <;> simp
  cases parse data with
  | error e => simp
  | ok msg' =>
    simp only
    cases handlers (msgType msg') <;> simp

/-- **When a message is never confused**: exactly when the peer reads with `dispatchLoop` and the flags of
the message are not zero; and exactly the messages without flags are taken for correlated frames. The
size is what one frame can carry. -/
theorem send_dispatched_iff [Nonempty H] (l : Loop) (hm : parse bytes = .ok m)
    (hsize : correlatedHeaderSize + m.data.length ≤ maxFrame) :
    ((SendRuns l H m ∧ CallServes l H m) ↔ l = .dispatchLoop ∧ m.flags ≠ 0) ∧
      (unwrapCorrelated m.data = none ↔ m.flags ≠ 0) := by
  have hplain : m.data.length ≤ maxFrame := by omega
  have hcall : ∀ reqID, (wrapCorrelated reqID reqFlagReq m.data).length ≤ maxFrame := fun reqID => by
    rw [wrapCorrelated_length]
    exact hsize
  obtain ⟨h₀⟩ := ‹Nonempty H›
  refine ⟨⟨?_, ?_⟩, by rw [unwrap_message hm]; simp⟩
  · rintro ⟨hrun, hserve⟩
    cases l with
    | dispatchLoop =>
      refine ⟨rfl, fun hflags => ?_⟩
      have h := hrun fun _ => some h₀
      rw [receive_frame _ _ hplain, Except.ok.injEq] at h
      have hd : dispatch (fun _ => some h₀) m.data = .run h₀ m := h
      exact dispatch_confused hm hflags _ h₀ m hd
    | getOrConnect =>
      have h := hserve (fun _ => some h₀) 0 (by decide)
      rw [writeCorrelated_eq, receive_frame _ _ (hcall 0), Except.ok.injEq] at h
      have hd : dialerDispatch (fun _ => some h₀) (wrapCorrelated 0 reqFlagReq m.data) =
        .serve h₀ 0 m := h
      exact absurd hd (dialerDispatch_ne_serve _ _ h₀ 0 m)
  · rintro ⟨rfl, hflags⟩
    refine ⟨fun handlers => ?_, fun handlers reqID hid => ?_⟩
    · rw [receive_frame _ _ hplain]
      exact congrArg _ (dispatch_plain hm hflags handlers)
    · rw [writeCorrelated_eq, receive_frame _ _ (hcall reqID)]
      exact congrArg _ (dispatch_call hm hid handlers)

end Confusion

/-- The message of a builder that was given no object, of type 1: the header alone. -/
def bare : Message := ⟨[0x5a, 0x41, 0x50, 0, 2, 0, 0, 1, 0, 0, 0, 0, 16, 0, 0, 0], by decide⟩

/-- Type 1 in the upper byte of the flags: sent and called without confusion. -/
theorem typed_dispatched :
    ∃ m, parse ((newBuilder 256 version2).finishWithFlags 256).1 = .ok m ∧
      SendRuns .dispatchLoop Unit m ∧ CallServes .dispatchLoop Unit m ∧
      unwrapCorrelated m.data = none := by
  have h := @send_dispatched_iff Unit bare.data bare _ .dispatchLoop rfl (by decide)
  obtain ⟨hsend, hcall⟩ := h.1.mpr ⟨rfl, by decide⟩
  exact ⟨bare, rfl, hsend, hcall, rfl⟩

set_option maxRecDepth 4000 in
/-- A message finished without flags: `unwrapCorrelated` takes it for the response to a request, and a
peer that gets it through `Send` does not run the handler for its type. -/
theorem untyped_confused :
    ∃ m, parse (newBuilder 256 version2).finish.1 = .ok m ∧ unwrapCorrelated m.data ≠ none ∧
      ¬SendRuns .dispatchLoop Unit m := by
  refine ⟨_, rfl, by decide, fun hsend => ?_⟩
  cases hsend fun _ => some ()

end Zap.Node
