/-
# Zap.Dex.Watch — the envelopes of a notified intent (`wire_intent.go`, `v4route.go`).

What a client sends to notify, to poll and to observe, and the statuses that come back. Every builder tags
its message with its type whatever the fields hold, which is all that is needed to know what kind of call is
made (`Tagged`). A status is read in two steps. All its fields but one are copied out of the reply; the reason
is a string over the reply's own buffer, so the reader returns it as the span it refers to, and `text` says
what it reads as while the buffer is still there.
-/
import Zap.Dex.Codec

namespace Zap.Dex

open Zap.Lib Zap.Wire

/-! ## Requests -/

def msgGetState : Nat := 0xA1

def msgPrepare : Nat := 0xA2

def msgNotify : Nat := 0xA3

def msgWatchPoll : Nat := 0xA4

def msgRoutePrepare : Nat := 0xA9

def msgRouteStatus : Nat := 0xAA

def Tagged (build : Go (Except WireError Message)) (type : Nat) : Prop := ∀ m, build = .ok (.ok m) → msgType m = type

theorem envelope_tagged {capacity size type : Nat} {fs : Fields} (hwf : (Wire.Tree.node size fs).WF)
    (hplain : fs.Plain) (htype : type < 256) : Tagged (envelope capacity size fs (type <<< 8)) type := by
  intro m hm
  rw [msgType, (envelope_head hwf hplain hm).1, Nat.shiftLeft_eq, Nat.shiftRight_eq_div_pow]
  omega

abbrev StateKind := UInt8

structure StateRequest where
  kind : StateKind
  marketID : ID
  account : Account
  asset : ID
  intentID : ID

structure StateResult where
  kind : StateKind
  exists' : Bool
  baseID : ID
  quoteID : ID
  available : UInt64
  known : Bool

structure RouteRequest where
  networkID : UInt32
  cChainID : ID
  dChainID : ID
  account : Account
  assetIn : ID
  assetInAddr : Account
  amountIn : UInt64
  path : List ID
  minAmountOut : UInt64
  recipient : Account
  deadline : UInt64
  callIndex : UInt32

def PreparedIntent.fields (p : PreparedIntent) : Fields :=
  .cons 0 (.fixed p.toAddr.bytes) <| .cons 20 (.fixed p.intentID.bytes) <|
    .cons 52 (.scalar .w64 p.quotedOut.toNat) <| .cons 60 (.scalar .w64 p.amountIn.toNat) <|
    .cons 68 (.fixed p.dChainID.bytes) <| .cons 100 (.fixed p.cChainID.bytes) <|
    .cons 132 (.fixed p.account.bytes) <| .cons 152 (.fixed p.recipient.bytes) <|
    .cons 172 (.fixed p.assetIn.bytes) <| .cons 204 (.fixed p.marketID.bytes) <|
    .cons 236 (.bytes p.calldata) <| .cons 244 (.bytes p.hookData) .nil

def buildPreparedIntent (p : PreparedIntent) (type : Nat) : Go (Except WireError Message) :=
  envelope (252 + p.calldata.length + p.hookData.length + 256) 252 p.fields (type <<< 8)

def readPreparedIntent (m : Message) : Go PreparedIntent := do
  return {
    toAddr := ← array 20 m.root 0
    intentID := ← array 32 m.root 20
    quotedOut := ← u64 m.root 52
    amountIn := ← u64 m.root 60
    dChainID := ← array 32 m.root 68
    cChainID := ← array 32 m.root 100
    account := ← array 20 m.root 132
    recipient := ← array 20 m.root 152
    assetIn := ← array 32 m.root 172
    marketID := ← array 32 m.root 204
    calldata := ← bytes m.root 236
    hookData := ← bytes m.root 244 }

def SwapIntentRequest.fields (r : SwapIntentRequest) : Fields :=
  .cons 0 (.scalar .w32 r.networkID.toNat) <| .cons 8 (.scalar .w64 r.amountIn.toNat) <|
    .cons 16 (.scalar .w64 r.minAmountOut.toNat) <| .cons 24 (.scalar .w64 r.deadline.toNat) <|
    .cons 32 (.scalar .w64 r.nonce.toNat) <| .cons 40 (.fixed r.cChainID.bytes) <|
    .cons 72 (.fixed r.dChainID.bytes) <| .cons 104 (.fixed r.account.bytes) <|
    .cons 124 (.fixed r.assetIn.bytes) <| .cons 156 (.fixed r.assetInAddr.bytes) <|
    .cons 176 (.fixed r.marketID.bytes) <| .cons 208 (.fixed r.recipient.bytes) .nil

def buildSwapIntentRequest (r : SwapIntentRequest) : Go (Except WireError Message) :=
  envelope (228 + 256) 228 r.fields (msgPrepare <<< 8)

def readSwapIntentRequest (m : Message) : Go SwapIntentRequest := do
  return {
    networkID := ← u32 m.root 0
    amountIn := ← u64 m.root 8
    minAmountOut := ← u64 m.root 16
    deadline := ← u64 m.root 24
    nonce := ← u64 m.root 32
    cChainID := ← array 32 m.root 40
    dChainID := ← array 32 m.root 72
    account := ← array 20 m.root 104
    assetIn := ← array 32 m.root 124
    assetInAddr := ← array 20 m.root 156
    marketID := ← array 32 m.root 176
    recipient := ← array 20 m.root 208 }

def StateRequest.fields (r : StateRequest) : Fields :=
  .cons 0 (.scalar .w8 r.kind.toNat) <| .cons 8 (.fixed r.marketID.bytes) <|
    .cons 40 (.fixed r.account.bytes) <| .cons 60 (.fixed r.asset.bytes) <|
    .cons 92 (.fixed r.intentID.bytes) .nil

def buildStateRequest (r : StateRequest) : Go (Except WireError Message) :=
  envelope (124 + 128) 124 r.fields (msgGetState <<< 8)

def readStateRequest (m : Message) : Go StateRequest := do
  return {
    kind := ← u8 m.root 0
    marketID := ← array 32 m.root 8
    account := ← array 20 m.root 40
    asset := ← array 32 m.root 60
    intentID := ← array 32 m.root 92 }

def StateResult.fields (r : StateResult) : Fields :=
  .cons 0 (.scalar .w8 r.kind.toNat) <| .cons 1 (.scalar .w8 r.exists'.toNat) <|
    .cons 2 (.scalar .w8 r.known.toNat) <| .cons 8 (.scalar .w64 r.available.toNat) <|
    .cons 16 (.fixed r.baseID.bytes) <| .cons 48 (.fixed r.quoteID.bytes) .nil

def buildStateResult (r : StateResult) : Go (Except WireError Message) :=
  envelope (80 + 80) 80 r.fields (msgGetState <<< 8)

def readStateResult (m : Message) : Go StateResult := do
  return {
    kind := ← u8 m.root 0
    exists' := ← Wire.bool m.root 1
    known := ← Wire.bool m.root 2
    available := ← u64 m.root 8
    baseID := ← array 32 m.root 16
    quoteID := ← array 32 m.root 48 }

def idFields (intentID : ID) : Fields := .cons 0 (.fixed intentID.bytes) .nil

def buildWatchPollRequest (intentID : ID) : Go (Except WireError Message) :=
  envelope (32 + 40) 32 (idFields intentID) (msgWatchPoll <<< 8)

def buildRouteWatchPoll (intentID : ID) : Go (Except WireError Message) :=
  envelope (32 + 40) 32 (idFields intentID) (msgRouteStatus <<< 8)

def buildIntentWatchRef (intentID : ID) : Go (Except WireError Message) :=
  envelope (32 + 40) 32 (idFields intentID) (msgNotify <<< 8)

/-- `readWatchPollRequest`, `readRouteWatchPoll` and `readIntentWatchRef`: the id at the root. -/
def readIntentID (m : Message) : Go ID := array 32 m.root 0

def RouteRequest.fields (r : RouteRequest) : Fields :=
  .cons 0 (.scalar .w32 r.networkID.toNat) <| .cons 4 (.scalar .w32 r.callIndex.toNat) <|
    .cons 8 (.scalar .w32 (UInt32.ofNat r.path.length).toNat) <| .cons 16 (.scalar .w64 r.amountIn.toNat) <|
    .cons 24 (.scalar .w64 r.minAmountOut.toNat) <| .cons 32 (.scalar .w64 r.deadline.toNat) <|
    .cons 40 (.fixed r.cChainID.bytes) <| .cons 72 (.fixed r.dChainID.bytes) <|
    .cons 104 (.fixed r.account.bytes) <| .cons 124 (.fixed r.assetIn.bytes) <|
    .cons 156 (.fixed r.assetInAddr.bytes) <| .cons 176 (.fixed r.recipient.bytes) <|
    .cons 196 (.bytes (r.path.flatMap Arr.bytes)) .nil

def buildRouteRequest (r : RouteRequest) : Go (Except WireError Message) :=
  envelope (204 + (r.path.flatMap Arr.bytes).length + 128) 204 r.fields (msgRoutePrepare <<< 8)

/-- The ids the path bytes hold, as far as the hop count goes. -/
def hops (hopCount : Nat) (pathBytes : List UInt8) : List ID :=
  (List.range (min hopCount (pathBytes.length / 32))).map fun i => .copy 32 (window pathBytes (i * 32) 32)

def readRouteRequest (m : Message) : Go RouteRequest := do
  let networkID ← u32 m.root 0
  let callIndex ← u32 m.root 4
  let hopCount ← u32 m.root 8
  let amountIn ← u64 m.root 16
  let minAmountOut ← u64 m.root 24
  let deadline ← u64 m.root 32
  let cChainID ← array 32 m.root 40
  let dChainID ← array 32 m.root 72
  let account ← array 20 m.root 104
  let assetIn ← array 32 m.root 124
  let assetInAddr ← array 20 m.root 156
  let recipient ← array 20 m.root 176
  let pathBytes ← bytes m.root 196
  return ⟨networkID, cChainID, dChainID, account, assetIn, assetInAddr, amountIn, hops hopCount.toNat pathBytes,
    minAmountOut, recipient, deadline, callIndex⟩

section Layouts

theorem PreparedIntent.wf (p : PreparedIntent) : (Wire.Tree.node 252 p.fields).WF := by
  simp [Wire.Tree.WF, PreparedIntent.fields, Fields.WF, Fields.Clear, Field.width, Apart, Width.bytes]

theorem StateRequest.wf (r : StateRequest) : (Wire.Tree.node 124 r.fields).WF := by
  simp [Wire.Tree.WF, StateRequest.fields, Fields.WF, Fields.Clear, Field.width, Apart, Width.bytes]

theorem idFields_wf (intentID : ID) : (Wire.Tree.node 32 (idFields intentID)).WF := by
  simp [Wire.Tree.WF, idFields, Fields.WF, Fields.Clear, Field.width]

theorem RouteRequest.wf (r : RouteRequest) : (Wire.Tree.node 204 r.fields).WF := by
  have hcount := scalar32_wf (UInt32.ofNat r.path.length)
  simpa [Wire.Tree.WF, RouteRequest.fields, Fields.WF, Fields.Clear, Field.width, Apart, Width.bytes] using hcount

theorem quoteRequest_tagged (r : QuoteRequest) : Tagged (buildQuoteRequest r) msgQuote :=
  envelope_tagged r.wf trivial (by decide)

theorem dExportRef_tagged (r : DExportRef) : Tagged (buildDExportRef r) msgImport :=
  envelope_tagged r.wf trivial (by decide)

theorem preparedIntent_tagged (p : PreparedIntent) {type : Nat} (htype : type < 256) :
    Tagged (buildPreparedIntent p type) type :=
  envelope_tagged p.wf trivial htype

theorem stateRequest_tagged (r : StateRequest) : Tagged (buildStateRequest r) msgGetState :=
  envelope_tagged r.wf trivial (by decide)

theorem watchPollRequest_tagged (intentID : ID) : Tagged (buildWatchPollRequest intentID) msgWatchPoll :=
  envelope_tagged (idFields_wf intentID) trivial (by decide)

theorem routeWatchPoll_tagged (intentID : ID) : Tagged (buildRouteWatchPoll intentID) msgRouteStatus :=
  envelope_tagged (idFields_wf intentID) trivial (by decide)

theorem routeRequest_tagged (r : RouteRequest) : Tagged (buildRouteRequest r) msgRoutePrepare :=
  envelope_tagged r.wf trivial (by decide)

theorem idEnvelope_carries (intentID : ID) {type : Nat} (htype : type < 256) :
    Carries (envelope (32 + 40) 32 (idFields intentID) (type <<< 8)) type readIntentID intentID :=
  envelope_carries (idFields_wf intentID) trivial htype (show 16 + 32 + 0 < 2 ^ 32 by decide)
    fun _ h => array_of_reads h.1

theorem watchPollRequest_carries (intentID : ID) :
    Carries (buildWatchPollRequest intentID) msgWatchPoll readIntentID intentID :=
  idEnvelope_carries intentID (by decide)

end Layouts

/-! ## Statuses -/

abbrev IntentPhase := UInt8

def phaseMatching : IntentPhase := 1
def phaseCommitted : IntentPhase := 2
def phaseRejected : IntentPhase := 3

/-- `IntentStatus`, with its reason as a `τ`. -/
structure IntentStatus (τ : Type) where
  intentID : ID
  phase : IntentPhase
  ref : DExportRef
  reason : τ
  matchedOut : UInt64

abbrev RoutePhase := UInt8

def routeHopping : RoutePhase := 1
def routeCommitted : RoutePhase := 2
def routeRefunded : RoutePhase := 3
def routeRejected : RoutePhase := 4

/-- `RouteStatus`, with its reason as a `τ`. -/
structure RouteStatus (τ : Type) where
  intentID : ID
  phase : RoutePhase
  hopIndex : UInt32
  hopCount : UInt32
  hopAmountOut : UInt64
  finalOut : UInt64
  ref : DExportRef
  reason : τ

/-- A zero-copy string: the part of the buffer it refers to. -/
abbrev TextView := Option Span

def TextView.text (t : TextView) : Str := spanBytes t

def IntentStatus.map {τ υ : Type} (f : τ → υ) (s : IntentStatus τ) : IntentStatus υ :=
  { s with reason := f s.reason }

def RouteStatus.map {τ υ : Type} (f : τ → υ) (s : RouteStatus τ) : RouteStatus υ := { s with reason := f s.reason }

def readIntentStatus (m : Message) : Go (IntentStatus TextView) := do
  let phase ← u8 m.root 0
  let intentID ← array 32 m.root 8
  let outputIndex ← u32 m.root 4
  let sourceChainID ← array 32 m.root 40
  let sourceTxID ← array 32 m.root 72
  let matchedOut ← u64 m.root 104
  let reason ← m.root.text 112
  return ⟨intentID, phase, ⟨sourceChainID, sourceTxID, outputIndex, intentID⟩, reason, matchedOut⟩

def DExportRef.zero : DExportRef := ⟨.zero 32, .zero 32, 0, .zero 32⟩

def readRouteStatus (m : Message) : Go (RouteStatus TextView) := do
  let phase ← u8 m.root 0
  let hopIndex ← u32 m.root 4
  let hopCount ← u32 m.root 8
  let outputIndex ← u32 m.root 12
  let hopAmountOut ← u64 m.root 16
  let finalOut ← u64 m.root 24
  let intentID ← array 32 m.root 32
  let sourceChainID ← array 32 m.root 64
  let sourceTxID ← array 32 m.root 96
  let reason ← m.root.text 128
  let ref : DExportRef :=
    if phase ≠ routeCommitted ∧ phase ≠ routeRefunded then .zero
    else ⟨sourceChainID, sourceTxID, outputIndex, intentID⟩
  return ⟨intentID, phase, hopIndex, hopCount, hopAmountOut, finalOut, ref, reason⟩

/-- The fields `buildIntentStatus` sets; the ref's own intent id is not sent. -/
def IntentStatus.fields (s : IntentStatus Str) : Fields :=
  .cons 0 (.scalar .w8 s.phase.toNat) <| .cons 4 (.scalar .w32 s.ref.outputIndex.toNat) <|
    .cons 8 (.fixed s.intentID.bytes) <| .cons 40 (.fixed s.ref.sourceChainID.bytes) <|
    .cons 72 (.fixed s.ref.sourceTxID.bytes) <| .cons 104 (.scalar .w64 s.matchedOut.toNat) <|
    .cons 112 (.bytes s.reason) .nil

def buildIntentStatus (s : IntentStatus Str) : Go (Except WireError Message) :=
  envelope (120 + s.reason.length + 160) 120 s.fields (msgWatchPoll <<< 8)

def RouteStatus.fields (s : RouteStatus Str) : Fields :=
  .cons 0 (.scalar .w8 s.phase.toNat) <| .cons 4 (.scalar .w32 s.hopIndex.toNat) <|
    .cons 8 (.scalar .w32 s.hopCount.toNat) <| .cons 12 (.scalar .w32 s.ref.outputIndex.toNat) <|
    .cons 16 (.scalar .w64 s.hopAmountOut.toNat) <| .cons 24 (.scalar .w64 s.finalOut.toNat) <|
    .cons 32 (.fixed s.intentID.bytes) <| .cons 64 (.fixed s.ref.sourceChainID.bytes) <|
    .cons 96 (.fixed s.ref.sourceTxID.bytes) <| .cons 128 (.bytes s.reason) .nil

def buildRouteStatus (s : RouteStatus Str) : Go (Except WireError Message) :=
  envelope (136 + s.reason.length + 160) 136 s.fields (msgRouteStatus <<< 8)

/-- What is kept of the ref of a status: its intent id is that of the status. -/
def IntentStatus.bound {τ : Type} (s : IntentStatus τ) : IntentStatus τ :=
  { s with ref := { s.ref with intentID := s.intentID } }

/-- The same of a route, whose ref is kept in the final phases alone. -/
def RouteStatus.bound {τ : Type} (s : RouteStatus τ) : RouteStatus τ :=
  { s with ref := if s.phase ≠ routeCommitted ∧ s.phase ≠ routeRefunded then .zero
    else { s.ref with intentID := s.intentID } }

theorem go_map_eq_ok {α β : Type} {f : α → β} {x : Go α} {b : β} :
    f <$> x = .ok b ↔ ∃ a, x = .ok a ∧ f a = b := by
  cases x with
  | error e | ok a => simp [Functor.map, Except.map]

/-- **A status comes through**, its reason included, as long as the buffer is there. -/
theorem intentStatus_carries_iff (s : IntentStatus Str) :
    Carries (buildIntentStatus s) msgWatchPoll (fun m => IntentStatus.map TextView.text <$> readIntentStatus m)
      s.bound ↔ s.reason.length + 136 < 2 ^ 32 := by
  have hwf : (Wire.Tree.node 120 s.fields).WF := by
    simp [Wire.Tree.WF, IntentStatus.fields, Fields.WF, Fields.Clear, Field.width, Apart, Width.bytes]
  refine (envelope_carries_iff hwf trivial (by decide) (by decide) ?_ ?_).trans ?_
  · rintro - m ⟨hphase, hindex, hid, hchain, htx, hout, ⟨x, -, htext, hx⟩, -⟩
    have htext : (m.objectAt m.rootOffset).text 112 = .ok x := htext
    have hreason : TextView.text x = s.reason := hx
    simp only [readIntentStatus, Message.root, u8_of_reads hphase, u32_of_reads hindex, array_of_reads hid,
      array_of_reads hchain, array_of_reads htx, u64_of_reads hout, htext, go_bind_ok, go_pure]
    simp only [Functor.map, Except.map, IntentStatus.map, IntentStatus.bound, hreason]
  · intro m hlen h
    obtain ⟨st, hst, heq⟩ := go_map_eq_ok.mp h
    simp only [readIntentStatus, go_bind_eq_ok] at hst
    obtain ⟨_, -, _, -, _, -, _, -, _, -, _, -, x, hx, hs⟩ := hst
    cases hs
    have hreason : TextView.text x = s.reason := congrArg IntentStatus.reason heq
    show s.reason.length + 0 ≤ m.data.length
    rw [← hreason]
    exact text_le m (by decide) hlen hx
  · show 16 + 120 + (s.reason.length + 0) < 2 ^ 32 ↔ _
    omega

end Zap.Dex
