/-
# Zap.Dex.Session — the client session: `session.go`, `promise.go` and the opening of a swap.

The server is whatever answers: a session operation is a program over a few requests to its surroundings,
and a run is the list of answers it got. `call` sends a message and gets back bytes, or nothing if the call
fails; `cancelled` is a select between something and the context, such as that of `Await`; `newToken` is the
random source; `register`, `lookup` and `revoke` are the accesses to the table of grants, each under its lock;
`emit` sends an event into the channel of a stream and `send` is the sender of a managed flow. A promise
that an operation takes is given by what it resolves to, so the runs are those in which it does.

A fault is not an error: the goroutine panics and its promise is never resolved. It is kept as a way to
stop, apart from the errors of the source. So is `polling`: a stream polls without end, and is followed for
any number of rounds.
-/
import Zap.Dex.Watch

namespace Zap.Dex

open Zap.Lib Zap.Wire

/-! ## The surroundings of a session -/

abbrev Authority := UInt32

def authQuote : Authority := 1
def authIntent : Authority := 2
def authWatch : Authority := 4
def authSettlement : Authority := 8

abbrev Token := Arr 32

structure Grant where
  bits : Authority
  revoked : Bool

/-- How an operation stops short: an error of its promise, or a panic of its goroutine. -/
inductive DexError
  | noAuthority
  | revoked
  | scopeMismatch
  | scopeUnset
  | message (text : String)
  /-- `intent %x rejected: %s` and the like, as bytes. -/
  | rejected (text : Str)
  /-- The error of the sender, wrapped. -/
  | sendFailed
  | wire (e : WireError)
  | callFailed
  | contextDone
  | panicked (f : Fault)
  /-- A stream that is still polling. -/
  | polling
  deriving DecidableEq

/-- `V4MsgType`, those the streams use. -/
inductive V4MsgType
  | swapDImported | swapMatched | swapDExportReady
  | routeHopStarted | routeHopFilled | routeDExportReady | routeRefundReady
  | stateQuoteUpdate
  | error
  deriving DecidableEq

/-- The text of an event: none, `err.Error()`, or a reason. -/
inductive Reason
  | none
  | err (e : DexError)
  | text (s : Str)
  deriving DecidableEq

structure V4Event where
  type : V4MsgType
  sessionID : ID
  intentID : ID
  estAmount : UInt64 := 0
  hopIndex : UInt32 := 0
  ref : DExportRef := .zero
  reason : Reason := .none
  deriving DecidableEq

/-- What a session asks of its surroundings. -/
inductive DexReq
  | call (msg : Message)
  | cancelled
  | newToken
  | register (t : Token) (bits : Authority)
  | lookup (t : Token)
  | revoke (t : Token)
  | emit (ev : V4Event)
  | send (toAddr : Account) (calldata : List UInt8)
  deriving DecidableEq

/-- The answers: the bytes of the reply, if there is one; whether the context won; a token; done; the grant, if
there is one; done; whether the event was sent; whether the sender succeeded. -/
@[reducible]
def DexReq.Resp : DexReq → Type
  | .call _ => Option (List UInt8)
  | .cancelled => Bool
  | .newToken => Token
  | .register _ _ => Unit
  | .lookup _ => Option Grant
  | .revoke _ => Unit
  | .emit _ => Bool
  | .send _ _ => Bool

@[reducible]
def dexSig : Sig := ⟨DexReq, DexReq.Resp⟩

abbrev Op := Proc dexSig DexError

def ask (r : DexReq) : Op r.Resp := Proc.request (S := dexSig) r

/-- The value of a Go expression, or its panic. -/
def eval {α : Type} : Go α → Op α
  | .ok a => pure a
  | .error f => throw (.panicked f)

def made : Go (Except WireError Message) → Message
  | .ok (.ok m) => m
  | _ => ⟨List.replicate headerSize 0, by simp⟩

def built (x : Go (Except WireError Message)) : Op Message := do
  match ← eval x with
  | .ok m => return m
  | .error e => throw (.wire e)

/-- `conn.Call`: a reply is a message only once it has been parsed. -/
def call (msg : Message) : Op Message := do
  match ← ask (.call msg) with
  | none => throw .callFailed
  | some bytes =>
    match parse bytes with
    | .ok m => return m
    | .error e => throw (.wire e)

/-- `Promise.Await` on a promise that resolves to `p`. -/
def await {α : Type} (p : Except DexError α) : Op α := do
  if ← ask .cancelled then
    throw .contextDone
  match p with
  | .ok v => return v
  | .error e => throw e

def thenAsync {α β : Type} (p : Except DexError α) (fn : α → Op β) : Op β := do
  fn (← await p)

def promise {α : Type} (p : Op α) : Op (Except DexError α) := ExceptT.lift p.run

/-- `Await` of a promise whose goroutine `p` has just been started. The context may be done before the goroutine
has come to its call: the await gives up then, and the goroutine goes on. -/
def awaitStarted {α : Type} (p : Op α) : Op α := do
  let done ← ask .cancelled
  match ← promise p with
  | .error (.panicked f) => throw (.panicked f)
  | r => if done then throw .contextDone else await r

/-! ## Operations -/

structure Session where
  grant : Authority
  market : ID → Option PoolKeyArgs

def hex (l : List UInt8) : String :=
  String.ofList (l.flatMap fun b => [Nat.digitChar (b.toNat / 16), Nat.digitChar (b.toNat % 16)])

/-- `zeroForOneFor`: the request is not looked at. -/
def zeroForOneFor (_req : SwapIntentRequest) : Bool := true

def SwapIntentRequest.quote (req : SwapIntentRequest) : QuoteRequest :=
  ⟨req.marketID, req.amountIn, zeroForOneFor req⟩

namespace Session

variable (s : Session)

def requireGrant (need : Authority) : Op Unit := if s.grant &&& need ≠ need then throw .noAuthority else pure ()

def quote (req : QuoteRequest) : Op QuoteResult := do
  s.requireGrant authQuote
  let reqMsg ← built (buildQuoteRequest req)
  let resp ← call reqMsg
  eval (readQuoteResult resp)

/-- The quote of `prepareLocal`: any error, its own or the context's, leaves the estimate at zero. -/
def estimate (req : QuoteRequest) : Op UInt64 := do
  match ← promise (awaitStarted (s.quote req)) with
  | .ok qr => return qr.amountOut
  | .error (.panicked f) => throw (.panicked f)
  | .error _ => return 0

section Hash

variable (sha256 : List UInt8 → ID)

/-- `prepareLocal`, with what it makes of its quote. -/
def prepareLocal {S : Sig} (estimate : Proc S DexError UInt64) (req : SwapIntentRequest) :
    Proc S DexError PreparedIntent :=
  if req.amountIn = 0 then throw (.message "dexsession: prepareSwapIntent: zero amountIn")
  else match s.market req.marketID with
    | none =>
      throw (.message ("dexsession: prepareSwapIntent: unknown market " ++ hex (req.marketID.bytes.take 8)))
    | some pk => do
      let quoted ← estimate
      let intentID := deriveIntentID sha256 req.networkID req.cChainID req.dChainID req.account req.assetIn
        req.amountIn req.marketID req.nonce
      let hookData := encodeIntentHookData req.deadline req.nonce
      let calldata := encodeSwapCalldata pk (zeroForOneFor req) req.amountIn hookData
      return {
        toAddr := addr9999
        calldata := calldata
        hookData := hookData
        intentID := intentID
        quotedOut := quoted
        dChainID := req.dChainID
        cChainID := req.cChainID
        account := req.account
        recipient := req.recipient
        assetIn := req.assetIn
        amountIn := req.amountIn
        marketID := req.marketID }

def prepareSwapIntent (req : SwapIntentRequest) : Op PreparedIntent := do
  s.requireGrant authIntent
  s.prepareLocal sha256 (s.estimate req.quote) req

end Hash

def importSettlement (ref : Except DexError DExportRef) : Op SettlementSubmitResult :=
  thenAsync ref fun r => do
    s.requireGrant authSettlement
    let reqMsg ← built (buildDExportRef r)
    let resp ← call reqMsg
    eval (readSettlementResult resp)

structure CapCore where
  tok : Token
  bits : Authority

def issue (bits : Authority) : Op CapCore := do
  s.requireGrant bits
  let t ← ask .newToken
  -- the zero token is what a failed random source leaves
  if t = .zero 32 then
    throw .noAuthority
  ask (.register t bits)
  return ⟨t, bits⟩

end Session

/-! ## A swap session -/

structure V4Action where
  byte : UInt8

namespace V4Action

def swap : V4Action := ⟨0⟩
def route : V4Action := ⟨1⟩
def modifyLiquidity : V4Action := ⟨2⟩
def collect : V4Action := ⟨3⟩
def cancel : V4Action := ⟨4⟩
def state : V4Action := ⟨5⟩

end V4Action

structure V4ActionScope where
  networkID : UInt32
  cChainID : ID
  dChainID : ID
  addr : Account
  account : Account
  poolKeyHash : ID
  paramsHash : ID
  kind : V4Action
  intentID : ID

structure V4PrecompileSession where
  dex : Session
  netID : UInt32
  cChain : ID
  dChain : ID
  addr : Account

structure ScopedCap where
  core : Session.CapCore
  scope : V4ActionScope
  sessionID : ID

structure V4SwapSession where
  cap : ScopedCap
  req : SwapIntentRequest
  intentID : ID

section Scope

variable (sha256 : List UInt8 → ID)

def derivePoolKeyHash (pk : PoolKeyArgs) : ID :=
  sha256 ("lux.dex.v4.poolkey.v1".toUTF8.data.toList ++ pk.currency0.bytes ++ pk.currency1.bytes ++
    be 4 pk.fee.toNat ++ be 4 pk.tickSpacing.toUInt32.toNat ++ pk.hooks.bytes)

def deriveSwapParamsHash (zeroForOne : Bool) (amountIn : UInt64) : ID :=
  sha256 ("lux.dex.v4.swapparams.v1".toUTF8.data.toList ++ [if zeroForOne then 1 else 0] ++ be64 amountIn)

def deriveSessionID (s : V4ActionScope) : ID :=
  sha256 ("lux.dex.v4.session.v1".toUTF8.data.toList ++ be 4 s.networkID.toNat ++ s.cChainID.bytes ++
    s.dChainID.bytes ++ s.addr.bytes ++ s.account.bytes ++ s.poolKeyHash.bytes ++ s.paramsHash.bytes ++
    [s.kind.byte] ++ s.intentID.bytes)

namespace V4PrecompileSession

variable (v : V4PrecompileSession)

def scopeFor (kind : V4Action) (account : Account) (poolKeyHash paramsHash intentID : ID) :
    V4ActionScope where
  networkID := v.netID
  cChainID := v.cChain
  dChainID := v.dChain
  addr := v.addr
  account := account
  poolKeyHash := poolKeyHash
  paramsHash := paramsHash
  kind := kind
  intentID := intentID

def mint (bits : Authority) (scope : V4ActionScope) : Op ScopedCap := do
  let core ← v.dex.issue bits
  return ⟨core, scope, deriveSessionID sha256 scope⟩

def openSwap (req : SwapIntentRequest) : Op V4SwapSession :=
  match v.dex.market req.marketID with
  | none => throw (.message ("dexsession: openSwap: unknown market " ++ hex (req.marketID.bytes.take 8)))
  | some pk => do
    let zfo := zeroForOneFor req
    let poolKeyHash := derivePoolKeyHash sha256 pk
    let paramsHash := deriveSwapParamsHash sha256 zfo req.amountIn
    let intentID := deriveIntentID sha256 req.networkID req.cChainID req.dChainID req.account req.assetIn
      req.amountIn req.marketID req.nonce
    let scope := v.scopeFor .swap req.account poolKeyHash paramsHash intentID
    let cap ← v.mint sha256 (authIntent ||| authWatch ||| authSettlement) scope
    return ⟨cap, req, intentID⟩

end V4PrecompileSession

end Scope

/-! ## Runs -/

section Runs

open Proc

variable {tr : List (Ev dexSig)} {r : DexReq} {α : Type} {a : α} {x : Go (Except WireError Message)}
  {m msg : Message} {p : Except DexError α} {s : Session} {need : Authority}

theorem yields_ask {x : r.Resp} : Yields (ask r) tr x ↔ tr = [⟨r, x⟩] := yields_request

theorem yields_eval {x : Go α} : Yields (eval x) tr a ↔ tr = [] ∧ x = .ok a := by
  cases x with
  | ok b => rw [eval, yields_pure, Except.ok.injEq]
  | error f => exact iff_of_false yields_throw nofun

theorem yields_built : Yields (built x) tr m ↔ tr = [] ∧ x = .ok (.ok m) := by
  constructor
  · intro h
    obtain ⟨tr1, tr2, y, rfl, hx, hy⟩ := yields_bind.mp h
    obtain ⟨rfl, rfl⟩ := yields_eval.mp hx
    cases y with
    | ok m' =>
      obtain ⟨rfl, rfl⟩ := yields_pure.mp hy
      exact ⟨rfl, rfl⟩
    | error e => exact absurd hy yields_throw
  · rintro ⟨rfl, rfl⟩
    exact yields_bind.mpr ⟨[], [], .ok m, rfl, yields_eval.mpr ⟨rfl, rfl⟩, yields_pure.mpr ⟨rfl, rfl⟩⟩

theorem yields_call : Yields (call msg) tr m ↔ ∃ bytes, tr = [⟨DexReq.call msg, some bytes⟩] ∧ parse bytes = .ok m := by
  constructor
  · intro h
    obtain ⟨tr1, tr2, x, rfl, hx, hy⟩ := yields_bind.mp h
    obtain rfl := yields_ask.mp hx
    cases x with
    | none => exact absurd hy yields_throw
    | some bytes =>
      cases hp : parse bytes with
      | error e =>
        simp only [hp] at hy
        exact absurd hy yields_throw
      | ok m' =>
        simp only [hp] at hy
        obtain ⟨rfl, rfl⟩ := yields_pure.mp hy
        exact ⟨bytes, rfl, hp⟩
  · rintro ⟨bytes, rfl, hp⟩
    refine yields_bind.mpr ⟨_, [], some bytes, rfl, yields_ask.mpr rfl, ?_⟩
    simp only [hp]
    exact yields_pure.mpr ⟨rfl, rfl⟩

theorem yields_await : Yields (await p) tr a ↔ tr = [⟨DexReq.cancelled, false⟩] ∧ p = .ok a := by
  constructor
  · intro h
    obtain ⟨tr1, tr2, x, rfl, hx, hy⟩ := yields_bind.mp h
    obtain rfl := yields_ask.mp hx
    cases x with
    | true => exact absurd hy yields_throw
    | false =>
      cases p with
      | error e => exact absurd hy yields_throw
      | ok v =>
        obtain ⟨rfl, rfl⟩ := yields_pure.mp hy
        exact ⟨rfl, rfl⟩
  · rintro ⟨rfl, rfl⟩
    exact yields_bind.mpr ⟨_, [], false, rfl, yields_ask.mpr rfl, yields_pure.mpr ⟨rfl, rfl⟩⟩

theorem Session.yields_requireGrant {u : Unit} :
    Yields (s.requireGrant need) tr u ↔ tr = [] ∧ s.grant &&& need = need := by
  unfold Session.requireGrant
  rw [yields_refuse, yields_pure, not_not, and_iff_left rfl, and_comm]

section Ensures

open Prog (Ensures)

variable {ok : Ev dexSig → Prop}

theorem ensures_ask {Q : Except DexError r.Resp → Prop} :
    Ensures ok Q (ask r).run ↔ ∀ x, ok ⟨r, x⟩ → Q (.ok x) := Iff.rfl

variable {Q : Except DexError Message → Prop}

theorem ensures_built :
    Ensures ok Q (built x).run ↔
      Q (match x with
        | .ok (.ok m) => .ok m
        | .ok (.error e) => .error (.wire e)
        | .error f => .error (.panicked f)) := by
  rcases x with f | e | m <;> exact Iff.rfl

def callResult : Option (List UInt8) → Except DexError Message
  | none => .error .callFailed
  | some bytes => (parse bytes).mapError .wire

theorem ensures_call : Ensures ok Q (call msg).run ↔ ∀ x, ok ⟨DexReq.call msg, x⟩ → Q (callResult x) := by
  refine ensures_bind.trans (ensures_ask.trans (forall_congr' fun x => imp_congr_right fun _ => ?_))
  cases x with
  | none => exact Iff.rfl
  | some bytes =>
    simp only [callResult]
    cases parse bytes <;> exact Iff.rfl

theorem ensures_await {Q : Except DexError α → Prop} :
    Ensures ok Q (await p).run ↔
      (ok ⟨DexReq.cancelled, true⟩ → Q (.error .contextDone)) ∧ (ok ⟨DexReq.cancelled, false⟩ → Q p) := by
  refine ensures_bind.trans ?_
  constructor
  · intro h
    refine ⟨fun hx => h true hx, fun hx => ?_⟩
    cases p with
    | error e | ok a => exact h false hx
  · rintro ⟨htrue, hfalse⟩ (_ | _) hx
    · cases p with
      | error e | ok a => exact hfalse hx
    · exact htrue hx

theorem Session.ensures_requireGrant {Q : Except DexError Unit → Prop} :
    Ensures ok Q (s.requireGrant need).run ↔
      Q (if s.grant &&& need = need then .ok () else .error .noAuthority) := by
  unfold Session.requireGrant
  by_cases h : s.grant &&& need = need
  · rw [if_neg (not_not.mpr h), if_pos h]
    exact Iff.rfl
  · rw [if_pos h, if_neg h]
    exact Iff.rfl

end Ensures

/-- **A settlement that resolves**: the grant was there, one call was made with the ref's message, and the
result is what the reply reads as. -/
theorem Session.yields_importSettlement {ref : DExportRef} {res : SettlementSubmitResult} :
    Yields (s.importSettlement (.ok ref)) tr res ↔
      s.grant &&& authSettlement = authSettlement ∧
      ∃ req bytes m, buildDExportRef ref = .ok (.ok req) ∧
        tr = [⟨DexReq.cancelled, false⟩, ⟨DexReq.call req, some bytes⟩] ∧ parse bytes = .ok m ∧
        readSettlementResult m = .ok res := by
  unfold Session.importSettlement thenAsync
  simp only [yields_bind, yields_await, yields_requireGrant, yields_built, yields_call, yields_eval, Except.ok.injEq,
    existsAndEq, exists_const, true_and, and_true, List.nil_append, List.append_nil]
  constructor
  · rintro ⟨req, m, bytes, htr, hgrant, hreq, hp, hread⟩
    exact ⟨hgrant, req, bytes, m, hreq, htr, hp, hread⟩
  · rintro ⟨hgrant, req, bytes, m, hreq, htr, hp, hread⟩
    exact ⟨req, m, bytes, htr, hgrant, hreq, hp, hread⟩

end Runs

end Zap.Dex
