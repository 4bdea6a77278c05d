/-
# Zap.Dex.V4 — the V4 sessions: `v4scope.go`, `v4session.go`, `v4route.go` and the watches.

A V4 session is opened for one action and holds a capability bound to it. Its methods check the capability,
mostly at the start, and then go on as operations of the session underneath, which know the session's grant
alone. Where the source spawns a goroutine that awaits another's promise, the operation here goes on with what
the promise resolved to, after the select of the await.

The loops of the source poll without end. They are followed for a number of rounds, after which they are
`polling`; a statement for all numbers of rounds is one about every finite part of the loop.
-/
import Zap.Dex.Session

namespace Zap.Dex

open Zap.Lib Zap.Wire

/-! ## Capabilities -/

namespace Session

variable (s : Session)

def checkGrant (t : Token) (need : Authority) : Op Unit := do
  match ← ask (.lookup t) with
  | none => throw .noAuthority
  | some g =>
    if g.revoked then throw .revoked
    else if g.bits &&& need ≠ need then throw .noAuthority
    else return ()

def CapCore.authorize (c : CapCore) (need : Authority) : Op Unit :=
  if c.bits &&& need ≠ need then throw .noAuthority
  else checkGrant c.tok need

end Session

section Scoped

variable (sha256 : List UInt8 → ID)

def ScopedCap.authorizeScoped (c : ScopedCap) (need : Authority) (want : V4ActionScope) : Op Unit :=
  if c.sessionID = .zero 32 then throw .scopeUnset
  else do
    c.core.authorize need
    if deriveSessionID sha256 want ≠ c.sessionID then
      throw .scopeMismatch

def ScopedCap.authorizeSelf (c : ScopedCap) (need : Authority) : Op Unit := c.authorizeScoped sha256 need c.scope

end Scoped

/-! ## Watches -/

structure IntentWatch where
  intentID : ID
  deriving DecidableEq

/-- The loop of `streamUntilCommitted` and `streamUntilFinal`: poll until a status decides. -/
def pollUntil {α : Type} (poll : Op α) (next : α → Option (Except DexError DExportRef)) : Nat → Op DExportRef
  | 0 => throw .polling
  | n + 1 => do
    if ← ask .cancelled then
      throw .contextDone
    let st ← poll
    match next st with
    | some (.ok ref) => return ref
    | some (.error e) => throw e
    | none =>
      if ← ask .cancelled then
        throw .contextDone
      pollUntil poll next n

/-- `if reason == "" { reason = … }` -/
def orElse (reason : Str) (default : String) : Str := if reason = [] then str default else reason

def committedNext (watched : ID) (st : IntentStatus Str) : Option (Except DexError DExportRef) :=
  if st.phase = phaseCommitted then some (.ok { st.ref with intentID := watched })
  else if st.phase = phaseRejected then
    some (.error (.rejected (str "dexsession: intent " ++ str (hex (watched.bytes.take 8)) ++
      str " rejected: " ++ orElse st.reason "intent rejected by D")))
  else none

namespace Session

variable (s : Session)

def getState (req : StateRequest) : Op StateResult := do
  s.requireGrant authQuote
  let reqMsg ← built (buildStateRequest req)
  let resp ← call reqMsg
  eval (readStateResult resp)

def notify (pi : PreparedIntent) : Op IntentWatch := do
  s.requireGrant authIntent
  let notifyMsg ← built (buildPreparedIntent pi msgNotify)
  let resp ← call notifyMsg
  let ref ← eval (readIntentID resp)
  return ⟨ref⟩

def notifyIntent (intent : Except DexError PreparedIntent) : Op IntentWatch := thenAsync intent s.notify

def poll (w : IntentWatch) : Op (IntentStatus TextView) := do
  s.requireGrant authWatch
  let reqMsg ← built (buildWatchPollRequest w.intentID)
  let resp ← call reqMsg
  eval (readIntentStatus resp)

def streamUntilCommitted (w : IntentWatch) (rounds : Nat) : Op DExportRef :=
  pollUntil (s.poll w) (fun st => committedNext w.intentID (st.map TextView.text)) rounds

def onCommitted (w : IntentWatch) (rounds : Nat) : Op DExportRef := do
  s.requireGrant authWatch
  s.streamUntilCommitted w rounds

def settle (r : DExportRef) : Op SettlementSubmitResult := do
  s.requireGrant authSettlement
  let reqMsg ← built (buildDExportRef r)
  let resp ← call reqMsg
  eval (readSettlementResult resp)

end Session

/-! ## Opening sessions -/

structure LiquidityRequest where
  networkID : UInt32
  cChainID : ID
  dChainID : ID
  account : Account
  marketID : ID
  tickLower : Int32
  tickUpper : Int32
  liquidityDelta : Int64
  salt : ID
  assetIn : ID
  amountIn : UInt64
  callIndex : UInt32

/-- `CollectRequest`; its `IsCancel` is not read. -/
structure CollectRequest where
  networkID : UInt32
  cChainID : ID
  dChainID : ID
  account : Account
  marketID : ID
  tickLower : Int32
  tickUpper : Int32
  liquidityDelta : Int64
  salt : ID
  assetOut : ID
  callIndex : UInt32

structure V4RouteSession where
  cap : ScopedCap
  req : RouteRequest
  intentID : ID
  entry : ID

structure V4LiquiditySession where
  cap : ScopedCap
  req : LiquidityRequest
  pk : PoolKeyArgs
  intentID : ID

structure V4CollectSession where
  cap : ScopedCap
  req : CollectRequest
  pk : PoolKeyArgs
  intentID : ID
  kind : V4Action

structure V4StateSession where
  cap : ScopedCap
  marketID : ID

structure V4Config where
  networkID : UInt32
  cChainID : ID
  dChainID : ID
  addr9999 : Account

def newV4PrecompileSession (dex : Session) (cfg : V4Config) : V4PrecompileSession where
  dex := dex
  netID := cfg.networkID
  cChain := cfg.cChainID
  dChain := cfg.dChainID
  addr := if cfg.addr9999 = .zero 20 then addr9999 else cfg.addr9999

section Open

variable (sha256 : List UInt8 → ID)

def deriveLiquidityParamsHash (tickLower tickUpper : Int32) (liquidityDelta : Int64) (salt : ID) : ID :=
  sha256 (str "lux.dex.v4.lpparams.v1" ++ be 4 tickLower.toUInt32.toNat ++ be 4 tickUpper.toUInt32.toNat ++
    be64 liquidityDelta.toUInt64 ++ salt.bytes)

def deriveRoutePathHash (path : List ID) : ID :=
  sha256 (str "lux.dex.v4.routepath.v1" ++ be 4 (UInt32.ofNat path.length).toNat ++ path.flatMap Arr.bytes)

namespace V4PrecompileSession

variable (v : V4PrecompileSession)

def openRoute (req : RouteRequest) : Op V4RouteSession :=
  match req.path with
  | [] => throw (.message "dexsession: openRoute: empty path")
  | first :: _ =>
    match v.dex.market first with
    | none => throw (.message ("dexsession: openRoute: unknown entry market " ++ hex (first.bytes.take 8)))
    | some _ => do
      let pathHash := deriveRoutePathHash sha256 req.path
      let paramsHash := deriveSwapParamsHash sha256 true req.amountIn
      let intentID := deriveIntentID sha256 req.networkID req.cChainID req.dChainID req.account req.assetIn
        req.amountIn first req.callIndex.toUInt64
      let scope := v.scopeFor .route req.account pathHash paramsHash intentID
      let cap ← v.mint sha256 (authIntent ||| authWatch ||| authSettlement) scope
      return ⟨cap, req, intentID, first⟩

def openModifyLiquidity (req : LiquidityRequest) : Op V4LiquiditySession :=
  if req.liquidityDelta ≤ 0 then
    throw (.message ("dexsession: openModifyLiquidity: commit requires positive liquidityDelta " ++
      "(use openCollect/openCancel to remove)"))
  else match v.dex.market req.marketID with
    | none =>
      throw (.message ("dexsession: openModifyLiquidity: unknown market " ++ hex (req.marketID.bytes.take 8)))
    | some pk => do
      let poolKeyHash := derivePoolKeyHash sha256 pk
      let paramsHash := deriveLiquidityParamsHash sha256 req.tickLower req.tickUpper req.liquidityDelta req.salt
      let intentID := deriveIntentID sha256 req.networkID req.cChainID req.dChainID req.account req.assetIn
        req.amountIn req.marketID req.callIndex.toUInt64
      let scope := v.scopeFor .modifyLiquidity req.account poolKeyHash paramsHash intentID
      let cap ← v.mint sha256 (authIntent ||| authWatch) scope
      return ⟨cap, req, pk, intentID⟩

def openRemoval (req : CollectRequest) (kind : V4Action) : Op V4CollectSession :=
  if 0 ≤ req.liquidityDelta then
    throw (.message "dexsession: openCollect/openCancel: removal requires negative liquidityDelta")
  else match v.dex.market req.marketID with
    | none => throw (.message ("dexsession: openCollect: unknown market " ++ hex (req.marketID.bytes.take 8)))
    | some pk => do
      let poolKeyHash := derivePoolKeyHash sha256 pk
      let paramsHash := deriveLiquidityParamsHash sha256 req.tickLower req.tickUpper req.liquidityDelta req.salt
      let intentID := deriveIntentID sha256 req.networkID req.cChainID req.dChainID req.account req.assetOut
        0 req.marketID req.callIndex.toUInt64
      let scope := v.scopeFor kind req.account poolKeyHash paramsHash intentID
      let cap ← v.mint sha256 (authIntent ||| authWatch ||| authSettlement) scope
      return ⟨cap, req, pk, intentID, kind⟩

def openCollect (req : CollectRequest) : Op V4CollectSession := v.openRemoval sha256 req .collect

def openCancel (req : CollectRequest) : Op V4CollectSession := v.openRemoval sha256 req .cancel

def openState (account : Account) (marketID : ID) : Op V4StateSession :=
  match v.dex.market marketID with
  | none => throw (.message ("dexsession: openState: unknown market " ++ hex (marketID.bytes.take 8)))
  | some pk => do
    let scope := v.scopeFor .state account (derivePoolKeyHash sha256 pk) (.zero 32) (.zero 32)
    let cap ← v.mint sha256 authQuote scope
    return ⟨cap, marketID⟩

end V4PrecompileSession

/-! ## Methods of a session -/

/-- The guard of the notify methods: the intent of another session is refused. -/
def guardIntent (intentID : ID) (pi : PreparedIntent) : Op PreparedIntent :=
  if pi.intentID ≠ intentID then throw .scopeMismatch else pure pi

def guardRef (intentID : ID) (r : DExportRef) : Op DExportRef :=
  if r.intentID ≠ intentID then throw .scopeMismatch else pure r

variable (dex : Session)

/-- `WriteNotifyCToDExport` of a swap and of a liquidity session, and `WriteNotify` of a collect session. -/
def writeNotify (cap : ScopedCap) (intentID : ID) (intent : Except DexError PreparedIntent) : Op IntentWatch := do
  cap.authorizeSelf sha256 authIntent
  let guarded ← promise (thenAsync intent (guardIntent intentID))
  dex.notifyIntent guarded

def writePrepareCSettlement (cap : ScopedCap) (intentID : ID) (ref : Except DexError DExportRef) :
    Op SettlementSubmitResult := do
  cap.authorizeSelf sha256 authSettlement
  let guarded ← promise (thenAsync ref (guardRef intentID))
  dex.importSettlement guarded

def onExportReady (cap : ScopedCap) (w : IntentWatch) (rounds : Nat) : Op DExportRef := do
  cap.authorizeSelf sha256 authWatch
  dex.onCommitted w rounds

/-- The loop of the streams. `read` is `none` when the context has ended; `next` has the events of what was
read, and nothing to go on with if the stream ends there. -/
def stream {α β : Type} (read : Op (Option α)) (onError : DexError → V4Event)
    (next : β → α → List V4Event × Option β) : Nat → β → Op Unit
  | 0, _ => throw .polling
  | n + 1, b => do
    match ← promise read with
    | .error (.panicked f) => throw (.panicked f)
    | .error e =>
      let _ ← ask (.emit (onError e))
      return ()
    | .ok none => return ()
    | .ok (some a) =>
      let (events, b') := next b a
      if ← emitAll events then
        match b' with
        | none => return ()
        | some b' =>
          if ← ask .cancelled then
            return ()
          stream read onError next n b'
where
  /-- `emit` one after the other, until the context ends. -/
  emitAll : List V4Event → Op Bool
    | [] => return true
    | ev :: evs => do
      if ← ask (.emit ev) then emitAll evs else return false

/-- A stream whose capability is refused reports that and ends. -/
def orReport (check : Op Unit) (onError : DexError → V4Event) (body : Op Unit) : Op Unit := do
  match ← promise check with
  | .ok _ => body
  | .error e =>
    let _ ← ask (.emit (onError e))
    return ()

def unlessDone {α : Type} (poll : Op α) : Op (Option α) := do
  if ← ask .cancelled then
    return none
  return some (← poll)

namespace V4SwapSession

variable (s : V4SwapSession)

def writePrepareIntent : Op PreparedIntent := do
  s.cap.authorizeSelf sha256 authIntent
  dex.prepareSwapIntent sha256 s.req

/-- What `streamEvents` makes of a status; the flag is `emittedImported`. -/
def events (imported : Bool) (st : IntentStatus Str) : List V4Event × Option Bool :=
  let ev : V4Event := ⟨.error, s.cap.sessionID, s.intentID, 0, 0, .zero, .none⟩
  if st.phase = phaseMatching then
    ((if imported then [] else [{ ev with type := .swapDImported }]) ++
      [{ ev with type := .swapMatched, estAmount := st.matchedOut }], some true)
  else if st.phase = phaseCommitted then
    ([{ ev with
      type := .swapDExportReady
      estAmount := st.matchedOut
      ref := { st.ref with intentID := s.intentID } }], none)
  else if st.phase = phaseRejected then
    ([{ ev with reason := .text (orElse st.reason "intent rejected by D") }], none)
  else ([], some imported)

def errorEvent (e : DexError) : V4Event := ⟨.error, s.cap.sessionID, s.intentID, 0, 0, .zero, .err e⟩

def streamEvents (w : IntentWatch) (rounds : Nat) : Op Unit :=
  stream (unlessDone (dex.poll w)) s.errorEvent
    (fun imported st => s.events imported (st.map TextView.text)) rounds false

def readStream (w : IntentWatch) (rounds : Nat) : Op Unit :=
  orReport (s.cap.authorizeSelf sha256 authWatch) s.errorEvent (s.streamEvents dex w rounds)

end V4SwapSession

structure RouteWatch where
  session : V4RouteSession
  intentID : ID

namespace RouteWatch

variable (w : RouteWatch)

/-- `RouteWatch.Poll`: the capability of the watch's session is checked each time. -/
def poll : Op (RouteStatus TextView) := do
  w.session.cap.authorizeSelf sha256 authWatch
  let reqMsg ← built (buildRouteWatchPoll w.intentID)
  let resp ← call reqMsg
  eval (readRouteStatus resp)

def finalNext (st : RouteStatus Str) : Option (Except DexError DExportRef) :=
  if st.phase = routeCommitted ∨ st.phase = routeRefunded then some (.ok { st.ref with intentID := w.intentID })
  else if st.phase = routeRejected then
    some (.error (.rejected (str "dexsession: route " ++ str (hex (w.intentID.bytes.take 8)) ++
      str " rejected: " ++ orElse st.reason "route rejected by D")))
  else none

def streamUntilFinal (rounds : Nat) : Op DExportRef :=
  pollUntil (w.poll sha256) (fun st => w.finalNext (st.map TextView.text)) rounds

end RouteWatch

namespace V4RouteSession

variable (s : V4RouteSession)

def prepareRouteLocal : Op PreparedIntent :=
  if s.req.amountIn = 0 then throw (.message "dexsession: openRoute: zero amountIn")
  else if s.req.path = [] then throw (.message "dexsession: openRoute: empty path")
  else match dex.market s.entry with
    | none => throw (.message ("dexsession: openRoute: unknown entry market " ++ hex (s.entry.bytes.take 8)))
    | some pk =>
      let hookData := encodeIntentHookData s.req.deadline s.req.callIndex.toUInt64
      return {
        toAddr := addr9999
        calldata := encodeSwapCalldata pk true s.req.amountIn hookData
        hookData := hookData
        intentID := s.intentID
        quotedOut := 0
        dChainID := s.req.dChainID
        cChainID := s.req.cChainID
        account := s.req.account
        recipient := s.req.recipient
        assetIn := s.req.assetIn
        amountIn := s.req.amountIn
        marketID := s.entry }

def writePrepareIntent : Op PreparedIntent := do
  s.cap.authorizeSelf sha256 authIntent
  s.prepareRouteLocal dex

/-- The stage of `WriteNotifyCToDExport`: the route travels in the call. -/
def notifyRoute (pi : PreparedIntent) : Op RouteWatch := do
  let _ ← guardIntent s.intentID pi
  let reqMsg ← built (buildRouteRequest s.req)
  let _ ← call reqMsg
  return ⟨s, s.intentID⟩

def writeNotifyCToDExport (intent : Except DexError PreparedIntent) : Op RouteWatch := do
  s.cap.authorizeSelf sha256 authIntent
  thenAsync intent s.notifyRoute

def onFinalExport (w : RouteWatch) (rounds : Nat) : Op DExportRef := do
  s.cap.authorizeSelf sha256 authWatch
  w.streamUntilFinal sha256 rounds

/-- What `streamRoute` makes of a status; the state is `lastHop`, `none` before the first. -/
def events (lastHop : Option UInt32) (st : RouteStatus Str) : List V4Event × Option (Option UInt32) :=
  let ev : V4Event := ⟨.error, s.cap.sessionID, s.intentID, 0, 0, .zero, .none⟩
  let ref := { st.ref with intentID := s.intentID }
  if st.phase = routeHopping then
    let later := match lastHop with
      | none => true
      | some h => h < st.hopIndex
    ((if later then [{ ev with type := .routeHopStarted, hopIndex := st.hopIndex }] else []) ++
      [{ ev with type := .routeHopFilled, hopIndex := st.hopIndex, estAmount := st.hopAmountOut }],
      some (if later then some st.hopIndex else lastHop))
  else if st.phase = routeCommitted then
    ([{ ev with type := .routeDExportReady, estAmount := st.finalOut, ref := ref }], none)
  else if st.phase = routeRefunded then
    ([{ ev with
      type := .routeRefundReady
      estAmount := st.finalOut
      ref := ref
      reason := .text st.reason }], none)
  else if st.phase = routeRejected then
    ([{ ev with reason := .text (orElse st.reason "route rejected by D") }], none)
  else ([], some lastHop)

def errorEvent (e : DexError) : V4Event := ⟨.error, s.cap.sessionID, s.intentID, 0, 0, .zero, .err e⟩

def streamRoute (w : RouteWatch) (rounds : Nat) : Op Unit :=
  stream (unlessDone (w.poll sha256)) s.errorEvent
    (fun lastHop st => s.events lastHop (st.map TextView.text)) rounds none

def readStream (w : RouteWatch) (rounds : Nat) : Op Unit :=
  orReport (s.cap.authorizeSelf sha256 authWatch) s.errorEvent (s.streamRoute sha256 w rounds)

end V4RouteSession

def V4LiquiditySession.writePrepareCommit (s : V4LiquiditySession) : Op PreparedIntent := do
  s.cap.authorizeSelf sha256 authIntent
  let args : ModifyLiquidityArgs := ⟨s.req.tickLower, s.req.tickUpper, s.req.liquidityDelta, s.req.salt⟩
  let hookData := encodeIntentHookData 0 s.req.callIndex.toUInt64
  return {
    toAddr := addr9999
    calldata := encodeModifyLiquidityCalldata s.pk args hookData
    hookData := hookData
    intentID := s.intentID
    quotedOut := 0
    dChainID := s.req.dChainID
    cChainID := s.req.cChainID
    account := s.req.account
    recipient := .zero 20
    assetIn := s.req.assetIn
    amountIn := s.req.amountIn
    marketID := s.req.marketID }

def V4CollectSession.writeRequest (s : V4CollectSession) : Op PreparedIntent := do
  s.cap.authorizeSelf sha256 authIntent
  let args : ModifyLiquidityArgs := ⟨s.req.tickLower, s.req.tickUpper, s.req.liquidityDelta, s.req.salt⟩
  let hookData := encodeIntentHookData 0 s.req.callIndex.toUInt64
  return {
    toAddr := addr9999
    calldata := encodeModifyLiquidityCalldata s.pk args hookData
    hookData := hookData
    intentID := s.intentID
    quotedOut := 0
    dChainID := s.req.dChainID
    cChainID := s.req.cChainID
    account := s.req.account
    recipient := .zero 20
    assetIn := s.req.assetOut
    amountIn := 0
    marketID := s.req.marketID }

namespace V4StateSession

variable (s : V4StateSession)

def readQuote (amountIn : UInt64) (zeroForOne : Bool) : Op QuoteResult := do
  s.cap.authorizeSelf sha256 authQuote
  dex.quote ⟨s.marketID, amountIn, zeroForOne⟩

def readState (kind : StateKind) (account : Account) (asset : ID) : Op StateResult := do
  s.cap.authorizeSelf sha256 authQuote
  dex.getState ⟨kind, s.marketID, account, asset, .zero 32⟩

def errorEvent (e : DexError) : V4Event := ⟨.error, s.cap.sessionID, .zero 32, 0, 0, .zero, .err e⟩

/-- `Quote(…).Await(ctx)`. If the context is done before the quote has been called for, the stream reports that
and ends, and the call comes after. -/
def awaitQuote (q : QuoteRequest) : Op (Option QuoteResult) := do
  if ← ask .cancelled then
    let _ ← ask (.emit (s.errorEvent .contextDone))
    let _ ← promise (dex.quote q)
    return none
  let quoted ← promise (dex.quote q)
  return some (← await quoted)

/-- `StreamQuotes`: nothing but the quote and its await stands at the top of the loop. -/
def streamQuotes (amountIn : UInt64) (zeroForOne : Bool) (rounds : Nat) : Op Unit :=
  orReport (s.cap.authorizeSelf sha256 authQuote) s.errorEvent
    (stream (s.awaitQuote dex ⟨s.marketID, amountIn, zeroForOne⟩) s.errorEvent
      (fun (_ : Unit) qr =>
        ([⟨.stateQuoteUpdate, s.cap.sessionID, .zero 32, qr.amountOut, 0, .zero, .none⟩], some ()))
      rounds ())

end V4StateSession

end Open

/-! ## Requests that are not made -/

variable {rounds : Nat} {s : Session} {w : IntentWatch} {st : IntentStatus Str} {ev : V4Event}

section Loops

open Proc

variable {α β : Type} {tr : List (Ev dexSig)} {poll p : Op α} {next : α → Option (Except DexError DExportRef)}
  {x : Go (Except WireError Message)} {f : Message → Op α} {onError : DexError → V4Event}

theorem yields_pollUntil {ref : DExportRef} (h : Yields (pollUntil poll next rounds) tr ref) :
    ∃ tr1 tr2 st, tr = tr1 ++ tr2 ∧ Yields poll tr2 st ∧ next st = some (.ok ref) := by
  induction rounds generalizing tr with
  | zero => exact absurd h yields_throw
  | succ n ih =>
    obtain ⟨tr1, tr2, done, rfl, hdone, h1⟩ := yields_bind.mp h
    cases done with
    | true =>
      obtain ⟨_, _, _, _, hthrow, _⟩ := yields_bind.mp h1
      exact absurd hthrow yields_throw
    | false =>
      obtain ⟨tr3, tr4, st, rfl, hpoll, h2⟩ := yields_bind.mp h1
      cases hnext : next st with
      | some r =>
        simp only [hnext] at h2
        cases r with
        | error e => exact absurd h2 yields_throw
        | ok ref' =>
          obtain ⟨rfl, rfl⟩ := yields_pure.mp h2
          exact ⟨tr1, tr3, st, by rw [List.append_nil], hpoll, hnext⟩
      | none =>
        simp only [hnext] at h2
        obtain ⟨tr5, tr6, done, rfl, hdone', h3⟩ := yields_bind.mp h2
        cases done with
        | true =>
          obtain ⟨_, _, _, _, hthrow, _⟩ := yields_bind.mp h3
          exact absurd hthrow yields_throw
        | false =>
          obtain ⟨tr7, tr8, st', rfl, hpoll', hnext'⟩ := ih h3
          exact ⟨tr1 ++ (tr3 ++ (tr5 ++ tr7)), tr8, st', by simp, hpoll', hnext'⟩

theorem yields_exchange {a : α} :
    Yields (do
      let reqMsg ← built x
      let resp ← call reqMsg
      f resp) tr a ↔
      ∃ msg bytes m tr', x = .ok (.ok msg) ∧ tr = ⟨DexReq.call msg, some bytes⟩ :: tr' ∧ parse bytes = .ok m ∧
        Yields (f m) tr' a := by
  simp only [yields_bind, yields_built, yields_call, existsAndEq, true_and, List.nil_append, List.singleton_append]
  constructor
  · rintro ⟨msg, tr', m, bytes, htr, hx, hp, hf⟩
    exact ⟨msg, bytes, m, tr', hx, htr, hp, hf⟩
  · rintro ⟨msg, bytes, m, tr', hx, htr, hp, hf⟩
    exact ⟨msg, tr', m, bytes, htr, hx, hp, hf⟩

theorem Session.yields_notify {pi : PreparedIntent} :
    Yields (s.notify pi) tr w ↔
      s.grant &&& authIntent = authIntent ∧
      ∃ msg bytes m, buildPreparedIntent pi msgNotify = .ok (.ok msg) ∧ tr = [⟨DexReq.call msg, some bytes⟩] ∧
        parse bytes = .ok m ∧ readIntentID m = .ok w.intentID := by
  unfold Session.notify
  simp only [yields_bind, Session.yields_requireGrant, yields_built, yields_call, yields_eval, yields_pure,
    existsAndEq, exists_const, true_and, List.nil_append, List.append_nil]
  constructor
  · rintro ⟨msg, m, ref, bytes, htr, hgrant, hx, hp, href, rfl⟩
    exact ⟨hgrant, msg, bytes, m, hx, htr, hp, href⟩
  · rintro ⟨hgrant, msg, bytes, m, hx, htr, hp, href⟩
    exact ⟨msg, m, _, bytes, htr, hgrant, hx, hp, href, rfl⟩

theorem Session.yields_poll {st : IntentStatus TextView} :
    Yields (s.poll w) tr st ↔
      s.grant &&& authWatch = authWatch ∧
      ∃ msg bytes m, buildWatchPollRequest w.intentID = .ok (.ok msg) ∧ tr = [⟨DexReq.call msg, some bytes⟩] ∧
        parse bytes = .ok m ∧ readIntentStatus m = .ok st := by
  unfold Session.poll
  simp only [yields_bind, Session.yields_requireGrant, yields_built, yields_call, yields_eval, existsAndEq,
    exists_const, true_and, List.nil_append, List.append_nil]
  constructor
  · rintro ⟨msg, m, bytes, htr, hgrant, hx, hp, hread⟩
    exact ⟨hgrant, msg, bytes, m, hx, htr, hp, hread⟩
  · rintro ⟨hgrant, msg, bytes, m, hx, htr, hp, hread⟩
    exact ⟨msg, m, bytes, htr, hgrant, hx, hp, hread⟩

variable {ok : Ev dexSig → Prop} {bad : DexReq → Prop}

theorem spares_ask {r : DexReq} (h : ¬bad r) : Spares (S := dexSig) ok bad (ask r) := spares_request h

theorem spares_eval (x : Go α) : Spares (S := dexSig) ok bad (eval x) := by
  cases x with
  | ok a => exact spares_pure
  | error f => exact spares_throw

theorem spares_built (x : Go (Except WireError Message)) : Spares (S := dexSig) ok bad (built x) := by
  rcases x with f | e | m
  · exact spares_throw_bind
  · exact spares_throw
  · exact spares_pure

theorem spares_call {msg : Message} (h : ¬bad (.call msg)) : Spares ok bad (call msg) := by
  refine (spares_ask h).bind fun answer => ?_
  cases answer with
  | none => exact spares_throw
  | some bytes =>
    simp only
    cases parse bytes with
    | ok m => exact spares_pure
    | error e => exact spares_throw

theorem spares_await {p : Except DexError α} (h : ¬bad .cancelled) : Spares ok bad (await p) := by
  refine (spares_ask h).bind fun done => ?_
  cases done with
  | true => exact spares_throw_bind
  | false =>
    cases p with
    | ok a => exact spares_pure
    | error e => exact spares_throw

variable {need : Authority}

theorem spares_requireGrant : Spares ok bad (s.requireGrant need) := by
  unfold Session.requireGrant
  split_ifs
  · exact spares_throw
  · exact spares_pure

theorem spares_authorize {c : Session.CapCore} (h : ¬bad (.lookup c.tok)) :
    Spares ok bad (c.authorize need) := by
  unfold Session.CapCore.authorize
  split_ifs
  · exact spares_throw
  refine (spares_ask h).bind fun x => ?_
  cases x with
  | none => exact spares_throw
  | some g =>
    simp only
    split_ifs
    · exact spares_throw
    · exact spares_throw
    · exact spares_pure

theorem spares_authorizeSelf {sha256 : List UInt8 → ID} {c : ScopedCap}
    (h : ¬bad (.lookup c.core.tok)) : Spares ok bad (c.authorizeSelf sha256 need) := by
  unfold ScopedCap.authorizeSelf ScopedCap.authorizeScoped
  split_ifs
  · exact spares_throw
  · exact (spares_authorize h).bind fun _ => spares_throw
  · exact (spares_authorize h).bind fun _ => spares_pure

theorem spares_promise (hp : Spares ok bad p) : Spares ok bad (promise p) := spares_lift hp

theorem spares_awaitStarted (hcancelled : ¬bad .cancelled) (hp : Spares ok bad p) : Spares ok bad (awaitStarted p) := by
  refine (spares_ask hcancelled).bind fun done => (spares_promise hp).bind fun r => ?_
  split
  · exact spares_throw
  · split_ifs
    · exact spares_throw
    · exact spares_await hcancelled

theorem spares_estimate {q : QuoteRequest} (hcancelled : ¬bad .cancelled) (hquote : Spares ok bad (s.quote q)) :
    Spares ok bad (s.estimate q) := by
  refine (spares_promise (spares_awaitStarted hcancelled hquote)).bind fun r => ?_
  rcases r with e | qr
  · cases e with
    | panicked f => exact spares_throw
    | _ => exact spares_pure
  · exact spares_pure

/-- A property of operations that sequences inherit; the requests in `good` have it. -/
structure Inherits (good : DexReq → Prop) (P : (α : Type) → Op α → Prop) : Prop where
  pure : ∀ {α : Type} (a : α), P α (pure a)
  throw : ∀ {α : Type} (e : DexError), P α (throw e)
  throw_bind : ∀ {α β : Type} (e : DexError) (f : α → Op β), P β (Bind.bind (MonadExcept.throw e) f)
  ask : ∀ r, good r → P r.Resp (ask r)
  bind : ∀ {α β : Type} {p : Op α} {f : α → Op β}, P α p → (∀ a, P β (f a)) → P β (p >>= f)
  promise : ∀ {α : Type} {p : Op α}, P α p → P (Except DexError α) (promise p)

namespace Inherits

variable {good : DexReq → Prop} {P : (α : Type) → Op α → Prop} (h : Inherits good P)

include h

theorem pollUntil (hcancelled : good .cancelled) (hpoll : P α poll) (rounds : Nat) :
    P DExportRef (pollUntil poll next rounds) := by
  induction rounds with
  | zero => exact h.throw _
  | succ n ih =>
    refine h.bind (h.ask _ hcancelled) fun done => ?_
    cases done with
    | true => exact h.throw_bind _ _
    | false =>
      refine h.bind hpoll fun st => ?_
      cases next st with
      | some r =>
        cases r with
        | ok ref => exact h.pure _
        | error e => exact h.throw _
      | none =>
        refine h.bind (h.ask _ hcancelled) fun done => ?_
        cases done with
        | true => exact h.throw_bind _ _
        | false => exact ih

theorem emitAll {events : List V4Event} (hevents : ∀ ev ∈ events, good (.emit ev)) :
    P Bool (stream.emitAll events) := by
  induction events with
  | nil => exact h.pure _
  | cons ev evs ih =>
    refine h.bind (h.ask _ (hevents ev List.mem_cons_self)) fun sent => ?_
    cases sent with
    | true => exact ih fun ev hev => hevents ev (List.mem_cons_of_mem _ hev)
    | false => exact h.pure _

theorem stream {read : Op (Option α)} {next : β → α → List V4Event × Option β} (hcancelled : good .cancelled)
    (hread : P (Option α) read) (herror : ∀ e, good (.emit (onError e)))
    (hnext : ∀ b a, ∀ ev ∈ (next b a).1, good (.emit ev)) (rounds : Nat) (b : β) :
    P Unit (stream read onError next rounds b) := by
  induction rounds generalizing b with
  | zero => exact h.throw _
  | succ n ih =>
    refine h.bind (h.promise hread) fun r => ?_
    rcases r with e | _ | a
    · -- a fault of the read ends the goroutine, an error of it is reported
      cases e with
      | panicked f => exact h.throw _
      | _ => exact h.bind (h.ask _ (herror _)) fun _ => h.pure _
    · exact h.pure _
    · refine h.bind (h.emitAll (hnext b a)) fun sent => ?_
      cases sent with
      | false => exact h.pure _
      | true =>
        cases (next b a).2 with
        | none => exact h.pure _
        | some b' =>
          refine h.bind (h.ask _ hcancelled) fun done => ?_
          cases done with
          | true => exact h.pure _
          | false => exact ih b'

theorem orReport {check body : Op Unit} (hcheck : P Unit check) (herror : ∀ e, good (.emit (onError e)))
    (hbody : P Unit body) : P Unit (orReport check onError body) := by
  refine h.bind (h.promise hcheck) fun r => ?_
  cases r with
  | ok _ => exact hbody
  | error e => exact h.bind (h.ask _ (herror e)) fun _ => h.pure _

theorem unlessDone (hcancelled : good .cancelled) (hpoll : P α poll) : P (Option α) (unlessDone poll) := by
  refine h.bind (h.ask _ hcancelled) fun done => ?_
  cases done with
  | true => exact h.pure _
  | false => exact h.bind hpoll fun _ => h.pure _

end Inherits

theorem inherits_spares : Inherits (¬bad ·) fun _ p => Spares ok bad p where
  pure _ := spares_pure
  throw _ := spares_throw
  throw_bind _ _ := spares_throw_bind
  ask _ hr := spares_ask hr
  bind hp hf := hp.bind hf
  promise hp := spares_promise hp

theorem spares_pollUntil (hcancelled : ¬bad .cancelled) (hpoll : Spares ok bad poll) (rounds : Nat) :
    Spares ok bad (pollUntil poll next rounds) :=
  inherits_spares.pollUntil hcancelled hpoll rounds

theorem spares_emitAll {events : List V4Event} (hevents : ∀ ev ∈ events, ¬bad (.emit ev)) :
    Spares ok bad (stream.emitAll events) :=
  inherits_spares.emitAll hevents

theorem spares_stream {read : Op (Option α)} {next : β → α → List V4Event × Option β} (hcancelled : ¬bad .cancelled)
    (hread : Spares ok bad read) (herror : ∀ e, ¬bad (.emit (onError e)))
    (hnext : ∀ b a, ∀ ev ∈ (next b a).1, ¬bad (.emit ev)) (rounds : Nat) (b : β) :
    Spares ok bad (stream read onError next rounds b) :=
  inherits_spares.stream hcancelled hread herror hnext rounds b

theorem spares_orReport {check body : Op Unit} (hcheck : Spares ok bad check) (herror : ∀ e, ¬bad (.emit (onError e)))
    (hbody : Spares ok bad body) : Spares ok bad (orReport check onError body) :=
  inherits_spares.orReport hcheck herror hbody

theorem spares_unlessDone (hcancelled : ¬bad .cancelled) (hpoll : Spares ok bad poll) :
    Spares ok bad (unlessDone poll) :=
  inherits_spares.unlessDone hcancelled hpoll

theorem spares_awaitQuote {v : V4StateSession} {q : QuoteRequest} (hcancelled : ¬bad .cancelled)
    (herror : ¬bad (.emit (v.errorEvent .contextDone))) (hquote : Spares ok bad (s.quote q)) :
    Spares ok bad (v.awaitQuote s q) := by
  refine (spares_ask hcancelled).bind fun done => ?_
  cases done with
  | true => exact (spares_ask herror).bind fun _ => (spares_promise hquote).bind fun _ => spares_pure
  | false => exact (spares_promise hquote).bind fun _ => (spares_await hcancelled).bind fun _ => spares_pure

section Polls

variable {dex : Session} {sha256 : List UInt8 → ID}

theorem spares_granted {need : Authority} (h : dex.grant &&& need = need → Spares ok bad p) :
    Spares ok bad (do
      dex.requireGrant need
      p) := by
  refine spares_bind.mpr ⟨spares_requireGrant, Session.ensures_requireGrant.mpr ?_⟩
  split_ifs with hgrant
  · exact h hgrant
  · trivial

/-- The one shape of every call: a message is built and sent. -/
theorem spares_exchange (hcall : ∀ msg, x = .ok (.ok msg) → ¬bad (.call msg)) (hf : ∀ resp, Spares ok bad (f resp)) :
    Spares ok bad (do
      let reqMsg ← built x
      let resp ← call reqMsg
      f resp) := by
  refine spares_bind.mpr ⟨spares_built x, ensures_built.mpr ?_⟩
  rcases x with fault | e | m
  · trivial
  · trivial
  · exact (spares_call (hcall m rfl)).bind hf

section Sites

theorem spares_quote (q : QuoteRequest) (hcall : dex.grant &&& authQuote = authQuote →
      ∀ msg, buildQuoteRequest q = .ok (.ok msg) → ¬bad (.call msg)) :
    Spares ok bad (dex.quote q) :=
  spares_granted fun hgrant => spares_exchange (hcall hgrant) fun _ => spares_eval _

theorem spares_getState (q : StateRequest) (hcall : dex.grant &&& authQuote = authQuote →
      ∀ msg, buildStateRequest q = .ok (.ok msg) → ¬bad (.call msg)) :
    Spares ok bad (dex.getState q) := by
  unfold Session.getState
  generalize buildStateRequest q = msg at hcall ⊢
  exact spares_granted fun hgrant => spares_exchange (hcall hgrant) fun _ => spares_eval _

theorem spares_notify (pi : PreparedIntent) (hcall : dex.grant &&& authIntent = authIntent →
      ∀ msg, buildPreparedIntent pi msgNotify = .ok (.ok msg) → ¬bad (.call msg)) :
    Spares ok bad (dex.notify pi) :=
  spares_granted fun hgrant => spares_exchange (hcall hgrant) fun _ => (spares_eval _).bind fun _ => spares_pure

theorem spares_poll (w : IntentWatch) (hcall : dex.grant &&& authWatch = authWatch →
      ∀ msg, buildWatchPollRequest w.intentID = .ok (.ok msg) → ¬bad (.call msg)) :
    Spares ok bad (dex.poll w) :=
  spares_granted fun hgrant => spares_exchange (hcall hgrant) fun _ => spares_eval _

theorem spares_settle (ref : DExportRef) (hcall : dex.grant &&& authSettlement = authSettlement →
      ∀ msg, buildDExportRef ref = .ok (.ok msg) → ¬bad (.call msg)) :
    Spares ok bad (dex.settle ref) := by
  unfold Session.settle
  generalize buildDExportRef ref = msg at hcall ⊢
  exact spares_granted fun hgrant => spares_exchange (hcall hgrant) fun _ => spares_eval _

theorem spares_routePoll {w : RouteWatch} (hcheck : ¬bad (.lookup w.session.cap.core.tok))
    (hcall : ∀ msg, buildRouteWatchPoll w.intentID = .ok (.ok msg) → ¬bad (.call msg)) :
    Spares ok bad (w.poll sha256) :=
  (spares_authorizeSelf hcheck).bind fun _ => spares_exchange hcall fun _ => spares_eval _

end Sites

end Polls

end Loops

/-! ## Refs -/

variable {ref : DExportRef}

theorem committedNext_ref {watched : ID} (h : committedNext watched st = some (.ok ref)) :
    st.phase = phaseCommitted ∧ ref = { st.ref with intentID := watched } := by
  unfold committedNext at h
  split_ifs at h with hcommitted
  · exact ⟨hcommitted, (Except.ok.inj (Option.some.inj h)).symm⟩
  · cases h

/-- **Where a committed ref comes from**: a poll under the watched id, whose status was committed. -/
theorem Session.yields_streamUntilCommitted {tr : List (Ev dexSig)}
    (h : Proc.Yields (s.streamUntilCommitted w rounds) tr ref) :
    ∃ msg bytes m st, buildWatchPollRequest w.intentID = .ok (.ok msg) ∧ ⟨DexReq.call msg, some bytes⟩ ∈ tr ∧
      parse bytes = .ok m ∧ readIntentStatus m = .ok st ∧ st.phase = phaseCommitted ∧
      ref = { st.ref with intentID := w.intentID } := by
  obtain ⟨tr1, tr2, st, rfl, hpoll, hnext⟩ := yields_pollUntil h
  obtain ⟨-, msg, bytes, m, hx, rfl, hp, hread⟩ := Session.yields_poll.mp hpoll
  obtain ⟨hphase, href⟩ := committedNext_ref hnext
  exact ⟨msg, bytes, m, st, hx, by simp, hp, hread, hphase, href⟩

theorem RouteWatch.finalNext_ref {w : RouteWatch} {st : RouteStatus Str}
    (h : w.finalNext st = some (.ok ref)) :
    (st.phase = routeCommitted ∨ st.phase = routeRefunded) ∧ ref = { st.ref with intentID := w.intentID } := by
  unfold RouteWatch.finalNext at h
  split_ifs at h with hfinal
  · exact ⟨hfinal, (Except.ok.inj (Option.some.inj h)).symm⟩
  · cases h

/-- Of a swap's events the last carries a ref, the one of a committed status, labelled with the session's id. -/
theorem V4SwapSession.events_ref {s : V4SwapSession} {imported : Bool} (hev : ev ∈ (s.events imported st).1)
    (htype : ev.type = .swapDExportReady) :
    st.phase = phaseCommitted ∧ ev.ref = { st.ref with intentID := s.intentID } := by
  unfold V4SwapSession.events at hev
  grind

theorem V4RouteSession.events_ref {s : V4RouteSession} {lastHop : Option UInt32} {st : RouteStatus Str}
    (hev : ev ∈ (s.events lastHop st).1) (htype : ev.type = .routeDExportReady ∨ ev.type = .routeRefundReady) :
    (st.phase = routeCommitted ∨ st.phase = routeRefunded) ∧ ev.ref = { st.ref with intentID := s.intentID } := by
  unfold V4RouteSession.events at hev
  grind

end Zap.Dex
