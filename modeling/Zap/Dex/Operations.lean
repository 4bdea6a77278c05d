/-
# Zap.Dex.Operations — many operations on one session.

All operations of a client session, its capabilities and its V4 sessions run side by side (`Operation`), each
as one program of a pool over the shared table of grants (`Table`). An operation is a method with the goroutines
it starts, so its program goes on after the promise it returned has resolved. Where it awaits the promise of
another operation it is given what that resolves to, any value.

There are seven places that call the server, five of the session itself and two of a route. What is to be shown
of all operations is shown of those places (`Sites`); `Sites.v4Op` and `Sites.operation` carry it to the rest.
-/
import Zap.Dex.Scope
import Zap.Lib.Pool

namespace Zap.Dex

open Zap.Lib Zap.Wire Proc

/-! ## Operations -/

inductive V4Op
  | prepare (s : V4Session)
  | notify (s : V4Session) (intent : Except DexError PreparedIntent)
  | settlement (cap : ScopedCap) (intentID : ID) (ref : Except DexError DExportRef)
  | onExportReady (cap : ScopedCap) (w : IntentWatch) (rounds : Nat)
  | readSwapStream (s : V4SwapSession) (w : IntentWatch) (rounds : Nat)
  | routePoll (w : RouteWatch)
  | onFinalExport (s : V4RouteSession) (w : RouteWatch) (rounds : Nat)
  | readRouteStream (s : V4RouteSession) (w : RouteWatch) (rounds : Nat)
  | readQuote (s : V4StateSession) (amountIn : UInt64) (zeroForOne : Bool)
  | readState (s : V4StateSession) (kind : StateKind) (account : Account) (asset : ID)
  | streamQuotes (s : V4StateSession) (amountIn : UInt64) (zeroForOne : Bool) (rounds : Nat)
  /-- The stage of `Run` that awaits the export. -/
  | committed (cap : ScopedCap) (watch : Except DexError IntentWatch) (rounds : Nat)
  /-- The quote of `Run`. -/
  | quote (q : QuoteRequest)

/-- What runs on a session: an operation for each method that calls the server or reads or writes the table of
grants, and for each stage of a flow. -/
inductive Operation
  /-- `QuoteCap`, `IntentCap`, `WatchCap`, `SettlementCap` and `AdminCap` -/
  | derive (bits : Authority)
  /-- `Revoke`, and `Close` of any session -/
  | revoke (t : Token)
  | openSession (cfg : V4Config) (r : V4Request)
  | openState (cfg : V4Config) (account : Account) (marketID : ID)
  | quote (q : QuoteRequest)
  | getState (q : StateRequest)
  | prepareSwapIntent (req : SwapIntentRequest)
  | notifyIntent (intent : Except DexError PreparedIntent)
  | importSettlement (ref : Except DexError DExportRef)
  | poll (w : IntentWatch)
  | onCommitted (w : IntentWatch) (rounds : Nat)
  /-- The stage of a flow that sends the prepared intent; `send` is nil or not. -/
  | fund (given : Bool) (intent : Except DexError PreparedIntent)
  /-- The stage of a flow that awaits the commit. -/
  | committed (watch : Except DexError IntentWatch) (rounds : Nat)
  | v4 (op : V4Op)

def sendIntent (given : Bool) (pi : PreparedIntent) : Op PreparedIntent := do
  if !given then
    throw (.message "dexsession: SwapFlowWithSender requires a sender")
  if ← ask (.send pi.toAddr pi.calldata) then return pi
  else throw .sendFailed

def committedStage (commit : IntentWatch → Op DExportRef) (watch : Except DexError IntentWatch) :
    Op DExportRef :=
  thenAsync watch fun w => awaitStarted (commit w)

section Programs

variable (sha256 : List UInt8 → ID) (dex : Session)

def V4Op.body : V4Op → Op Unit
  | .prepare s => discard (s.prepare sha256 dex)
  | .notify s intent => discard (s.notify sha256 dex intent)
  | .settlement cap intentID ref => discard (writePrepareCSettlement sha256 dex cap intentID ref)
  | .onExportReady cap w rounds => discard (Zap.Dex.onExportReady sha256 dex cap w rounds)
  | .readSwapStream s w rounds => s.readStream sha256 dex w rounds
  | .routePoll w => discard (w.poll sha256)
  | .onFinalExport s w rounds => discard (s.onFinalExport sha256 w rounds)
  | .readRouteStream s w rounds => s.readStream sha256 w rounds
  | .readQuote s amountIn zeroForOne => discard (s.readQuote sha256 dex amountIn zeroForOne)
  | .readState s kind account asset => discard (s.readState sha256 dex kind account asset)
  | .streamQuotes s amountIn zeroForOne rounds => s.streamQuotes sha256 dex amountIn zeroForOne rounds
  | .committed cap watch rounds =>
    discard (committedStage (fun w => Zap.Dex.onExportReady sha256 dex cap w rounds) watch)
  | .quote q => discard (dex.quote q)

def Operation.body : Operation → Op Unit
  | .derive bits => discard (dex.issue bits)
  | .revoke t => discard (ask (.revoke t))
  | .openSession cfg r => discard ((newV4PrecompileSession dex cfg).openSession sha256 r)
  | .openState cfg account marketID =>
    discard ((newV4PrecompileSession dex cfg).openState sha256 account marketID)
  | .quote q => discard (dex.quote q)
  | .getState q => discard (dex.getState q)
  | .prepareSwapIntent req => discard (dex.prepareSwapIntent sha256 req)
  | .notifyIntent intent => discard (dex.notifyIntent intent)
  | .importSettlement ref => discard (dex.importSettlement ref)
  | .poll w => discard (dex.poll w)
  | .onCommitted w rounds => discard (dex.onCommitted w rounds)
  | .fund given intent => discard (thenAsync intent (sendIntent given))
  | .committed watch rounds => discard (committedStage (fun w => dex.onCommitted w rounds) watch)
  | .v4 op => op.body sha256 dex

end Programs

def V4Op.Uses (own : Token → Prop) : V4Op → Prop
  | .prepare s | .notify s _ => own s.cap.core.tok
  | .settlement cap _ _ | .onExportReady cap _ _ | .committed cap _ _ => own cap.core.tok
  | .readSwapStream s _ _ => own s.cap.core.tok
  | .routePoll w => own w.session.cap.core.tok
  | .onFinalExport s w _ | .readRouteStream s w _ => own s.cap.core.tok ∧ own w.session.cap.core.tok
  | .readQuote s _ _ | .readState s _ _ _ | .streamQuotes s _ _ _ => own s.cap.core.tok
  | .quote _ => True

/-! ## The table of grants -/

abbrev Table := Token → Option Grant

/-- What the table answers, and what becomes of it. Everything else is up to the surroundings. -/
def Table.Serves (w : Table) : Ev dexSig → Table → Prop
  | ⟨.lookup t, x⟩, w' => x = w t ∧ w' = w
  | ⟨.register t bits, _⟩, w' => w' = Function.update w t (some ⟨bits, false⟩)
  | ⟨.revoke t, _⟩, w' => w' = Function.update w t ((w t).map fun g => { g with revoked := true })
  | _, w' => w' = w

abbrev SessionRun {ι : Type} [DecidableEq ι] (sha256 : List UInt8 → ID) (dex : Session) (ops : ι → Operation)
    (log : List (Line ι Empty dexSig)) (w : Table) : Prop :=
  PoolRun Table.Serves (fun _ _ _ => False) (fun i => ((ops i).body sha256 dex).run) (fun _ => none) log w

/-! ## Call sites -/

/-- Nothing in `bad` is asked for at the places that call the server, by a select, an event or the lookup of an
own token. -/
structure Sites (sha256 : List UInt8 → ID) (dex : Session) (own : Token → Prop) (ok : Ev dexSig → Prop)
    (bad : DexReq → Prop) : Prop where
  cancelled : ¬bad .cancelled
  emit : ∀ ev, ¬bad (.emit ev)
  lookup : ∀ t, own t → ¬bad (.lookup t)
  quote : ∀ q, Spares ok bad (dex.quote q)
  getState : ∀ q, Spares ok bad (dex.getState q)
  notify : ∀ pi, Spares ok bad (dex.notify pi)
  poll : ∀ w, Spares ok bad (dex.poll w)
  settle : ∀ ref, Spares ok bad (dex.settle ref)
  routePoll : ∀ w : RouteWatch, own w.session.cap.core.tok → Spares ok bad (w.poll sha256)
  routeNotify : ∀ (s : V4RouteSession) intent, own s.cap.core.tok →
    Spares ok bad (s.writeNotifyCToDExport sha256 intent)

def IsCall : DexReq → Prop
  | .call _ => True
  | _ => False

section Spared

variable {ok : Ev dexSig → Prop} {bad : DexReq → Prop} {α β : Type}

theorem spares_map {p : Op α} {f : α → β} (h : Spares ok bad p) : Spares ok bad (f <$> p) :=
  h.bind fun _ => spares_pure

theorem spares_discard {p : Op α} (h : Spares ok bad p) : Spares ok bad (discard p) := h.bind fun _ => spares_pure

theorem spares_thenAsync {p : Except DexError α} {f : α → Op β} (hcancelled : ¬bad .cancelled)
    (hf : ∀ a, Spares ok bad (f a)) : Spares ok bad (thenAsync p f) :=
  (spares_await hcancelled).bind hf

theorem spares_guardIntent (intentID : ID) (pi : PreparedIntent) : Spares ok bad (guardIntent intentID pi) := by
  unfold guardIntent
  split_ifs
  · exact spares_throw
  · exact spares_pure

theorem spares_guardRef (intentID : ID) (r : DExportRef) : Spares ok bad (guardRef intentID r) := by
  unfold guardRef
  split_ifs
  · exact spares_throw
  · exact spares_pure

end Spared

namespace Sites

variable {sha256 : List UInt8 → ID} {dex : Session} {own : Token → Prop} {ok : Ev dexSig → Prop}
  {bad : DexReq → Prop}

section

variable (h : Sites sha256 dex own ok bad)

include h

variable {cap : ScopedCap}

theorem check {need : Authority} (hown : own cap.core.tok) : Spares ok bad (cap.authorizeSelf sha256 need) :=
  spares_authorizeSelf (h.lookup _ hown)

theorem onCommitted (w : IntentWatch) (rounds : Nat) : Spares ok bad (dex.onCommitted w rounds) :=
  spares_requireGrant.bind fun _ => spares_pollUntil h.cancelled (h.poll w) rounds

theorem onExportReady (hown : own cap.core.tok) (w : IntentWatch) (rounds : Nat) :
    Spares ok bad (Zap.Dex.onExportReady sha256 dex cap w rounds) :=
  (h.check hown).bind fun _ => h.onCommitted w rounds

theorem prepareSwapIntent (req : SwapIntentRequest) : Spares ok bad (dex.prepareSwapIntent sha256 req) := by
  refine spares_requireGrant.bind fun _ => ?_
  unfold Session.prepareLocal
  split_ifs
  · exact spares_throw
  split
  · exact spares_throw
  exact (spares_estimate h.cancelled (h.quote _)).bind fun _ => spares_pure

theorem prepare {s : V4Session} (hown : own s.cap.core.tok) : Spares ok bad (s.prepare sha256 dex) := by
  cases s with
  | swap s => exact (h.check hown).bind fun _ => h.prepareSwapIntent s.req
  | route s =>
    refine (h.check hown).bind fun _ => ?_
    unfold V4RouteSession.prepareRouteLocal
    split_ifs
    · exact spares_throw
    · exact spares_throw
    split
    · exact spares_throw
    · exact spares_pure
  | liquidity s | collect s => exact (h.check hown).bind fun _ => spares_pure

theorem writeNotify (hown : own cap.core.tok) (intentID : ID)
    (intent : Except DexError PreparedIntent) : Spares ok bad (Zap.Dex.writeNotify sha256 dex cap intentID intent) :=
  (h.check hown).bind fun _ =>
    (spares_promise (spares_thenAsync h.cancelled (spares_guardIntent intentID))).bind fun _ =>
      spares_thenAsync h.cancelled h.notify

theorem sessionNotify {s : V4Session} (hown : own s.cap.core.tok) (intent : Except DexError PreparedIntent) :
    Spares ok bad (s.notify sha256 dex intent) := by
  cases s with
  | route s => exact spares_map (h.routeNotify s intent hown)
  | swap s | liquidity s | collect s => exact spares_map (h.writeNotify hown _ _)

theorem settlement (hown : own cap.core.tok) (intentID : ID)
    (ref : Except DexError DExportRef) :
    Spares ok bad (writePrepareCSettlement sha256 dex cap intentID ref) :=
  (h.check hown).bind fun _ =>
    (spares_promise (spares_thenAsync h.cancelled (spares_guardRef intentID))).bind fun _ =>
      spares_thenAsync h.cancelled h.settle

theorem committedStage {commit : IntentWatch → Op DExportRef} (hcommit : ∀ w, Spares ok bad (commit w))
    (watch : Except DexError IntentWatch) : Spares ok bad (Zap.Dex.committedStage commit watch) :=
  spares_thenAsync h.cancelled fun w => spares_awaitStarted h.cancelled (hcommit w)

theorem polls {check : Op Unit} {onError : DexError → V4Event} {α γ : Type} {poll : Op α}
    {next : γ → α → List V4Event × Option γ} (hcheck : Spares ok bad check) (hpoll : Spares ok bad poll)
    (rounds : Nat) (start : γ) :
    Spares ok bad (orReport check onError (stream (unlessDone poll) onError next rounds start)) :=
  spares_orReport hcheck (fun _ => h.emit _)
    (spares_stream h.cancelled (spares_unlessDone h.cancelled hpoll) (fun _ => h.emit _)
      (fun _ _ _ _ => h.emit _) rounds start)

theorem streamQuotes {s : V4StateSession} (hown : own s.cap.core.tok) (amountIn : UInt64) (zeroForOne : Bool)
    (rounds : Nat) : Spares ok bad (s.streamQuotes sha256 dex amountIn zeroForOne rounds) := by
  refine spares_orReport (h.check hown) (fun _ => h.emit _) ?_
  refine spares_stream h.cancelled ?_ (fun _ => h.emit _) (fun _ _ _ _ => h.emit _) rounds ()
  exact spares_awaitQuote h.cancelled (h.emit _) (h.quote _)

/-- **Every operation of a V4 session** asks for what its sites do. -/
theorem v4Op {op : V4Op} (hown : op.Uses own) : Spares ok bad (op.body sha256 dex) := by
  cases op with
  | prepare s => exact spares_discard (h.prepare hown)
  | notify s intent => exact spares_discard (h.sessionNotify hown intent)
  | settlement cap intentID ref => exact spares_discard (h.settlement hown intentID ref)
  | onExportReady cap w rounds => exact spares_discard (h.onExportReady hown w rounds)
  | readSwapStream s w rounds => exact h.polls (h.check hown) (h.poll w) rounds false
  | routePoll w => exact spares_discard (h.routePoll w hown)
  | onFinalExport s w rounds =>
    exact spares_discard ((h.check hown.1).bind fun _ =>
      spares_pollUntil h.cancelled (h.routePoll w hown.2) rounds)
  | readRouteStream s w rounds => exact h.polls (h.check hown.1) (h.routePoll w hown.2) rounds none
  | readQuote s amountIn zeroForOne => exact spares_discard ((h.check hown).bind fun _ => h.quote _)
  | readState s kind account asset => exact spares_discard ((h.check hown).bind fun _ => h.getState _)
  | streamQuotes s amountIn zeroForOne rounds => exact h.streamQuotes hown amountIn zeroForOne rounds
  | committed cap watch rounds =>
    exact spares_discard (h.committedStage (fun w => h.onExportReady hown w rounds) watch)
  | quote q => exact spares_discard (h.quote q)

end

/-- **Every operation on a session**, with the sites of all tokens, and those that write the table. -/
theorem operation (h : Sites sha256 dex (fun _ => True) ok bad) (hrevoke : ∀ t, ¬bad (.revoke t))
    (hsend : ∀ toAddr calldata, ¬bad (.send toAddr calldata)) (hissue : ∀ bits, Spares ok bad (dex.issue bits))
    (op : Operation) : Spares ok bad (op.body sha256 dex) := by
  -- each open method ends in a mint
  have hminted : ∀ {γ : Type} {cfg bits scope} {make : ScopedCap → γ}, Spares ok bad (do
      let cap ← (newV4PrecompileSession dex cfg).mint sha256 bits scope
      return make cap) := fun {_ _ bits _ _} =>
    Spares.bind ((hissue bits).bind fun _ => spares_pure) fun _ => spares_pure
  have hremoval : ∀ {cfg r kind}, Spares ok bad ((newV4PrecompileSession dex cfg).openRemoval sha256 r kind) := by
    intro cfg r kind
    unfold V4PrecompileSession.openRemoval
    split_ifs
    · exact spares_throw
    split
    · exact spares_throw
    · exact hminted
  cases op with
  | derive bits => exact spares_discard (hissue bits)
  | revoke t => exact spares_discard (spares_ask (hrevoke t))
  | openSession cfg r =>
    refine spares_discard ?_
    cases r with
    | swap r =>
      refine spares_map ?_
      unfold V4PrecompileSession.openSwap
      split
      · exact spares_throw
      · exact hminted
    | route r =>
      refine spares_map ?_
      unfold V4PrecompileSession.openRoute
      split
      · exact spares_throw
      split
      · exact spares_throw
      · exact hminted
    | liquidity r =>
      refine spares_map ?_
      unfold V4PrecompileSession.openModifyLiquidity
      split_ifs
      · exact spares_throw
      split
      · exact spares_throw
      · exact hminted
    | collect r | cancel r => exact spares_map hremoval
  | openState cfg account marketID =>
    refine spares_discard ?_
    unfold V4PrecompileSession.openState
    split
    · exact spares_throw
    · exact hminted
  | quote q => exact spares_discard (h.quote q)
  | getState q => exact spares_discard (h.getState q)
  | prepareSwapIntent req => exact spares_discard (h.prepareSwapIntent req)
  | notifyIntent intent => exact spares_discard (spares_thenAsync h.cancelled h.notify)
  | importSettlement ref => exact spares_discard (spares_thenAsync h.cancelled h.settle)
  | poll w => exact spares_discard (h.poll w)
  | onCommitted w rounds => exact spares_discard (h.onCommitted w rounds)
  | fund given intent =>
    refine spares_discard (spares_thenAsync h.cancelled fun pi => ?_)
    cases given with
    | false => exact spares_throw_bind
    | true =>
      refine (spares_ask (hsend _ _)).bind fun sent => ?_
      cases sent with
      | true => exact spares_pure
      | false => exact spares_throw
  | committed watch rounds =>
    exact spares_discard (h.committedStage (fun w => h.onCommitted w rounds) watch)
  | v4 op => exact h.v4Op (by cases op <;> simp [V4Op.Uses])

end Sites

end Zap.Dex
