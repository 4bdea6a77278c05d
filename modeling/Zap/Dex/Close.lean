/-
# Zap.Dex.Close — what closing a V4 session stops.

`Close` revokes the session's token, and the token is what the session's methods check when they are called.
What was called before goes on: a stage or a stream that has passed its check does not look at the table again,
and the quote of `Run` never does. Only the polls of a route check the token each time.

`close_final` says when nothing is left to stop. `V4Op.Idle` is about what an operation has done when `Close`
returns: a method that makes one call has not passed its check, or has made the call; a route's stream is not
between the check of a poll and its call; any other stream has not passed its check, or has ended.
-/
import Zap.Dex.Authority

namespace Zap.Dex

open Zap.Lib Zap.Wire Proc
open Prog (Ensures)

/-! ## Idle operations -/

def ShutOut (t : Token) : Ev dexSig → Prop
  | ⟨.lookup t', x⟩ => t' = t → ∀ g, x = some g → g.revoked = true
  | _ => True

/-- The token has not been found in force since the last call, or since the beginning. -/
def Unchecked (t : Token) (tr : List (Ev dexSig)) : Prop :=
  (∀ e ∈ tr, ShutOut t e) ∨
    ∃ tr₁ msg answer tr₂, tr = tr₁ ++ ⟨.call msg, answer⟩ :: tr₂ ∧ ∀ e ∈ tr₂, ShutOut t e

/-- Behind `tr` the operation has ended, or is at a point from which it calls only after a further check of the
token, if at all. -/
def V4Op.Idle (sha256 : List UInt8 → ID) (dex : Session) (t : Token) (op : V4Op) (tr : List (Ev dexSig)) : Prop :=
  (∃ r, Prog.Reach (op.body sha256 dex).run tr (.ret r)) ∨ match op with
    -- `Run` asks for its quote without a check
    | .quote _ => ∃ msg answer, ⟨.call msg, answer⟩ ∈ tr
    -- these poll on without one
    | .onExportReady .. | .readSwapStream .. | .streamQuotes .. | .committed .. => ∀ e ∈ tr, ShutOut t e
    | _ => Unchecked t tr

section Quiet

variable {sha256 : List UInt8 → ID} {dex : Session} {t : Token} {α β : Type} {need : Authority} {cap : ScopedCap}

theorem check_refused (ht : cap.core.tok = t) :
    Ensures (ShutOut t) (fun r => ∃ e, r = .error e) (cap.authorizeSelf sha256 need).run := by
  refine ScopedCap.ensures_authorizeScoped.mpr ?_
  split_ifs
  · exact ⟨_, rfl⟩
  · intro x hx
    cases x with
    | none => exact ⟨_, rfl⟩
    | some g =>
      rw [scopedResult, checkResult, if_pos (hx ht g rfl)]
      exact ⟨_, rfl⟩
  · exact ⟨_, rfl⟩

theorem quiet_checked (ht : cap.core.tok = t) {p : Op α} :
    Spares (ShutOut t) IsCall (do
      cap.authorizeSelf sha256 need
      p) := by
  refine spares_bind.mpr ⟨spares_authorizeSelf not_false, (check_refused ht).mono ?_⟩
  rintro _ ⟨e, rfl⟩
  trivial

theorem quiet_reported (ht : cap.core.tok = t) {onError : DexError → V4Event} {body : Op Unit} :
    Spares (ShutOut t) IsCall (orReport (cap.authorizeSelf sha256 need) onError body) := by
  refine spares_bind.mpr ⟨spares_promise (spares_authorizeSelf not_false), ensures_lift.mpr ?_⟩
  refine (check_refused ht).mono ?_
  rintro _ ⟨e, rfl⟩
  exact (spares_ask not_false).bind fun _ => spares_pure

/-- **A method that is refused its check makes no call**, but for the quote of `Run`. -/
theorem quiet_body {op : V4Op} (hown : op.Uses (· = t)) (hop : ∀ q, op ≠ .quote q) :
    Spares (ShutOut t) IsCall (op.body sha256 dex) := by
  cases op with
  | prepare s => cases s <;> exact spares_discard (quiet_checked hown)
  | notify s intent => cases s <;> exact spares_discard (spares_map (quiet_checked hown))
  | settlement cap intentID ref | onExportReady cap w rounds | routePoll w | readQuote s amountIn zeroForOne
  | readState s kind account asset =>
    exact spares_discard (quiet_checked hown)
  | readSwapStream s w rounds | streamQuotes s amountIn zeroForOne rounds => exact quiet_reported hown
  | onFinalExport s w rounds => exact spares_discard (quiet_checked hown.1)
  | readRouteStream s w rounds => exact quiet_reported hown.1
  | committed cap watch rounds =>
    exact spares_discard (spares_thenAsync not_false fun w => spares_awaitStarted not_false (quiet_checked hown))
  | quote q => exact absurd rfl (hop q)

/-! ## Operations with one call -/

abbrev Silent (p : Op α) : Prop := Spares (fun _ => True) IsCall p

/-- Behind a call, no other before the token is found in force. -/
abbrev OneCall (t : Token) (p : Op α) : Prop := Once (ShutOut t) IsCall p

variable {p : Op α} {f : α → Op β}

theorem Silent.quiet (h : Silent p) : Spares (ShutOut t) IsCall p := h.avoids.spares

theorem Silent.then (hp : Silent p) (hf : ∀ a, OneCall t (f a)) : OneCall t (p >>= f) := hp.avoids.once_bind hf

theorem Silent.oneCall (hp : Silent p) : OneCall t p := by
  have h : OneCall t (p >>= pure) := hp.then fun _ => once_pure
  rwa [bind_pure] at h

theorem OneCall.bind (hp : OneCall t p) (hf : ∀ a, Silent (f a)) : OneCall t (p >>= f) :=
  Once.bind hp (fun a => (hf a).oneCall) fun a => (hf a).quiet

theorem oneCall_exchange {x : Go (Except WireError Message)} {f : Message → Op α} (hf : ∀ resp, Silent (f resp)) :
    OneCall t (do
      let reqMsg ← built x
      let resp ← call reqMsg
      f resp) := by
  refine Silent.then (spares_built x) fun msg => OneCall.bind ?_ hf
  -- the call itself; what follows only reads its answer
  refine OneCall.bind once_request fun answer => ?_
  cases answer with
  | none => exact spares_throw
  | some bytes =>
    simp only
    cases parse bytes with
    | ok m => exact spares_pure
    | error e => exact spares_throw

theorem oneCall_quote (q : QuoteRequest) : OneCall t (dex.quote q) :=
  Silent.then spares_requireGrant fun _ => oneCall_exchange fun _ => spares_eval _

theorem oneCall_notify (pi : PreparedIntent) : OneCall t (dex.notify pi) :=
  Silent.then spares_requireGrant fun _ => oneCall_exchange fun _ => (spares_eval _).bind fun _ => spares_pure

theorem oneCall_settle (ref : DExportRef) : OneCall t (dex.settle ref) := by
  unfold Session.settle
  generalize buildDExportRef ref = msg
  exact Silent.then spares_requireGrant fun _ => oneCall_exchange fun _ => spares_eval _

theorem oneCall_getState (q : StateRequest) : OneCall t (dex.getState q) := by
  unfold Session.getState
  generalize buildStateRequest q = msg
  exact Silent.then spares_requireGrant fun _ => oneCall_exchange fun _ => spares_eval _

theorem oneCall_checked (hp : OneCall t p) :
    OneCall t (do
      cap.authorizeSelf sha256 need
      p) :=
  Silent.then (spares_authorizeSelf not_false) fun _ => hp

theorem oneCall_staged {γ : Type} {given : Except DexError α} {guard : α → Op β} {last : β → Op γ}
    (hguard : ∀ a, Silent (guard a)) (hlast : ∀ b, OneCall t (last b)) :
    OneCall t (do
      cap.authorizeSelf sha256 need
      let guarded ← promise (thenAsync given guard)
      thenAsync guarded last) :=
  oneCall_checked <| Silent.then (spares_promise (spares_thenAsync not_false hguard)) fun _ =>
    Silent.then (spares_await not_false) hlast

theorem oneCall_prepare (s : V4Session) : OneCall t (s.prepare sha256 dex) := by
  cases s with
  | swap s =>
    refine oneCall_checked (Silent.then spares_requireGrant fun _ => ?_)
    unfold Session.prepareLocal
    split_ifs
    · exact once_throw
    split
    · exact once_throw
    refine OneCall.bind (OneCall.bind (Once.lift ?_) fun r => ?_) fun _ => spares_pure
    · -- the await of the quote, and the quote's goroutine
      refine Silent.then (spares_ask not_false) fun done => OneCall.bind (oneCall_quote _).lift fun r => ?_
      split
      · exact spares_throw
      · split_ifs
        · exact spares_throw
        · exact spares_await not_false
    · rcases r with e | qr
      · cases e with
        | panicked f => exact spares_throw
        | _ => exact spares_pure
      · exact spares_pure
  | route s =>
    refine oneCall_checked (Silent.oneCall ?_)
    unfold V4RouteSession.prepareRouteLocal
    split_ifs
    · exact spares_throw
    · exact spares_throw
    split
    · exact spares_throw
    · exact spares_pure
  | liquidity s | collect s => exact oneCall_checked once_pure

theorem oneCall_sessionNotify (s : V4Session) (intent : Except DexError PreparedIntent) :
    OneCall t (s.notify sha256 dex intent) := by
  have hnotify : ∀ {cap : ScopedCap} {intentID : ID}, OneCall t (writeNotify sha256 dex cap intentID intent) :=
    oneCall_staged (spares_guardIntent _) oneCall_notify
  cases s with
  | route s =>
    refine OneCall.bind (oneCall_checked (Silent.then (spares_await not_false) fun pi => ?_)) fun _ => spares_pure
    exact Silent.then (spares_guardIntent _ _) fun _ => oneCall_exchange fun _ => spares_pure
  | swap s | liquidity s | collect s => exact OneCall.bind hnotify fun _ => spares_pure

/-! ## The streams of a route -/

theorem inherits_oneCall : Inherits (¬IsCall ·) fun _ p => OneCall t p ∧ Spares (ShutOut t) IsCall p where
  pure _ := ⟨once_pure, spares_pure⟩
  throw _ := ⟨once_throw, spares_throw⟩
  throw_bind _ _ := ⟨once_throw, spares_throw_bind⟩
  ask _ hr := ⟨once_request, spares_ask hr⟩
  bind hp hf := ⟨Once.bind hp.1 (fun a => (hf a).1) fun a => (hf a).2, hp.2.bind fun a => (hf a).2⟩
  promise hp := ⟨hp.1.lift, spares_promise hp.2⟩

theorem oneCall_routePoll {w : RouteWatch} (hown : w.session.cap.core.tok = t) :
    OneCall t (w.poll sha256) ∧ Spares (ShutOut t) IsCall (w.poll sha256) :=
  ⟨oneCall_checked (oneCall_exchange fun _ => spares_eval _), quiet_checked hown⟩

/-- **Behind a call there is a check**, in the methods that make one call and in the streams of a route. -/
theorem oneCall_body {op : V4Op} (hown : op.Uses (· = t))
    (hop : match op with
      | .onExportReady .. | .readSwapStream .. | .streamQuotes .. | .committed .. => False
      | _ => True) : OneCall t (op.body sha256 dex) := by
  have hdiscard : ∀ {α : Type} {p : Op α}, OneCall t p → OneCall t (discard p) := fun hp => hp.bind fun _ => spares_pure
  cases op with
  | prepare s => exact hdiscard (oneCall_prepare s)
  | notify s intent => exact hdiscard (oneCall_sessionNotify s intent)
  | settlement cap intentID ref => exact hdiscard (oneCall_staged (spares_guardRef intentID) oneCall_settle)
  | routePoll w => exact hdiscard (oneCall_routePoll hown).1
  | onFinalExport s w rounds =>
    exact hdiscard (oneCall_checked (inherits_oneCall.pollUntil not_false (oneCall_routePoll hown.2) rounds).1)
  | readRouteStream s w rounds =>
    have hcheck : OneCall t (s.cap.authorizeSelf sha256 authWatch) :=
      Silent.oneCall (spares_authorizeSelf not_false)
    refine (inherits_oneCall.orReport ⟨hcheck, spares_authorizeSelf not_false⟩ (fun _ => not_false) ?_).1
    exact inherits_oneCall.stream not_false (inherits_oneCall.unlessDone not_false (oneCall_routePoll hown.2))
      (fun _ => not_false) (fun _ _ _ _ => not_false) rounds none
  | readQuote s amountIn zeroForOne => exact hdiscard (oneCall_checked (oneCall_quote _))
  | readState s kind account asset => exact hdiscard (oneCall_checked (oneCall_getState _))
  | quote q => exact hdiscard (oneCall_quote q)
  | onExportReady cap w rounds | readSwapStream s w rounds | streamQuotes s amountIn zeroForOne rounds
  | committed cap watch rounds => exact hop.elim

theorem quote_refused {q : QuoteRequest} {tr : List (Ev dexSig)} {r : Prog dexSig (Except DexError Unit)}
    (h : Prog.Reach (V4Op.body sha256 dex (.quote q)).run tr r) : ∀ e ∈ tr, ShutOut t e := by
  have hfree : Spares (fun _ => True) (fun r => ∃ t', r = DexReq.lookup t') (V4Op.body sha256 dex (.quote q)) := by
    refine spares_discard (spares_quote q fun _ _ _ => ?_)
    rintro ⟨t', heq⟩
    cases heq
  rintro ⟨r, x⟩ he
  have hr := hfree.avoids.reach h _ he
  cases r with
  | lookup t' => exact absurd ⟨t', rfl⟩ hr
  | _ => trivial

/-- What is left of an idle operation makes no call while the token is refused. -/
theorem V4Op.Idle.quiet {op : V4Op} {tr : List (Ev dexSig)} {q : Prog dexSig (Except DexError Unit)}
    (hidle : op.Idle sha256 dex t tr) (hown : op.Uses (· = t)) (hq : Prog.Reach (op.body sha256 dex).run tr q) :
    Prog.NeverWhile (ShutOut t) IsCall q := by
  rcases hidle with ⟨r, hr⟩ | hidle
  · cases hq.det hr
    trivial
  have hrefused : (∀ q, op ≠ .quote q) → (∀ e ∈ tr, ShutOut t e) → Prog.NeverWhile (ShutOut t) IsCall q :=
    fun hop h => (Prog.NeverWhile.reach (quiet_body hown hop) hq h).2
  have hunchecked : (∀ q, op ≠ .quote q) → OneCall t (op.body sha256 dex) → Unchecked t tr →
      Prog.NeverWhile (ShutOut t) IsCall q := by
    rintro hop hone (h | ⟨tr1, msg, answer, tr2, rfl, h⟩)
    · exact hrefused hop h
    · exact Prog.Once.reach hone hq trivial h
  cases op with
  | quote qr =>
    -- it looks nothing up, so the token was never found in force
    obtain ⟨msg, answer, hmem⟩ := hidle
    obtain ⟨tr1, tr2, rfl⟩ := List.append_of_mem hmem
    refine Prog.Once.reach (oneCall_body hown trivial) hq trivial fun e he => ?_
    exact quote_refused hq e (by simp [he])
  | onExportReady cap w rounds | readSwapStream s w rounds | streamQuotes s amountIn zeroForOne rounds
  | committed cap watch rounds => exact hrefused (fun q h => V4Op.noConfusion h) hidle
  | prepare s | notify s intent | settlement cap intentID ref | routePoll w | onFinalExport s w rounds
  | readRouteStream s w rounds | readQuote s amountIn zeroForOne | readState s kind account asset =>
    exact hunchecked (fun q h => V4Op.noConfusion h) (oneCall_body hown trivial) hidle

end Quiet

/-! ## The rest of a run -/

section Rest

variable {ι : Type} {t : Token} {w w' : Table} {e : Ev dexSig} {more : List (Line ι Empty dexSig)}

def Table.Shut (w : Table) (t : Token) : Prop := ∀ g, w t = some g → g.revoked = true

theorem Table.Shut.revoked (w : Table) (t : Token) :
    Table.Shut (Function.update w t ((w t).map fun g => { g with revoked := true })) t := by
  intro g hg
  rw [Function.update_self] at hg
  obtain ⟨g0, -, rfl⟩ := Option.map_eq_some_iff.mp hg
  rfl

theorem Table.Shut.step (hw : w.Shut t) (hserve : w.Serves e w') (he : ∀ bits, e.req ≠ .register t bits) :
    ShutOut t e ∧ w'.Shut t := by
  rcases e with ⟨r, x⟩
  cases r with
  | lookup t' =>
    obtain ⟨rfl, rfl⟩ := hserve
    exact ⟨fun ht g hg => hw g (ht ▸ hg), hw⟩
  | register t' bits =>
    obtain rfl : w' = Function.update w t' (some ⟨bits, false⟩) := hserve
    have ht : t ≠ t' := fun ht => he bits (by rw [ht])
    exact ⟨trivial, fun g hg => hw g (by rwa [Function.update_of_ne ht] at hg)⟩
  | revoke t' =>
    obtain rfl : w' = Function.update w t' ((w t').map fun g => { g with revoked := true }) := hserve
    refine ⟨trivial, ?_⟩
    by_cases ht : t = t'
    · subst ht
      exact .revoked w t
    · exact fun g hg => hw g (by rwa [Function.update_of_ne ht] at hg)
  | call msg | cancelled | newToken | emit ev | send toAddr calldata =>
    obtain rfl : w' = w := hserve
    exact ⟨trivial, hw⟩

theorem Table.Shut.path (hw : w.Shut t) (h : Path (PoolStep Table.Serves fun _ _ _ => False) w more w')
    (hissued : ∀ i bits, .proc i ⟨.register t bits, ()⟩ ∉ more) : ∀ i e, .proc i e ∈ more → ShutOut t e := by
  induction h with
  | nil w =>
    intro i e he
    cases he
  | @cons w w1 w2 a more hstep _ ih =>
    cases a with
    | env a => exact a.elim
    | proc j e =>
      have he : ∀ bits, e.req ≠ .register t bits := by
        rintro bits hreq
        rcases e with ⟨r, x⟩
        cases hreq
        exact hissued j bits List.mem_cons_self
      obtain ⟨hrefused, hw1⟩ := hw.step hstep he
      intro i e' he'
      rcases List.mem_cons.mp he' with hhead | htail
      · cases hhead
        exact hrefused
      · exact ih hw1 (fun i bits hmem => hissued i bits (List.mem_cons_of_mem _ hmem)) i e' htail

end Rest

/-- **When closing a session is final.**  In any run of any operations on the connection, with any answers of the
server, `Close` revokes the token `t`, which is not issued again. An operation of the session that was idle
then makes no call any more: neither one that had begun, nor one that begins later. -/
theorem close_final {ι : Type} [DecidableEq ι] (sha256 : List UInt8 → ID) (dex : Session) (ops : ι → Operation)
    (log more : List (Line ι Empty dexSig)) (w : Table) (t : Token) (close : ι)
    (h : SessionRun sha256 dex ops (log ++ .proc close ⟨.revoke t, ()⟩ :: more) w)
    (hissued : ∀ i bits, .proc i ⟨.register t bits, ()⟩ ∉ more)
    (i : ι) (op : V4Op) (hop : ops i = .v4 op) (hown : op.Uses (· = t))
    (hidle : op.Idle sha256 dex t (traceOf i log)) :
    ∀ msg answer, .proc i ⟨.call msg, answer⟩ ∉ more := by
  intro msg answer hmem
  obtain ⟨w₁, -, hrest⟩ := h.upto
  obtain ⟨w₂, hrevoke, hmore⟩ := Path.cons_iff.mp hrest
  obtain rfl : w₂ = Function.update w₁ t ((w₁ t).map fun g => { g with revoked := true }) := hrevoke
  have hrefused := (Table.Shut.revoked w₁ t).path hmore hissued
  obtain ⟨q', hq'⟩ := h.procs i
  rw [traceOf_append, hop] at hq'
  obtain ⟨q, hq, hq''⟩ := hq'.split
  -- `Close` itself may be counted among the events of the operation
  have hall : ∀ e ∈ traceOf (S := dexSig) i (.proc close ⟨.revoke t, ()⟩ :: more), ShutOut t e := by
    intro e he
    rcases List.mem_cons.mp (mem_traceOf.mp he) with hhead | htail
    · cases hhead
      trivial
    · exact hrefused i e htail
  have hcalls := ((hidle.quiet hown hq).reach hq'' hall).1
  exact hcalls _ (mem_traceOf.mpr (List.mem_cons_of_mem _ hmem)) trivial

/-! ## A sale that is closed -/

def saleCap : ScopedCap := (V4Request.swap (sellNonce 1)).cap lastByte
  (newV4PrecompileSession trader (deployment (.zero 32))) ⟨.zero 20, addr9999, 3000, 60, .zero 20⟩ (fill 1)

def saleID : ID := (V4Request.swap (sellNonce 1)).identity.id lastByte

def salePrepare : V4Op := .prepare (.swap ⟨saleCap, sellNonce 1, saleID⟩)

def saleSettlement : V4Op := .settlement saleCap saleID (.ok { DExportRef.zero with intentID := saleID })

def saleOps : Fin 4 → Operation
  | 0 => .openSession (deployment (.zero 32)) (.swap (sellNonce 1))
  | 1 => .v4 salePrepare
  | 2 => .v4 saleSettlement
  | 3 => .revoke (fill 1)

def saleQuoteCall : Message := made (buildQuoteRequest (sellNonce 1).quote)

def settleCall : Message := made (buildDExportRef { DExportRef.zero with intentID := saleID })

def saleLog : List (Line (Fin 4) Empty dexSig) :=
  [.proc 0 ⟨.newToken, fill 1⟩, .proc 0 ⟨.register (fill 1) saleCap.core.bits, ()⟩,
    .proc 1 ⟨.lookup (fill 1), some ⟨saleCap.core.bits, false⟩⟩]

def saleQuoted : List (Line (Fin 4) Empty dexSig) :=
  saleLog ++ [.proc 1 ⟨.cancelled, false⟩, .proc 1 ⟨.call saleQuoteCall, none⟩]

/-- Closed when the quote has been called for and the settlement has not begun: neither makes a call any more. -/
theorem sale_closed :
    (∃ w, SessionRun lastByte trader saleOps (saleQuoted ++ [.proc 3 ⟨.revoke (fill 1), ()⟩]) w) ∧
    ∀ more w, SessionRun lastByte trader saleOps (saleQuoted ++ .proc 3 ⟨.revoke (fill 1), ()⟩ :: more) w →
      (∀ i bits, .proc i ⟨.register (fill 1) bits, ()⟩ ∉ more) →
      ∀ msg answer, .proc 1 ⟨.call msg, answer⟩ ∉ more ∧ .proc 2 ⟨.call msg, answer⟩ ∉ more := by
  constructor
  · have hprocs : ∀ i, (((saleOps i).body lastByte trader).run.follow
        (traceOf i (saleQuoted ++ [.proc 3 ⟨.revoke (fill 1), ()⟩]))).isSome := by decide +kernel
    refine ⟨_, .cons rfl (.cons rfl (.cons ⟨?_, rfl⟩ (.cons rfl (.cons rfl (.cons rfl (.nil _)))))), fun i =>
      Prog.reach_of_follow (hprocs i)⟩
    simp
  · intro more w h hissued msg answer
    refine ⟨close_final lastByte trader saleOps saleQuoted more w (fill 1) 3 h hissued 1 salePrepare rfl rfl ?_ msg
      answer, close_final lastByte trader saleOps saleQuoted more w (fill 1) 3 h hissued 2 saleSettlement rfl rfl ?_
      msg answer⟩
    · refine .inr (.inr ⟨[⟨.lookup (fill 1), some ⟨saleCap.core.bits, false⟩⟩, ⟨.cancelled, false⟩], saleQuoteCall,
        none, [], rfl, fun e he => ?_⟩)
      cases he
    · refine .inr (.inl fun e he => ?_)
      cases he

/-- Closed while the preparation and the settlement are past their checks: the calls are made all the same. The
context was done before the quote was called for, so the intent had been returned when the session was closed. -/
theorem sale_called_after_close : ∃ log more w,
    SessionRun lastByte trader saleOps (log ++ .proc 3 ⟨.revoke (fill 1), ()⟩ :: more) w ∧
    .proc 1 ⟨.call saleQuoteCall, none⟩ ∈ more ∧ .proc 2 ⟨.call settleCall, none⟩ ∈ more := by
  let log : List (Line (Fin 4) Empty dexSig) := saleLog ++ [.proc 1 ⟨.cancelled, true⟩,
    .proc 2 ⟨.lookup (fill 1), some ⟨saleCap.core.bits, false⟩⟩]
  let more : List (Line (Fin 4) Empty dexSig) := [.proc 1 ⟨.call saleQuoteCall, none⟩, .proc 2 ⟨.cancelled, false⟩,
    .proc 2 ⟨.cancelled, false⟩, .proc 2 ⟨.call settleCall, none⟩]
  have hprocs : ∀ i, (((saleOps i).body lastByte trader).run.follow
      (traceOf i (log ++ .proc 3 ⟨.revoke (fill 1), ()⟩ :: more))).isSome := by decide +kernel
  refine ⟨log, more, _, ⟨.cons rfl (.cons rfl (.cons ⟨?_, rfl⟩ (.cons rfl (.cons ⟨?_, rfl⟩ (.cons rfl (.cons rfl
    (.cons rfl (.cons rfl (.cons rfl (.nil _)))))))))), fun i => Prog.reach_of_follow (hprocs i)⟩, by simp [more],
    by simp [more]⟩
  · simp
  · simp

end Zap.Dex
