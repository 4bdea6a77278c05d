/-
# Zap.Dex.Flow — the pipelines: `pipeline.go` and `Run` of a swap session.

A flow is a handful of goroutines, one for each promise (`Stage`), that run over the requests of a session and
the promises of each other. Besides the five promises a flow returns there are those in between: the intent once
the sender or the guard has let it pass, the quote inside the preparation, the stream behind the commit, and the
guarded ref. The three flows of the source differ in what is checked and in what lies between (`Plan`).

A method's check of the grant or the capability is made where its goroutine starts, and a guard is there even if
the check before it fails: the schedules of the source are among those of the model.
-/
import Zap.Dex.Operations
import Zap.Lib.Promise

namespace Zap.Dex

open Zap.Lib Zap.Wire Proc

/-! ## Stages -/

inductive Stage
  /-- `FlowStages.Quote` -/
  | quote
  /-- `FlowStages.Intent` -/
  | intent
  /-- The quote of `prepareLocal`. -/
  | inner
  /-- `funded` of a managed flow, `guarded` of `WriteNotifyCToDExport`. -/
  | passed
  /-- `FlowStages.Watch` -/
  | watch
  /-- `FlowStages.Committed` -/
  | committed
  /-- The promise of `OnCommitted`. -/
  | stream
  /-- `guarded` of `WritePrepareCSettlement`. -/
  | guarded
  /-- `FlowStages.Settle` -/
  | settle
  deriving DecidableEq

@[reducible]
def Stage.Value : Stage → Type
  | .quote | .inner => QuoteResult
  | .intent | .passed => PreparedIntent
  | .watch => IntentWatch
  | .committed | .stream | .guarded => DExportRef
  | .settle => SettlementSubmitResult

@[reducible]
def Stage.Arg : Stage → Type
  | .stream => IntentWatch
  | _ => Unit

instance : ∀ k : Stage, DecidableEq k.Value
  | .quote | .inner => inferInstanceAs (DecidableEq QuoteResult)
  | .intent | .passed => inferInstanceAs (DecidableEq PreparedIntent)
  | .watch => inferInstanceAs (DecidableEq IntentWatch)
  | .committed | .stream | .guarded => inferInstanceAs (DecidableEq DExportRef)
  | .settle => inferInstanceAs (DecidableEq SettlementSubmitResult)

instance : ∀ k : Stage, DecidableEq k.Arg
  | .stream => inferInstanceAs (DecidableEq IntentWatch)
  | .quote | .intent | .inner | .passed | .watch | .committed | .guarded | .settle =>
    inferInstanceAs (DecidableEq Unit)

@[reducible]
def flowSig : Sig := promiseSig dexSig DexError Stage.Value Stage.Arg

abbrev FlowOp := Proc flowSig DexError

/-- A goroutine that panics, or that polls on, does not fulfil its promise. -/
def Delivers : DexError → Prop
  | .panicked _ | .polling => False
  | _ => True

instance : DecidablePred Delivers
  | .panicked _ | .polling => .isFalse not_false
  | .noAuthority | .revoked | .scopeMismatch | .scopeUnset | .message _ | .rejected _ | .sendFailed | .wire _
  | .callFailed | .contextDone => .isTrue trivial

def awaitStage (k : Stage) : FlowOp k.Value := awaitFor .contextDone k

structure Plan where
  req : SwapIntentRequest
  /-- The check of the capability in the methods of a V4 session. -/
  check : Authority → Op Unit
  /-- What the intent goes through before D is notified. -/
  pass : Option (PreparedIntent → Op PreparedIntent)
  /-- What the ref goes through before it is settled. -/
  guard : Option (DExportRef → Op DExportRef)

def swapFlow (req : SwapIntentRequest) : Plan := ⟨req, fun _ => pure (), none, none⟩

def swapFlowWithSender (req : SwapIntentRequest) (given : Bool) : Plan :=
  ⟨req, fun _ => pure (), some (sendIntent given), none⟩

section Bodies

variable (sha256 : List UInt8 → ID)

def V4SwapSession.run (v : V4SwapSession) : Plan :=
  ⟨v.req, v.cap.authorizeSelf sha256, some (guardIntent v.intentID), some (guardRef v.intentID)⟩

variable (s : Session)

namespace Plan

variable (plan : Plan)

/-- The estimate of `prepareLocal`: a quote is started and awaited, and its failure is of no account. -/
def estimate : FlowOp UInt64 := do
  Proc.request (S := flowSig) (.spawn .inner ())
  match ← (ExceptT.lift (awaitStage .inner).run : FlowOp (Except DexError QuoteResult)) with
  | .ok qr => return qr.amountOut
  | .error _ => return 0

def handed : FlowOp PreparedIntent :=
  match plan.pass with
  | none => awaitStage .intent
  | some _ => awaitStage .passed

def claimed : FlowOp DExportRef :=
  match plan.guard with
  | none => awaitStage .committed
  | some _ => awaitStage .guarded

/-- `OnCommitted(ctx).Await(ctx)`, or `OnExportReady`: a promise that has failed already is awaited like any. -/
def commit (w : IntentWatch) : FlowOp DExportRef := do
  match ← base (promise (do
    plan.check authWatch
    s.requireGrant authWatch)) with
  | .error e => base (await (.error e))
  | .ok _ =>
    Proc.request (S := flowSig) (.spawn .stream w)
    awaitStage .stream

def body (rounds : Nat) : (k : Stage) → Option (FlowOp k.Value)
  | .quote => some (base (s.quote plan.req.quote))
  | .intent => some do
    base (plan.check authIntent)
    base (s.requireGrant authIntent)
    s.prepareLocal sha256 estimate plan.req
  | .inner => some do
    Proc.request (S := flowSig) (.started .inner)
    base (s.quote plan.req.quote)
  | .passed => plan.pass.map fun f => do
    let pi ← awaitStage .intent
    base (f pi)
  | .watch => some do
    base (plan.check authIntent)
    let pi ← plan.handed
    base (s.notify pi)
  | .committed => some do
    let w ← awaitStage .watch
    plan.commit s w
  | .stream => some do
    let w ← Proc.request (S := flowSig) (.started .stream)
    base (s.streamUntilCommitted w rounds)
  | .guarded => plan.guard.map fun f => do
    let ref ← awaitStage .committed
    base (f ref)
  | .settle => some do
    base (plan.check authSettlement)
    let ref ← plan.claimed
    base (s.settle ref)

end Plan

end Bodies

abbrev FlowRun {ο : Type} [DecidableEq ο] (sha256 : List UInt8 → ID) (s : Session) (plan : Plan) (rounds : Nat)
    (others : ο → Prog flowSig Unit) (log : List (Line (Stage ⊕ ο) Empty flowSig))
    (w : Promises DexError Stage.Value Stage.Arg) : Prop :=
  PromiseRun (crew Delivers (plan.body sha256 s rounds) others) log w

/-! ## What the stages ask for -/

def Stage.callType : Stage → Option Nat
  | .quote | .inner => some msgQuote
  | .watch => some msgNotify
  | .stream => some msgWatchPoll
  | .settle => some msgImport
  | .intent | .passed | .committed | .guarded => none

def Stage.parent : Stage → Option Stage
  | .inner => some .intent
  | .stream => some .committed
  | _ => none

/-- Other programs await promises and talk to the server; a promise can be fulfilled from within alone. -/
def Meddles : flowSig.Req → Prop
  | .fulfil _ _ | .spawn _ _ | .started _ => True
  | .base _ | .await _ => False

/-- No call is made between the stages, and what passes is not changed. -/
structure Plan.Plain (plan : Plan) : Prop where
  check : ∀ need, Spares (fun _ => True) IsCall (plan.check need)
  pass : ∀ f, plan.pass = some f → ∀ pi, Spares (fun _ => True) IsCall (f pi)
  passed : ∀ f, plan.pass = some f → ∀ pi tr pi', Yields (f pi) tr pi' → pi' = pi
  guard : ∀ f, plan.guard = some f → ∀ ref, Spares (fun _ => True) IsCall (f ref)

variable {pi : PreparedIntent}

theorem yields_sendIntent {given : Bool} {pi' : PreparedIntent} {tr : List (Ev dexSig)} :
    Yields (sendIntent given pi) tr pi' ↔ given = true ∧ tr = [⟨.send pi.toAddr pi.calldata, true⟩] ∧ pi' = pi := by
  cases given with
  | false => exact iff_of_false yields_throw nofun
  | true =>
    constructor
    · intro h
      obtain ⟨tr1, tr2, sent, rfl, hsend, hrest⟩ := yields_bind.mp h
      obtain rfl := yields_ask.mp hsend
      cases sent with
      | false => exact absurd hrest yields_throw
      | true =>
        obtain ⟨rfl, rfl⟩ := yields_pure.mp hrest
        exact ⟨rfl, rfl, rfl⟩
    · rintro ⟨-, rfl, rfl⟩
      exact yields_bind.mpr ⟨_, [], true, rfl, yields_ask.mpr rfl, yields_pure.mpr ⟨rfl, rfl⟩⟩

theorem swapFlow_plain (req : SwapIntentRequest) : (swapFlow req).Plain where
  check _ := spares_pure
  pass := nofun
  passed := nofun
  guard := nofun

theorem swapFlowWithSender_plain (req : SwapIntentRequest) (given : Bool) :
    (swapFlowWithSender req given).Plain where
  check _ := spares_pure
  pass := by
    rintro f hf pi
    cases hf
    cases given with
    | false => exact spares_throw
    | true =>
      refine (spares_ask not_false).bind fun sent => ?_
      cases sent with
      | true => exact spares_pure
      | false => exact spares_throw
  passed := by
    rintro f hf pi tr pi' h
    cases hf
    exact (yields_sendIntent.mp h).2.2
  guard := nofun

theorem V4SwapSession.run_plain (sha256 : List UInt8 → ID) (v : V4SwapSession) : (v.run sha256).Plain where
  check _ := spares_authorizeSelf not_false
  pass := by
    rintro f hf pi
    cases hf
    exact spares_guardIntent _ _
  passed := by
    rintro f hf pi tr pi' h
    cases hf
    unfold guardIntent at h
    split_ifs at h
    · exact absurd h yields_throw
    · exact (yields_pure.mp h).2.symm
  guard := by
    rintro f hf ref
    cases hf
    exact spares_guardRef _ _

section Requests

variable {sha256 : List UInt8 → ID} {s : Session} {plan : Plan} {rounds : Nat} {bad : flowSig.Req → Prop}
  {k : Stage}

/-- **What a stage may ask for**: calls of its own type, its children, and promises. -/
theorem Plan.body_avoids (hplan : plan.Plain) {p : FlowOp k.Value} (hp : plan.body sha256 s rounds k = some p)
    (hcall : ∀ msg, k.callType = some (msgType msg) → ¬bad (.base (.call msg)))
    (hbase : ∀ r, ¬IsCall r → ¬bad (.base r)) (hawait : ∀ j, ¬bad (.await j)) (hstarted : ∀ j, ¬bad (.started j))
    (hspawn : ∀ j a, j.parent = some k → ¬bad (.spawn j a)) : Avoids bad p := by
  -- an operation without calls has only requests that are never in `bad`
  have hsilent : ∀ {α : Type} {q : Op α}, Spares (fun _ => True) IsCall q →
      Avoids (S := flowSig) bad (base q : FlowOp α) := by
    intro α q hq
    exact avoids_base (hq.avoids.mono fun r hr => by_contra fun hcall => hbase r hcall hr)
  have hgrant : ∀ need, Avoids (S := flowSig) bad (base (s.requireGrant need) : FlowOp Unit) :=
    fun need => hsilent spares_requireGrant
  have hstage : ∀ j, Avoids bad (awaitStage j) := fun j => avoids_awaitFor (hawait j)
  have hcancelled : ¬bad (.base .cancelled) := hbase _ not_false
  have htype : ∀ {msg t}, k.callType = some t → msgType msg = t → ¬bad (.base (.call msg)) :=
    fun hk ht => hcall _ (hk.trans (congrArg some ht.symm))
  cases k with
  | quote =>
    cases hp
    exact avoids_base (spares_quote _ fun _ msg hm => htype rfl (quoteRequest_tagged _ msg hm)).avoids
  | inner =>
    cases hp
    refine (avoids_request (hstarted _)).bind fun _ => ?_
    exact avoids_base (spares_quote _ fun _ msg hm => htype rfl (quoteRequest_tagged _ msg hm)).avoids
  | intent =>
    cases hp
    refine (hsilent (hplan.check _)).bind fun _ => (hgrant _).bind fun _ => ?_
    unfold Session.prepareLocal
    split_ifs
    · exact avoids_throw
    split
    · exact avoids_throw
    refine .bind ?_ fun _ => avoids_pure
    refine (avoids_request (hspawn _ _ rfl)).bind fun _ => (avoids_lift (hstage .inner)).bind fun r => ?_
    cases r with
    | ok qr | error e => exact avoids_pure
  | passed =>
    obtain ⟨f, hf, rfl⟩ := Option.map_eq_some_iff.mp hp
    exact (hstage .intent).bind fun pi => hsilent (hplan.pass f hf pi)
  | watch =>
    cases hp
    refine (hsilent (hplan.check _)).bind fun _ => .bind ?_ fun pi => ?_
    · unfold Plan.handed
      split
      · exact hstage .intent
      · exact hstage .passed
    · exact avoids_base (spares_notify _ fun _ msg hm => htype rfl (preparedIntent_tagged _ (by decide) msg hm)).avoids
  | committed =>
    cases hp
    refine (hstage .watch).bind fun w => ?_
    refine (hsilent (spares_promise ((hplan.check _).bind fun _ => spares_requireGrant))).bind fun r => ?_
    cases r with
    | error e => exact hsilent (spares_await not_false)
    | ok _ => exact (avoids_request (hspawn _ _ rfl)).bind fun _ => hstage .stream
  | stream =>
    cases hp
    refine (avoids_request (hstarted _)).bind fun w => avoids_base (spares_pollUntil hcancelled ?_ _).avoids
    exact spares_poll _ fun _ msg hm => htype rfl (watchPollRequest_tagged _ msg hm)
  | guarded =>
    obtain ⟨f, hf, rfl⟩ := Option.map_eq_some_iff.mp hp
    exact (hstage .committed).bind fun ref => hsilent (hplan.guard f hf ref)
  | settle =>
    cases hp
    refine (hsilent (hplan.check _)).bind fun _ => .bind ?_ fun ref => ?_
    · unfold Plan.claimed
      split
      · exact hstage .committed
      · exact hstage .guarded
    · exact avoids_base (spares_settle _ fun _ msg hm => htype rfl (dExportRef_tagged _ msg hm)).avoids

end Requests

/-! ## What the stages have done -/

section Stages

variable {ο : Type} [DecidableEq ο] {sha256 : List UInt8 → ID} {s : Session} {plan : Plan} {rounds : Nat}
  {others : ο → Prog flowSig Unit} {log : List (Line (Stage ⊕ ο) Empty flowSig)}
  {w : Promises DexError Stage.Value Stage.Arg}

theorem Plan.Plain.fulfils_nothing (hplan : plan.Plain) (k : Stage) (p : FlowOp k.Value)
    (hp : plan.body sha256 s rounds k = some p) : Avoids IsFulfil p :=
  Plan.body_avoids hplan hp (fun _ _ => not_false) (fun _ _ => not_false) (fun _ => not_false) (fun _ => not_false)
    fun _ _ _ => not_false

theorem fulfils_nothing {p : Prog flowSig Unit} (h : Prog.Never Meddles p) : Prog.Never IsFulfil p := by
  refine h.mono fun r hr => ?_
  cases r with
  | fulfil k v => trivial
  | _ => exact hr.elim

variable (hplan : plan.Plain) (hothers : ∀ o, Prog.Never Meddles (others o)) {x : Option (List UInt8)} {msg : Message}
  {k j : Stage} {c : Stage ⊕ ο} {ref : DExportRef} (h : FlowRun sha256 s plan rounds others log w)

include hplan h

/-- The type of a call tells the stage, but for the two quotes. -/
theorem FlowRun.call_type (hmem : .proc (.inl k) ⟨.base (.call msg), x⟩ ∈ log) : k.callType = some (msgType msg) := by
  by_contra hne
  obtain ⟨p, tr, p', hp, hreach, hin, -⟩ := h.stage_event hmem not_false
  have havoids : Avoids (S := flowSig) (fun r => r = .base (.call msg)) p := by
    refine Plan.body_avoids hplan hp ?_ ?_ nofun nofun nofun
    · rintro msg' htype heq
      cases heq
      exact hne htype
    · rintro r hr heq
      cases heq
      exact hr trivial
  exact havoids.reach hreach _ hin rfl

/-- A call of a stage that checks, awaits and then operates is made by its operation, on what it awaited. -/
theorem FlowRun.call_behind {α : Type} {need : Authority} {source : FlowOp α} {op : α → Op k.Value}
    (hk : plan.body sha256 s rounds k = some (do
      base (plan.check need)
      let a ← source
      base (op a))) (hmem : .proc (.inl k) ⟨.base (.call msg), x⟩ ∈ log)
    (hsource : Avoids (S := flowSig) (fun r => r = .base (.call msg)) source) :
    ∃ a tr, Yields source tr a ∧ (∀ e ∈ tr, .proc (.inl k) e ∈ log) ∧
      ∃ tr0 q0, Prog.Reach (op a).run tr0 q0 ∧ ⟨DexReq.call msg, x⟩ ∈ tr0 := by
  obtain ⟨p, tr, p', hp, hreach, hin, htr⟩ := h.stage_event hmem not_false
  cases hk.symm.trans hp
  have hcheck : Avoids (S := flowSig) (fun r => r = .base (.call msg)) (base (plan.check need) : FlowOp Unit) := by
    refine avoids_base ((hplan.check need).avoids.mono fun r hr => ?_)
    cases hr
    trivial
  obtain ⟨tr1, tr2, u, rfl, -, h1, -, hkeep1⟩ := reach_past hreach hcheck (.inl ⟨_, hin, rfl⟩)
  have hin1 := hkeep1 _ hin rfl
  obtain ⟨tr3, tr4, a, rfl, ha, h2, -, hkeep2⟩ := reach_past h1 hsource (.inl ⟨_, hin1, rfl⟩)
  have hin2 := hkeep2 _ hin1 rfl
  refine ⟨a, tr3, ha, fun e he => mem_traceOf.mp (htr.subset (by simp [he])), ?_⟩
  obtain ⟨tr0, q0, rfl, hop, -⟩ := Prog.reach_embed h2
  refine ⟨tr0, q0, hop, ?_⟩
  obtain ⟨⟨r, y⟩, he, heq⟩ := List.mem_map.mp hin2
  cases heq
  exact he

theorem FlowRun.notify_call (hmem : .proc (.inl .watch) ⟨.base (.call msg), x⟩ ∈ log) :
    ∃ pi tr, Yields plan.handed tr pi ∧ (∀ e ∈ tr, .proc (.inl .watch) e ∈ log) ∧
      buildPreparedIntent pi msgNotify = .ok (.ok msg) := by
  have hhanded : Avoids (S := flowSig) (fun r => r = .base (.call msg)) plan.handed := by
    unfold Plan.handed
    split
    · exact avoids_awaitFor nofun
    · exact avoids_awaitFor nofun
  obtain ⟨pi, tr, hpi, htr, tr0, q0, hnotify, hin⟩ := h.call_behind hplan rfl hmem hhanded
  refine ⟨pi, tr, hpi, htr, ?_⟩
  by_contra hne
  have havoids : Avoids (fun r => r = DexReq.call msg) (s.notify pi) := by
    refine Spares.avoids (spares_notify pi fun _ msg' hmsg' heq => ?_)
    cases heq
    exact hne hmsg'
  exact havoids.reach hnotify _ hin rfl

theorem FlowRun.settle_call (hmem : .proc (.inl .settle) ⟨.base (.call msg), x⟩ ∈ log) :
    ∃ ref tr, Yields plan.claimed tr ref ∧ ∀ e ∈ tr, .proc (.inl .settle) e ∈ log := by
  have hclaimed : Avoids (S := flowSig) (fun r => r = .base (.call msg)) plan.claimed := by
    unfold Plan.claimed
    split
    · exact avoids_awaitFor nofun
    · exact avoids_awaitFor nofun
  obtain ⟨ref, tr, href, htr, -⟩ := h.call_behind hplan rfl hmem hclaimed
  exact ⟨ref, tr, href, htr⟩

include hothers

theorem FlowRun.spawned_by {a : j.Arg} (hmem : .proc c ⟨.spawn j a, ()⟩ ∈ log) :
    ∃ k, c = .inl k ∧ j.parent = some k := by
  cases c with
  | inr o =>
    obtain ⟨q, hq⟩ := h.procs (.inr o)
    exact absurd trivial ((hothers o).reach hq _ (mem_traceOf.mpr hmem))
  | inl k =>
    refine ⟨k, rfl, ?_⟩
    by_contra hne
    obtain ⟨p, tr, p', hp, hreach, hin, -⟩ := h.stage_event hmem not_false
    have havoids : Avoids (S := flowSig) (fun r => r = .spawn j a) p := by
      refine Plan.body_avoids hplan hp nofun nofun nofun nofun ?_
      rintro j' a' hparent heq
      cases heq
      exact hne hparent
    exact havoids.reach hreach _ hin rfl

/-- A goroutine with a parent has been started by it before it does anything. -/
theorem FlowRun.child_spawned (hparent : j.parent = some k) {r : DexReq} {x : r.Resp}
    (hmem : .proc (.inl j) ⟨.base r, x⟩ ∈ log) : ∃ a, .proc (.inl k) ⟨.spawn j a, ()⟩ ∈ log := by
  obtain ⟨p, tr, p', hp, hreach, hin, htr⟩ := h.stage_event hmem not_false
  -- the body of a child begins by waiting to be started
  have hstarted : ∃ a, (⟨.started j, a⟩ : Ev flowSig) ∈ tr := by
    cases j with
    | inner | stream =>
      cases hp
      rcases reach_request hreach with rfl | ⟨a, tr', rfl, -⟩
      · cases hin
      · exact ⟨a, List.mem_cons_self⟩
    | _ => cases hparent
  obtain ⟨a, ha⟩ := hstarted
  obtain ⟨c, hc⟩ := h.started (mem_traceOf.mp (htr.subset ha))
  obtain ⟨k', rfl, hk'⟩ := h.spawned_by hplan hothers hc
  cases hparent.symm.trans hk'
  exact ⟨a, hc⟩

/-- What a promise holds is what its stage came to, and then the stage was over. -/
theorem FlowRun.came_to {v : k.Value} (hval : w.val k = some (.ok v)) : ∃ p tr, plan.body sha256 s rounds k = some p ∧
    traceOf (.inl k) log = tr ++ [⟨.fulfil k (.ok v), ()⟩] ∧ Yields p tr v ∧ ∀ e ∈ tr, .proc (.inl k) e ∈ log := by
  obtain ⟨p, tr, hp, htrace, hrun, -⟩ := h.holds hplan.fulfils_nothing (fun o => fulfils_nothing (hothers o)) hval
  exact ⟨p, tr, hp, htrace, hrun, fun e he => mem_traceOf.mp (by simp [htrace, he])⟩

theorem FlowRun.passed_run {f : PreparedIntent → Op PreparedIntent} (hf : plan.pass = some f)
    (hval : w.val .passed = some (.ok pi)) : w.val .intent = some (.ok pi) ∧
      ∃ tr, Yields (f pi) tr pi ∧ ∀ e ∈ tr, .proc (.inl .passed) e.base ∈ log := by
  obtain ⟨p, tr, hp, -, hrun, hin⟩ := h.came_to hplan hothers hval
  obtain ⟨f', hf', rfl⟩ := Option.map_eq_some_iff.mp hp
  cases hf.symm.trans hf'
  obtain ⟨tr1, tr2, pi0, rfl, hawait, hpass⟩ := yields_bind.mp hrun
  obtain rfl := yields_awaitFor.mp hawait
  obtain ⟨tr0, rfl, hyields⟩ := yields_base.mp hpass
  obtain rfl := hplan.passed f hf _ _ _ hyields
  refine ⟨h.awaited (hin _ (by simp)), tr0, hyields, fun e he => hin _ ?_⟩
  exact List.mem_append_right _ (List.mem_map_of_mem he)

theorem FlowRun.handed_intent {tr : List (Ev flowSig)} (hhanded : Yields plan.handed tr pi)
    (hin : ∀ e ∈ tr, .proc c e ∈ log) : w.val .intent = some (.ok pi) := by
  unfold Plan.handed at hhanded
  cases hpass : plan.pass with
  | none =>
    rw [hpass] at hhanded
    obtain rfl := yields_awaitFor.mp hhanded
    exact h.awaited (hin _ List.mem_cons_self)
  | some f =>
    rw [hpass] at hhanded
    obtain rfl := yields_awaitFor.mp hhanded
    exact (h.passed_run hplan hothers hpass (h.awaited (hin _ List.mem_cons_self))).1

theorem FlowRun.committed_run (hval : w.val .committed = some (.ok ref)) : w.val .stream = some (.ok ref) ∧
    ∃ wt, w.val .watch = some (.ok wt) ∧ .proc (.inl .committed) ⟨.spawn .stream wt, ()⟩ ∈ log := by
  obtain ⟨_, tr, ⟨⟩, -, hrun, hin⟩ := h.came_to hplan hothers hval
  obtain ⟨tr1, tr2, wt, rfl, hawait, hcommit⟩ := yields_bind.mp hrun
  obtain rfl := yields_awaitFor.mp hawait
  obtain ⟨tr3, tr4, r, rfl, -, hrest⟩ := yields_bind.mp hcommit
  cases r with
  | error e =>
    obtain ⟨tr0, rfl, hfail⟩ := yields_base.mp hrest
    cases (yields_await.mp hfail).2
  | ok u =>
    obtain ⟨tr5, tr6, u, rfl, hspawn, hstream⟩ := yields_bind.mp hrest
    obtain rfl := yields_request.mp hspawn
    obtain rfl := yields_awaitFor.mp hstream
    exact ⟨h.awaited (hin _ (by simp)), wt, h.awaited (hin _ (by simp)), hin _ (by simp)⟩

theorem FlowRun.stream_run (hval : w.val .stream = some (.ok ref)) :
    ∃ wt tr, .proc (.inl .stream) ⟨.started .stream, wt⟩ ∈ log ∧ Yields (s.streamUntilCommitted wt rounds) tr ref ∧
      ∀ e ∈ tr, .proc (.inl .stream) e.base ∈ log := by
  obtain ⟨_, tr, ⟨⟩, -, hrun, hin⟩ := h.came_to hplan hothers hval
  obtain ⟨tr1, tr2, wt, rfl, hstart, hstream⟩ := yields_bind.mp hrun
  obtain rfl := yields_request.mp hstart
  obtain ⟨tr0, rfl, hyields⟩ := yields_base.mp hstream
  refine ⟨wt, tr0, hin _ (by simp), hyields, fun e he => hin _ ?_⟩
  exact List.mem_append_right _ (List.mem_map_of_mem he)

end Stages

end Zap.Dex
