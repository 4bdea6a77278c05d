/-
# Zap.Dex.Confine — the guards between V4 sessions.

A session is opened for one action, and its notify and settlement methods are guarded against what belongs to
another. The guards compare intent ids and nothing else of the scope.

Refusal is read over every run in which the capability is live and the context does not end; there is always
one, so a refusal is never an empty statement.
-/
import Zap.Dex.Scope

namespace Zap.Dex

open Zap.Lib Zap.Wire Proc
open Prog (Ensures)

/-! ## The guards -/

/-- The answers of a run in which a capability is live and the context does not end. -/
def Live (c : Session.CapCore) : Ev dexSig → Prop
  | ⟨.lookup t, x⟩ => t = c.tok → x = some ⟨c.bits, false⟩
  | ⟨.cancelled, x⟩ => x = false
  | _ => True

/-- **Refused**: with a live capability, all that comes of the operation is a scope mismatch. -/
def Refused {α : Type} (c : Session.CapCore) (p : Op α) : Prop :=
  ∀ tr r, Prog.Runs p.run tr r → (∀ e ∈ tr, Live c e) → r = .error .scopeMismatch

variable {ref : DExportRef} {tr : List (Ev dexSig)} {s : V4Session}

section Guards

variable {sha256 : List UInt8 → ID} {c : Session.CapCore}

theorem live_answers (c : Session.CapCore) : ∀ r : dexSig.Req, ∃ x, Live c ⟨r, x⟩
  | .call _ => ⟨none, trivial⟩
  | .cancelled => ⟨false, rfl⟩
  | .newToken => ⟨.zero 32, trivial⟩
  | .register _ _ => ⟨(), trivial⟩
  | .lookup _ => ⟨some ⟨c.bits, false⟩, fun _ => rfl⟩
  | .revoke _ => ⟨(), trivial⟩
  | .emit _ => ⟨true, trivial⟩
  | .send _ _ => ⟨true, trivial⟩

variable {α β : Type} {p : Op α} {dex : Session} {intentID : ID}

theorem refused_iff : Refused c p ↔ Ensures (Live c) (· = .error .scopeMismatch) p.run := Prog.ensures_iff.symm

/-- An operation that has no mismatch of its own is not refused: some run goes on. -/
theorem not_refused (h : Ensures (Live c) (· ≠ .error .scopeMismatch) p.run) : ¬Refused c p := by
  intro hrefused
  obtain ⟨tr, r, hrun, hlive⟩ := Prog.exists_runs (live_answers c) p.run
  exact Prog.ensures_iff.mp h tr r hrun hlive (hrefused tr r hrun hlive)

variable {cap : ScopedCap} {need : Authority}

theorem ensures_authorizeSelf {Q : Except DexError Unit → Prop}
    (hset : cap.sessionID ≠ .zero 32) (hbound : deriveSessionID sha256 cap.scope = cap.sessionID)
    (hbits : cap.core.bits &&& need = need) :
    Ensures (Live cap.core) Q (cap.authorizeSelf sha256 need).run ↔ Q (.ok ()) := by
  refine ScopedCap.ensures_authorizeScoped.trans ?_
  rw [if_neg hset, if_pos hbits]
  have hpass : scopedResult need (deriveSessionID sha256 cap.scope = cap.sessionID)
      (some ⟨cap.core.bits, false⟩) = .ok () := by
    simp [scopedResult, checkResult, hbound, hbits]
    rfl
  constructor
  · intro h
    rw [← hpass]
    exact h _ fun _ => rfl
  · intro h x hx
    rw [hx rfl, hpass]
    exact h

theorem ensures_thenAsync {p : Except DexError α} {f : α → Op β} {Q : Except DexError β → Prop} :
    Ensures (Live c) Q (thenAsync p f).run ↔ match p with
      | .ok a => Ensures (Live c) Q (f a).run
      | .error e => Q (.error e) := by
  refine ensures_bind.trans (ensures_await.trans ?_)
  constructor
  · rintro ⟨-, h⟩
    cases p <;> exact h rfl
  · intro h
    refine ⟨nofun, fun _ => ?_⟩
    cases p <;> exact h

/-- Neither the building of a message nor a call nor the reading of the reply ends in a mismatch. -/
theorem ensures_exchange {x : Go (Except WireError Message)} {f : Message → Op α}
    (hf : ∀ m, Ensures (Live c) (· ≠ .error .scopeMismatch) (f m).run) :
    Ensures (Live c) (· ≠ .error .scopeMismatch) (do
      let reqMsg ← built x
      let resp ← call reqMsg
      f resp).run := by
  refine ensures_bind.mpr (ensures_built.mpr ?_)
  rcases x with fault | e | m
  · nofun
  · nofun
  refine ensures_bind.mpr (ensures_call.mpr fun answer _ => ?_)
  cases answer with
  | none => nofun
  | some bytes =>
    simp only [callResult]
    cases parse bytes with
    | error e => nofun
    | ok resp => exact hf resp

theorem ensures_granted (hp : Ensures (Live c) (· ≠ .error .scopeMismatch) p.run) :
    Ensures (Live c) (· ≠ .error .scopeMismatch) (do
      dex.requireGrant need
      p).run := by
  refine ensures_bind.mpr (Session.ensures_requireGrant.mpr ?_)
  split_ifs
  · exact hp
  · nofun

theorem ensures_read (x : Go α) : Ensures (Live c) (· ≠ .error .scopeMismatch) (eval x).run := by
  cases x <;> nofun

theorem notify_matches (dex : Session) (pi : PreparedIntent) :
    Ensures (Live c) (· ≠ .error .scopeMismatch) (dex.notify pi).run := by
  refine ensures_granted (ensures_exchange fun resp => ensures_bind.mpr ?_)
  refine (ensures_read (readIntentID resp)).mono ?_
  rintro (e | id) h
  · exact fun he => h (by rw [Except.error.inj he])
  · nofun

theorem settle_matches (dex : Session) (ref : DExportRef) :
    Ensures (Live c) (· ≠ .error .scopeMismatch) (dex.settle ref).run := by
  unfold Session.settle
  generalize buildDExportRef ref = msg
  exact ensures_granted (ensures_exchange fun resp => ensures_read (readSettlementResult resp))

/-- **A guard is exact.**  After the check of a live capability, a guarded stage is refused exactly if what it
is given does not agree with the session. -/
theorem refused_guarded {x : α} {agrees : Prop} [Decidable agrees] {guard : α → Op α} {next : α → Op β}
    (hset : cap.sessionID ≠ .zero 32) (hbound : deriveSessionID sha256 cap.scope = cap.sessionID)
    (hbits : cap.core.bits &&& need = need) (hguard : guard x = if agrees then pure x else throw .scopeMismatch)
    (hnext : Ensures (Live cap.core) (· ≠ .error .scopeMismatch) (next x).run) :
    Refused cap.core (do
      cap.authorizeSelf sha256 need
      let guarded ← promise (thenAsync (.ok x) guard)
      thenAsync guarded next) ↔ ¬agrees := by
  -- what the stage ensures is decided by the guard, since the check and both selects pass
  have hstage : ∀ Q, Ensures (Live cap.core) Q (do
      cap.authorizeSelf sha256 need
      let guarded ← promise (thenAsync (.ok x) guard)
      thenAsync guarded next).run ↔
      if agrees then Ensures (Live cap.core) Q (next x).run else Q (.error .scopeMismatch) := by
    intro Q
    refine ensures_bind.trans ((ensures_authorizeSelf hset hbound hbits).trans ?_)
    refine ensures_bind.trans (ensures_lift.trans (ensures_thenAsync.trans ?_))
    simp only [hguard]
    by_cases h : agrees
    · rw [if_pos h, if_pos h, ensures_pure]
      exact ensures_thenAsync
    · rw [if_neg h, if_neg h, ensures_throw]
      exact ensures_thenAsync
  by_cases h : agrees
  · refine iff_of_false (not_refused ?_) (not_not.mpr h)
    rw [hstage, if_pos h]
    exact hnext
  · refine iff_of_true ?_ h
    rw [refused_iff, hstage, if_neg h]

theorem refused_map {f : α → β} : Refused c (f <$> p) ↔ Refused c p := by
  rw [refused_iff, refused_iff, ensures_map]
  refine ⟨fun h => h.mono ?_, fun h => h.mono ?_⟩
  · rintro (e | a) hr
    · exact congrArg Except.error (Except.error.inj hr)
    · cases hr
  · rintro (e | a) hr
    · exact congrArg Except.error (Except.error.inj hr)
    · cases hr

variable {pi : PreparedIntent}

theorem refused_writeNotify (hset : cap.sessionID ≠ .zero 32)
    (hbound : deriveSessionID sha256 cap.scope = cap.sessionID) (hbits : cap.core.bits &&& authIntent = authIntent) :
    Refused cap.core (writeNotify sha256 dex cap intentID (.ok pi)) ↔ pi.intentID ≠ intentID := by
  refine refused_guarded hset hbound hbits ?_ (notify_matches dex pi)
  by_cases h : pi.intentID = intentID <;> simp [guardIntent, h]

theorem refused_writePrepareCSettlement (hset : cap.sessionID ≠ .zero 32)
    (hbound : deriveSessionID sha256 cap.scope = cap.sessionID)
    (hbits : cap.core.bits &&& authSettlement = authSettlement) :
    Refused cap.core (writePrepareCSettlement sha256 dex cap intentID (.ok ref)) ↔ ref.intentID ≠ intentID := by
  refine refused_guarded hset hbound hbits ?_ (settle_matches dex ref)
  by_cases h : ref.intentID = intentID <;> simp [guardRef, h]

/-- A route's notify method has its guard inside the stage. -/
theorem refused_notifyRoute {s : V4RouteSession}
    (hset : s.cap.sessionID ≠ .zero 32) (hbound : deriveSessionID sha256 s.cap.scope = s.cap.sessionID)
    (hbits : s.cap.core.bits &&& authIntent = authIntent) :
    Refused s.cap.core (s.writeNotifyCToDExport sha256 (.ok pi)) ↔ pi.intentID ≠ s.intentID := by
  have hstage : ∀ Q, Ensures (Live s.cap.core) Q (s.writeNotifyCToDExport sha256 (.ok pi)).run ↔
      Ensures (Live s.cap.core) Q (s.notifyRoute pi).run := by
    intro Q
    refine ensures_bind.trans ((ensures_authorizeSelf hset hbound hbits).trans ?_)
    exact ensures_thenAsync
  by_cases h : pi.intentID = s.intentID
  · refine iff_of_false (not_refused ?_) (not_not.mpr h)
    rw [hstage, V4RouteSession.notifyRoute, guardIntent, if_neg (not_not.mpr h), pure_bind]
    generalize buildRouteRequest s.req = msg
    exact ensures_exchange fun _ => nofun
  · refine iff_of_true ?_ h
    rw [refused_iff, hstage, V4RouteSession.notifyRoute, guardIntent, if_pos h]
    exact ensures_bind.mpr (ensures_throw.mpr rfl)

variable {v : V4PrecompileSession} {pk : PoolKeyArgs} {t : Token} {r : V4Request}

theorem session_cap : (r.session sha256 v pk t).cap = r.cap sha256 v pk t := by
  cases r <;> rfl

theorem session_intentID : (r.session sha256 v pk t).intentID = r.identity.id sha256 := by
  cases r <;> rfl

theorem bits_intent : r.bits &&& authIntent = authIntent := by
  cases r <;> simp only [V4Request.bits] <;> decide

/-- The notify method of an opened session refuses the intents of other ids, and no others. -/
theorem refused_notify (hset : (r.cap sha256 v pk t).sessionID ≠ .zero 32) :
    Refused (r.cap sha256 v pk t).core ((r.session sha256 v pk t).notify sha256 v.dex (.ok pi)) ↔
      pi.intentID ≠ r.identity.id sha256 := by
  cases r with
  | route r => exact refused_map.trans (refused_notifyRoute hset rfl bits_intent)
  | swap r | liquidity r | collect r | cancel r => exact refused_map.trans (refused_writeNotify hset rfl bits_intent)

/-- The settlement method of an opened session refuses the refs of other ids, and no others. -/
theorem refused_settlement {op : Except DexError DExportRef → Op SettlementSubmitResult}
    (hset : (r.cap sha256 v pk t).sessionID ≠ .zero 32)
    (hop : (r.session sha256 v pk t).settlement sha256 v.dex = some op) :
    Refused (r.cap sha256 v pk t).core (op (.ok ref)) ↔ ref.intentID ≠ r.identity.id sha256 := by
  have hbits : (authIntent ||| authWatch ||| authSettlement) &&& authSettlement = authSettlement := by decide
  cases r with
  | liquidity r => cases hop
  | route r | swap r | collect r | cancel r =>
    cases hop
    exact refused_writePrepareCSettlement hset rfl hbits

end Guards

/-! ## Confinement -/

/-- **A ref resolved by a session**, and the id it was watched under: the one of the watch that was handed in
where a promise resolves, and the session's own where a stream carries it. -/
inductive V4Session.Resolves (sha256 : List UInt8 → ID) (dex : Session) : V4Session → ID → DExportRef → Prop
  | ready {s : V4SwapSession} {w : IntentWatch} {rounds : Nat} {tr : List (Ev dexSig)} {ref : DExportRef} :
      Yields (onExportReady sha256 dex s.cap w rounds) tr ref →
      V4Session.Resolves sha256 dex (.swap s) w.intentID ref
  | removed {s : V4CollectSession} {w : IntentWatch} {rounds : Nat} {tr : List (Ev dexSig)}
      {ref : DExportRef} :
      Yields (onExportReady sha256 dex s.cap w rounds) tr ref →
      V4Session.Resolves sha256 dex (.collect s) w.intentID ref
  | final {s : V4RouteSession} {w : RouteWatch} {rounds : Nat} {tr : List (Ev dexSig)} {ref : DExportRef} :
      Yields (s.onFinalExport sha256 w rounds) tr ref →
      V4Session.Resolves sha256 dex (.route s) w.intentID ref
  | streamed {s : V4SwapSession} {w : IntentWatch} {rounds : Nat} {tr : List (Ev dexSig)}
      {q : Prog dexSig (Except DexError Unit)} {ev : V4Event} {sent : Bool} :
      Prog.Reach (s.readStream sha256 dex w rounds).run tr q → ⟨DexReq.emit ev, sent⟩ ∈ tr →
      ev.type = .swapDExportReady → V4Session.Resolves sha256 dex (.swap s) s.intentID ev.ref
  | routed {s : V4RouteSession} {w : RouteWatch} {rounds : Nat} {tr : List (Ev dexSig)}
      {q : Prog dexSig (Except DexError Unit)} {ev : V4Event} {sent : Bool} :
      Prog.Reach (s.readStream sha256 w rounds).run tr q → ⟨DexReq.emit ev, sent⟩ ∈ tr →
      ev.type = .routeDExportReady ∨ ev.type = .routeRefundReady →
      V4Session.Resolves sha256 dex (.route s) s.intentID ev.ref

section Confinement

variable {sha256 : List UInt8 → ID} {dex : Session}

/-- An event of one of these types whose ref is labelled with another id. -/
def Mislabelled (types : List V4MsgType) (id : ID) : DexReq → Prop
  | .emit ev => ev.type ∈ types ∧ ev.ref.intentID ≠ id
  | _ => False

theorem not_mislabelled {types : List V4MsgType} {id : ID} {ev : V4Event}
    (h : ev.type ∈ types → ev.ref.intentID = id) : ¬Mislabelled types id (.emit ev) := by
  rintro ⟨htype, hne⟩
  exact hne (h htype)

theorem swap_labels (s : V4SwapSession) (w : IntentWatch) (rounds : Nat) :
    Spares (fun _ => True) (Mislabelled [.swapDExportReady] s.intentID) (s.readStream sha256 dex w rounds) := by
  have herror : ∀ e, ¬Mislabelled [.swapDExportReady] s.intentID (.emit (s.errorEvent e)) :=
    fun e => not_mislabelled (by simp [V4SwapSession.errorEvent])
  refine spares_orReport (spares_authorizeSelf not_false) herror ?_
  refine spares_stream not_false (spares_unlessDone not_false (spares_poll w fun _ _ _ => not_false)) herror ?_
    rounds false
  intro imported st ev hev
  refine not_mislabelled fun htype => ?_
  rw [(s.events_ref hev (List.mem_singleton.mp htype)).2]

theorem route_labels (s : V4RouteSession) (w : RouteWatch) (rounds : Nat) :
    Spares (fun _ => True) (Mislabelled [.routeDExportReady, .routeRefundReady] s.intentID)
      (s.readStream sha256 w rounds) := by
  have herror : ∀ e, ¬Mislabelled [.routeDExportReady, .routeRefundReady] s.intentID (.emit (s.errorEvent e)) :=
    fun e => not_mislabelled (by simp [V4RouteSession.errorEvent])
  refine spares_orReport (spares_authorizeSelf not_false) herror ?_
  refine spares_stream not_false
    (spares_unlessDone not_false (spares_routePoll not_false fun _ _ => not_false)) herror ?_ rounds none
  intro lastHop st ev hev
  refine not_mislabelled fun htype => ?_
  rw [(s.events_ref hev (by simpa using htype)).2]

theorem onExportReady_ref {cap : ScopedCap} {w : IntentWatch} {rounds : Nat}
    (h : Yields (onExportReady sha256 dex cap w rounds) tr ref) : ref.intentID = w.intentID := by
  obtain ⟨_, _, _, rfl, -, hcommitted⟩ := yields_bind.mp h
  obtain ⟨_, _, _, rfl, -, hloop⟩ := yields_bind.mp hcommitted
  obtain ⟨_, _, st, rfl, -, hnext⟩ := yields_pollUntil hloop
  rw [(committedNext_ref hnext).2]

theorem V4Session.Resolves.intentID {watched : ID} (h : V4Session.Resolves sha256 dex s watched ref) :
    ref.intentID = watched := by
  cases h with
  | ready h | removed h => exact onExportReady_ref h
  | final h =>
    obtain ⟨_, _, _, rfl, -, hloop⟩ := yields_bind.mp h
    obtain ⟨_, _, st, rfl, -, hnext⟩ := yields_pollUntil hloop
    rw [(RouteWatch.finalNext_ref hnext).2]
  | @streamed s w rounds tr q ev sent hreach hmem htype =>
    have hnot := ((swap_labels s w rounds).reach hreach fun _ _ => trivial).1 _ hmem
    by_contra hne
    exact hnot ⟨by simp [htype], hne⟩
  | @routed s w rounds tr q ev sent hreach hmem htype =>
    have hnot := ((route_labels s w rounds).reach hreach fun _ _ => trivial).1 _ hmem
    by_contra hne
    exact hnot ⟨by simpa using htype, hne⟩

end Confinement

/-- **When sessions are confined.**  Of two sessions opened on one deployment, the second refuses what the first
prepared exactly if their requests differ in identity; what else differs in their scopes has no say. It
refuses to settle a ref of the first exactly if that was watched under another id than its own, which for the
first session's own id means again that the identities differ. -/
theorem confined_iff (sha256 : List UInt8 → ID) (v : V4PrecompileSession) (r₁ r₂ : V4Request)
    (tr₁ tr₂ : List (Ev dexSig)) (s₁ s₂ : V4Session) (hopen₁ : Yields (v.openSession sha256 r₁) tr₁ s₁)
    (hopen₂ : Yields (v.openSession sha256 r₂) tr₂ s₂) (hset : s₂.cap.sessionID ≠ .zero 32)
    (hcr : sha256 r₁.identity.encode = sha256 r₂.identity.encode →
      r₁.identity.encode = r₂.identity.encode) :
    (∀ tr pi, Yields (s₁.prepare sha256 v.dex) tr pi →
      (Refused s₂.cap.core (s₂.notify sha256 v.dex (.ok pi)) ↔ r₁.identity ≠ r₂.identity)) ∧
    ∀ op, s₂.settlement sha256 v.dex = some op → ∀ watched ref, V4Session.Resolves sha256 v.dex s₁ watched ref →
      (Refused s₂.cap.core (op (.ok ref)) ↔ watched ≠ s₂.intentID) ∧
      (watched = s₁.intentID → (Refused s₂.cap.core (op (.ok ref)) ↔ r₁.identity ≠ r₂.identity)) := by
  obtain ⟨pk₁, t₁, -, -, -, -, rfl⟩ := yields_openSession.mp hopen₁
  obtain ⟨pk₂, t₂, -, -, -, -, rfl⟩ := yields_openSession.mp hopen₂
  rw [session_cap] at hset ⊢
  refine ⟨fun tr pi hprepare => ?_, fun op hop watched ref href => ?_⟩
  · obtain ⟨-, -, -, hid⟩ := prepare_names hprepare
    rw [refused_notify hset, hid, Ne, Identity.id_inj hcr]
  · rw [refused_settlement hset hop, href.intentID, session_intentID, session_intentID]
    refine ⟨Iff.rfl, fun hown => ?_⟩
    rw [hown, Ne, Identity.id_inj hcr]

theorem opened_bound {sha256 : List UInt8 → ID} (hset : ∀ l, sha256 l ≠ .zero 32) {v : V4PrecompileSession}
    {r : V4Request} (hopen : Yields (v.openSession sha256 r) tr s) : s.cap.sessionID ≠ .zero 32 := by
  obtain ⟨pk, t, -, -, -, -, rfl⟩ := yields_openSession.mp hopen
  rw [session_cap]
  exact hset _

/-- Two sales that differ in the nonce: the second session refuses what the first prepared. -/
theorem sales_confined : ∃ tr₁ s₁ tr₂ s₂ tr pi,
    Yields ((newV4PrecompileSession trader (deployment (.zero 32))).openSession lastByte
      (.swap (sellNonce 1))) tr₁ s₁ ∧
    Yields ((newV4PrecompileSession trader (deployment (.zero 32))).openSession lastByte
      (.swap (sellNonce 2))) tr₂ s₂ ∧
    Yields (s₁.prepare lastByte trader) tr pi ∧
    Refused s₂.cap.core (s₂.notify lastByte trader (.ok pi)) := by
  obtain ⟨tr₁, s₁, tr, pi, hopen₁, hprepare⟩ :=
    sale_opens (deployment (.zero 32)) (.swap (sellNonce 1)) (by decide +kernel)
  obtain ⟨tr₂, s₂, -, -, hopen₂, -⟩ := sale_opens (deployment (.zero 32)) (.swap (sellNonce 2)) (by decide +kernel)
  refine ⟨tr₁, s₁, tr₂, s₂, tr, pi, hopen₁, hopen₂, hprepare, ?_⟩
  have hids : (V4Request.swap (sellNonce 1)).identity.id lastByte ≠
      (V4Request.swap (sellNonce 2)).identity.id lastByte := by decide
  exact ((confined_iff lastByte (newV4PrecompileSession trader (deployment (.zero 32))) (.swap (sellNonce 1))
    (.swap (sellNonce 2)) tr₁ tr₂ s₁ s₂ hopen₁ hopen₂ (opened_bound lastByte_ne_zero hopen₂)
    fun h => absurd h hids).1 tr pi hprepare).mpr (by decide)

def hop : RouteRequest where
  networkID := 1
  cChainID := .zero 32
  dChainID := .zero 32
  account := .zero 20
  assetIn := .zero 32
  assetInAddr := .zero 20
  amountIn := 1
  path := [.zero 32]
  minAmountOut := 0
  recipient := .zero 20
  deadline := 0
  callIndex := 1

/-- No two encodings that differ meet in one hash here: the sale and the route have one identity. -/
theorem route_takes_sale :
    (V4Request.swap (sellNonce 1)).identity = (V4Request.route hop).identity ∧
    ∃ tr₁ s₁ tr₂ s₂ tr pi,
      Yields ((newV4PrecompileSession trader (deployment (.zero 32))).openSession lastByte
        (.swap (sellNonce 1))) tr₁ s₁ ∧
      Yields ((newV4PrecompileSession trader (deployment (.zero 32))).openSession lastByte (.route hop)) tr₂ s₂ ∧
      s₁.cap.scope ≠ s₂.cap.scope ∧ Yields (s₁.prepare lastByte trader) tr pi ∧
      ¬Refused s₂.cap.core (s₂.notify lastByte trader (.ok pi)) := by
  obtain ⟨tr₁, s₁, tr, pi, hopen₁, hprepare⟩ :=
    sale_opens (deployment (.zero 32)) (.swap (sellNonce 1)) (by decide +kernel)
  obtain ⟨tr₂, s₂, -, -, hopen₂, -⟩ := sale_opens (deployment (.zero 32)) (.route hop) (by decide +kernel)
  obtain ⟨⟨pk, hscope⟩, -, -, -, hid⟩ := opened_names hopen₁ hprepare
  have hset := opened_bound lastByte_ne_zero hopen₂
  refine ⟨rfl, tr₁, s₁, tr₂, s₂, tr, pi, hopen₁, hopen₂, ?_, hprepare, ?_⟩
  all_goals obtain ⟨pk₂, t₂, -, -, -, -, rfl⟩ := yields_openSession.mp hopen₂
  · rw [hscope]
    intro h
    cases congrArg V4ActionScope.kind h
  · rw [session_cap] at hset ⊢
    exact fun h => (refused_notify hset).mp h hid

end Zap.Dex
