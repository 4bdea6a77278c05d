/-
# Zap.Dex.Intent — what a prepared swap commits the user to.

`prepareLocal` builds the transaction on the client, so a run of it is easy to describe: `prepared` is the
intent a request gives once the pool key and the estimate are known, and the server has a say in the
estimate alone. Two readings of the calldata follow. The
slippage floor is not in it (`calldata_differs_iff`), and its direction word is always set (`direction_iff`).
-/
import Zap.Dex.V4

namespace Zap.Dex

open Zap.Lib Zap.Wire Proc

/-! ## Runs of PrepareSwapIntent -/

variable {tr : List (Ev dexSig)} {pi : PreparedIntent}

section Prepare

variable (sha256 : List UInt8 → ID)

def prepared (pk : PoolKeyArgs) (quoted : UInt64) (req : SwapIntentRequest) : PreparedIntent where
  toAddr := addr9999
  calldata := encodeSwapCalldata pk (zeroForOneFor req) req.amountIn
    (encodeIntentHookData req.deadline req.nonce)
  hookData := encodeIntentHookData req.deadline req.nonce
  intentID := deriveIntentID sha256 req.networkID req.cChainID req.dChainID req.account req.assetIn
    req.amountIn req.marketID req.nonce
  quotedOut := quoted
  dChainID := req.dChainID
  cChainID := req.cChainID
  account := req.account
  recipient := req.recipient
  assetIn := req.assetIn
  amountIn := req.amountIn
  marketID := req.marketID

variable {sha256} {s : Session} {req : SwapIntentRequest}

theorem yields_prepareLocal {S : Sig} {estimate : Proc S DexError UInt64} {tr : List (Ev S)} :
    Yields (s.prepareLocal sha256 estimate req) tr pi ↔
      req.amountIn ≠ 0 ∧ ∃ pk quoted, s.market req.marketID = some pk ∧ Yields estimate tr quoted ∧
        pi = prepared sha256 pk quoted req := by
  unfold Session.prepareLocal
  rw [yields_refuse]
  refine and_congr_right fun _ => ?_
  cases s.market req.marketID with
  | none => exact iff_of_false yields_throw (by simp)
  | some pk =>
    simp only [yields_bind, yields_pure, Option.some.injEq, existsAndEq, true_and, List.append_nil]
    exact exists_congr fun _ => and_congr_right fun _ => eq_comm

/-- **What is prepared**: the request's intent, with some estimate. -/
theorem yields_prepareSwapIntent :
    Yields (s.prepareSwapIntent sha256 req) tr pi ↔
      s.grant &&& authIntent = authIntent ∧ req.amountIn ≠ 0 ∧
      ∃ pk quoted, s.market req.marketID = some pk ∧ Yields (s.estimate req.quote) tr quoted ∧
        pi = prepared sha256 pk quoted req := by
  unfold Session.prepareSwapIntent
  simp only [yields_bind, Session.yields_requireGrant, yields_prepareLocal, existsAndEq, exists_const, true_and,
    List.nil_append]

/-! ## What the calldata determines -/

theorem prepared_calldata_eq_iff {pk pk' : PoolKeyArgs} {quoted quoted' : UInt64}
    {req req' : SwapIntentRequest} :
    (prepared sha256 pk quoted req).calldata = (prepared sha256 pk' quoted' req').calldata ↔
      pk.words = pk'.words ∧ req.amountIn = req'.amountIn ∧ req.deadline = req'.deadline ∧
        req.nonce = req'.nonce := by
  have hshort : ∀ r : SwapIntentRequest, (encodeIntentHookData r.deadline r.nonce).length < 2 ^ 64 := by
    intro r
    have := encodeIntentHookData_length_le r.deadline r.nonce
    omega
  simp only [prepared]
  rw [encodeSwapCalldata_eq_iff (hshort req) (hshort req'), encodeIntentHookData_inj]
  simp [zeroForOneFor]

/-- **What tells two prepared swaps apart.**  The floor is not even read: the operation is the same program for
every value of it. So the calldata of two requests differs exactly when their amounts, deadlines, nonces or
pool key words do. -/
theorem calldata_differs_iff (sha256 : List UInt8 → ID) (s : Session) (req req' : SwapIntentRequest)
    (pk pk' : PoolKeyArgs) (hm : s.market req.marketID = some pk) (hm' : s.market req'.marketID = some pk') :
    (∀ floor, s.prepareSwapIntent sha256 { req with minAmountOut := floor } =
      s.prepareSwapIntent sha256 req) ∧
    ∀ tr tr' pi pi', Yields (s.prepareSwapIntent sha256 req) tr pi →
      Yields (s.prepareSwapIntent sha256 req') tr' pi' →
      (pi.calldata ≠ pi'.calldata ↔
        req.amountIn ≠ req'.amountIn ∨ req.deadline ≠ req'.deadline ∨ req.nonce ≠ req'.nonce ∨
          pk.words ≠ pk'.words) := by
  refine ⟨fun _ => rfl, fun tr tr' pi pi' h h' => ?_⟩
  obtain ⟨-, -, pk₁, quoted, hpk, -, rfl⟩ := yields_prepareSwapIntent.mp h
  obtain ⟨-, -, pk₂, quoted', hpk', -, rfl⟩ := yields_prepareSwapIntent.mp h'
  cases hm.symm.trans hpk
  cases hm'.symm.trans hpk'
  rw [Ne, prepared_calldata_eq_iff]
  tauto

end Prepare

def trader : Session := ⟨15, fun _ => some ⟨.zero 20, addr9999, 3000, 60, .zero 20⟩⟩

def sell (assetInAddr : Account) (floor : UInt64) : SwapIntentRequest where
  networkID := 1
  cChainID := .zero 32
  dChainID := .zero 32
  account := .zero 20
  assetIn := .zero 32
  assetInAddr := assetInAddr
  amountIn := 1
  marketID := .zero 32
  minAmountOut := floor
  recipient := .zero 20
  deadline := 0
  nonce := 0

def fill (b : UInt8) : ID := ⟨List.replicate 32 b, by simp⟩

def offline : (r : DexReq) → r.Resp
  | .call _ => none
  | .cancelled => false
  | .newToken => fill 1
  | .register .. => ()
  | .lookup _ => some ⟨15, false⟩
  | .revoke _ => ()
  | .emit _ => true
  | .send .. => true

theorem trader_prepares (req : SwapIntentRequest)
    (h : ((trader.prepareSwapIntent (fun _ => .zero 32) req).run.eval offline).isOk) :
    ∃ tr pi, Yields (trader.prepareSwapIntent (fun _ => .zero 32) req) tr pi := yields_of_eval offline h

theorem sell_calldata_differs_iff :
    trader.market (.zero 32) = some ⟨.zero 20, addr9999, 3000, 60, .zero 20⟩ ∧
    ∃ tr tr' pi pi', Yields (trader.prepareSwapIntent (fun _ => .zero 32) (sell (.zero 20) 0)) tr pi ∧
      Yields (trader.prepareSwapIntent (fun _ => .zero 32) { sell (.zero 20) 0 with nonce := 1 }) tr' pi' ∧
      pi.calldata ≠ pi'.calldata := by
  obtain ⟨tr, pi, h⟩ := trader_prepares (sell (.zero 20) 0) (by decide)
  obtain ⟨tr', pi', h'⟩ := trader_prepares { sell (.zero 20) 0 with nonce := 1 } (by decide)
  refine ⟨rfl, tr, tr', _, _, h, h', ?_⟩
  exact ((calldata_differs_iff (fun _ => .zero 32) trader (sell (.zero 20) 0)
    { sell (.zero 20) 0 with nonce := 1 } _ _ rfl rfl).2 tr tr' _ _ h h').mpr
    (.inr (.inr (.inl (by decide))))

/-- Two requests that differ in the floor alone, and are prepared to one calldata. -/
theorem floor_not_in_calldata :
    (sell (.zero 20) 0).minAmountOut ≠ (sell (.zero 20) 1).minAmountOut ∧
    ∃ tr pi, Yields (trader.prepareSwapIntent (fun _ => .zero 32) (sell (.zero 20) 0)) tr pi ∧
      Yields (trader.prepareSwapIntent (fun _ => .zero 32) (sell (.zero 20) 1)) tr pi := by
  obtain ⟨tr, pi, h⟩ := trader_prepares (sell (.zero 20) 0) (by decide)
  exact ⟨by decide, tr, _, h, h⟩

/-! ## The direction -/

section Direction

variable {sha256 : List UInt8 → ID} {s : Session} {req : SwapIntentRequest}

/-- A request other than a call with the quote's message. -/
def StrayCall (q : QuoteRequest) (r : DexReq) : Prop := ∃ msg, r = .call msg ∧ buildQuoteRequest q ≠ .ok (.ok msg)

theorem prepare_calls (h : Yields (s.prepareSwapIntent sha256 req) tr pi) {msg : Message} {answer : Option (List UInt8)}
    (hmem : (⟨DexReq.call msg, answer⟩ : Ev dexSig) ∈ tr) : readQuoteRequest msg = .ok req.quote := by
  obtain ⟨-, -, pk, quoted, -, hest, -⟩ := yields_prepareSwapIntent.mp h
  have hquote : Spares (fun _ => True) (StrayCall req.quote) (s.quote req.quote) := by
    refine spares_quote _ fun _ msg hmsg => ?_
    rintro ⟨m, heq, hne⟩
    cases heq
    exact hne hmsg
  have hcancelled : ¬StrayCall req.quote .cancelled := by
    rintro ⟨m, heq, -⟩
    cases heq
  have hnot := (spares_estimate hcancelled hquote).avoids.reach hest _ hmem
  obtain ⟨m, hm, -, -, hread⟩ := quoteRequest_carries req.quote
  by_cases hmsg : buildQuoteRequest req.quote = .ok (.ok msg)
  · obtain rfl : m = msg := Except.ok.inj (Except.ok.inj (hm.symm.trans hmsg))
    exact hread
  · exact absurd ⟨msg, rfl, hmsg⟩ hnot

theorem openSwap_params {v : V4PrecompileSession} {sw : V4SwapSession} (h : Yields (v.openSwap sha256 req) tr sw) :
    sw.cap.scope.paramsHash = deriveSwapParamsHash sha256 (zeroForOneFor req) req.amountIn := by
  unfold V4PrecompileSession.openSwap at h
  cases hm : v.dex.market req.marketID with
  | none =>
    rw [hm] at h
    exact absurd h yields_throw
  | some pk =>
    rw [hm] at h
    obtain ⟨tr1, tr2, cap, rfl, hmint, hret⟩ := yields_bind.mp h
    obtain ⟨rfl, rfl⟩ := yields_pure.mp hret
    obtain ⟨tr3, tr4, core, rfl, -, hcap⟩ := yields_bind.mp hmint
    obtain ⟨rfl, rfl⟩ := yields_pure.mp hcap
    rfl

/-- **Which sales a prepared swap makes.**  Calldata, quote and scope always agree on the direction, and it is
always the sale of `currency0`: the transaction sells the asset asked for exactly when that is it. -/
theorem direction_iff (sha256 : List UInt8 → ID) (v : V4PrecompileSession) (req : SwapIntentRequest)
    (pk : PoolKeyArgs) (_hm : v.dex.market req.marketID = some pk)
    (_hasset : req.assetInAddr = pk.currency0 ∨ req.assetInAddr = pk.currency1) :
    ∀ tr pi, Yields (v.dex.prepareSwapIntent sha256 req) tr pi →
      ((decodeBool (calldataWord pi.calldata 5) = true ↔ req.assetInAddr = pk.currency0) ↔
        req.assetInAddr = pk.currency0) ∧
      (∀ msg answer, (⟨DexReq.call msg, answer⟩ : Ev dexSig) ∈ tr →
        ∃ q, readQuoteRequest msg = .ok q ∧ q.zeroForOne = decodeBool (calldataWord pi.calldata 5)) ∧
      ∀ tr' sw, Yields (v.openSwap sha256 req) tr' sw →
        sw.cap.scope.paramsHash =
          deriveSwapParamsHash sha256 (decodeBool (calldataWord pi.calldata 5)) req.amountIn := by
  intro tr pi h
  obtain ⟨-, -, pk', quoted, -, -, rfl⟩ := yields_prepareSwapIntent.mp h
  have hword : decodeBool (calldataWord (prepared sha256 pk' quoted req).calldata 5) = zeroForOneFor req :=
    decodeBool_zeroForOne _ _ _ _
  rw [hword]
  refine ⟨by simp [zeroForOneFor], fun msg answer hmem => ⟨req.quote, prepare_calls h hmem, rfl⟩,
    fun tr' sw hsw => openSwap_params hsw⟩

end Direction

theorem sell_currency0 : trader.market (.zero 32) = some ⟨.zero 20, addr9999, 3000, 60, .zero 20⟩ ∧
    ∃ tr pi, Yields (trader.prepareSwapIntent (fun _ => .zero 32) (sell (.zero 20) 0)) tr pi ∧
      decodeBool (calldataWord pi.calldata 5) = true := by
  obtain ⟨tr, pi, h⟩ := trader_prepares (sell (.zero 20) 0) (by decide)
  have hdir := direction_iff (fun _ => .zero 32) ⟨trader, 1, .zero 32, .zero 32, addr9999⟩ (sell (.zero 20) 0)
    _ rfl (.inl rfl) tr _ h
  exact ⟨rfl, tr, _, h, (hdir.1.mpr rfl).mpr rfl⟩

/-- A sale of the second asset of the pool, prepared as a sale of the first. -/
theorem sell_currency1 : ∃ tr pi,
    Yields (trader.prepareSwapIntent (fun _ => .zero 32) (sell addr9999 0)) tr pi ∧
    trader.market (sell addr9999 0).marketID = some ⟨.zero 20, addr9999, 3000, 60, .zero 20⟩ ∧
    (sell addr9999 0).assetInAddr = addr9999 ∧ (sell addr9999 0).assetInAddr ≠ .zero 20 ∧
    decodeBool (calldataWord pi.calldata 5) = true := by
  obtain ⟨tr, pi, h⟩ := trader_prepares (sell addr9999 0) (by decide)
  obtain ⟨-, -, pk, quoted, -, -, rfl⟩ := yields_prepareSwapIntent.mp h
  exact ⟨tr, _, h, rfl, rfl, by decide, decodeBool_zeroForOne _ _ _ _⟩

end Zap.Dex
