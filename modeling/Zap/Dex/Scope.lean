/-
# Zap.Dex.Scope — what ties a V4 session to its action, and what does not.

A session is opened for a scope, but what it prepares is made from the request. An intent id hashes eight
fields of the request (`Identity`): network, chains, account, asset, amount, market and nonce. Two requests of
one identity have one id, whatever their kinds, paths, ticks or deltas are, and the network and the chains in it
are those of the request, not those the session was configured with.
-/
import Mathlib.Data.List.Basic
import Zap.Dex.Capability
import Zap.Dex.Intent

namespace Zap.Dex

open Zap.Lib Zap.Wire Proc
open Prog (Ensures)

/-! ## Requests and sessions of every kind -/

inductive V4Request
  | swap (r : SwapIntentRequest)
  | route (r : RouteRequest)
  | liquidity (r : LiquidityRequest)
  | collect (r : CollectRequest)
  | cancel (r : CollectRequest)

inductive V4Session
  | swap (s : V4SwapSession)
  | route (s : V4RouteSession)
  | liquidity (s : V4LiquiditySession)
  | collect (s : V4CollectSession)

/-- The fields an intent id is derived from. -/
structure Identity where
  networkID : UInt32
  cChainID : ID
  dChainID : ID
  account : Account
  asset : ID
  amount : UInt64
  market : ID
  nonce : UInt64
  deriving DecidableEq

namespace Identity

def encode (i : Identity) : List UInt8 :=
  nativeIntentDomain ++ be 4 i.networkID.toNat ++ i.cChainID.bytes ++ i.dChainID.bytes ++
    i.account.bytes ++ i.asset.bytes ++ be64 i.amount ++ i.market.bytes ++ be64 i.nonce

def id (sha256 : List UInt8 → ID) (i : Identity) : ID :=
  deriveIntentID sha256 i.networkID i.cChainID i.dChainID i.account i.asset i.amount i.market i.nonce

end Identity

inductive Derivation
  | intent (i : Identity)
  | session (s : V4ActionScope)
  | poolKey (pk : PoolKeyArgs)
  | swapParams (zeroForOne : Bool) (amountIn : UInt64)
  | liquidityParams (tickLower tickUpper : Int32) (liquidityDelta : Int64) (salt : ID)
  | routePath (path : List ID)
  | utxo (sourceTxID : ID) (outputIndex : UInt32)

namespace Derivation

def id (sha256 : List UInt8 → ID) : Derivation → ID
  | intent i => i.id sha256
  | session s => deriveSessionID sha256 s
  | poolKey pk => derivePoolKeyHash sha256 pk
  | swapParams z amount => deriveSwapParamsHash sha256 z amount
  | liquidityParams lower upper delta salt => deriveLiquidityParamsHash sha256 lower upper delta salt
  | routePath path => deriveRoutePathHash sha256 path
  | utxo tx index => deriveUTXOID sha256 tx index

def fields : Derivation → List (List UInt8)
  | intent i => [nativeIntentDomain, be 4 i.networkID.toNat, i.cChainID.bytes, i.dChainID.bytes,
      i.account.bytes, i.asset.bytes, be64 i.amount, i.market.bytes, be64 i.nonce]
  | session s => [str "lux.dex.v4.session.v1", be 4 s.networkID.toNat, s.cChainID.bytes, s.dChainID.bytes,
      s.addr.bytes, s.account.bytes, s.poolKeyHash.bytes, s.paramsHash.bytes, [s.kind.byte], s.intentID.bytes]
  | poolKey pk => [str "lux.dex.v4.poolkey.v1", pk.currency0.bytes, pk.currency1.bytes, be 4 pk.fee.toNat,
      be 4 pk.tickSpacing.toUInt32.toNat, pk.hooks.bytes]
  | swapParams z amount => [str "lux.dex.v4.swapparams.v1", [if z then 1 else 0], be64 amount]
  | liquidityParams lower upper delta salt => [str "lux.dex.v4.lpparams.v1", be 4 lower.toUInt32.toNat,
      be 4 upper.toUInt32.toNat, be64 delta.toUInt64, salt.bytes]
  | routePath path => str "lux.dex.v4.routepath.v1" :: be 4 (UInt32.ofNat path.length).toNat :: path.map Arr.bytes
  | utxo tx index => [tx.bytes, be 4 index.toNat]

def widths : Derivation → List Nat
  | intent _ => [24, 4, 32, 32, 20, 32, 8, 32, 8]
  | session _ => [21, 4, 32, 32, 20, 20, 32, 32, 1, 32]
  | poolKey _ => [21, 20, 20, 4, 4, 20]
  | swapParams .. => [24, 1, 8]
  | liquidityParams .. => [22, 4, 4, 8, 32]
  | routePath path => 23 :: 4 :: List.replicate path.length 32
  | utxo .. => [32, 4]

def input (d : Derivation) : List UInt8 := d.fields.flatten

theorem id_eq (sha256 : List UInt8 → ID) (d : Derivation) : d.id sha256 = sha256 d.input := by
  cases d <;> simp [id, input, fields, Identity.id, deriveIntentID, deriveSessionID, derivePoolKeyHash,
    deriveSwapParamsHash, deriveLiquidityParamsHash, deriveRoutePathHash, deriveUTXOID, List.flatMap, str]

theorem fields_length (d : Derivation) : d.fields.map List.length = d.widths := by
  have hid : (List.length ∘ Arr.bytes : ID → Nat) = fun _ => 32 := funext Arr.len
  cases d with
  | routePath path =>
    simp only [fields, widths, List.map_cons, List.map_map, hid, List.map_const', be_length]
    rfl
  | _ =>
    simp [fields, widths, Arr.len]
    try rfl

/-- No two functions hash strings of one length. -/
theorem widths_eq {d e : Derivation} (h : d.widths.sum = e.widths.sum) : d.widths = e.widths := by
  cases d <;> cases e <;> simp [widths] at h ⊢ <;> omega

theorem be32_inj {a b : UInt32} : be 4 a.toNat = be 4 b.toNat ↔ a = b :=
  ⟨fun h => UInt32.toNat_inj.mp (be_inj a.toNat_lt b.toNat_lt h), fun h => h ▸ rfl⟩

theorem int32_inj {a b : Int32} : a.toUInt32 = b.toUInt32 ↔ a = b := by
  cases a
  cases b
  simp

theorem int64_inj {a b : Int64} : a.toUInt64 = b.toUInt64 ↔ a = b := by
  cases a
  cases b
  simp

theorem byte_injective : Function.Injective V4Action.byte := by
  intro a b h
  cases a
  cases b
  exact congrArg V4Action.mk h

/-- The fields have fixed widths, and the bytes determine them. -/
theorem input_injective : Function.Injective input := by
  intro d e h
  have hw : d.widths = e.widths := by
    apply widths_eq
    rw [← fields_length, ← fields_length, ← List.length_flatten, ← List.length_flatten]
    exact congrArg List.length h
  have hfields : d.fields = e.fields := by
    rw [List.eq_iff_flatten_eq, fields_length, fields_length]
    exact ⟨h, hw⟩
  cases d <;> cases e <;> simp [widths] at hw <;>
    simp only [fields, List.cons.injEq, be32_inj, int32_inj, int64_inj, Arr.bytes_injective.eq_iff,
      be64_injective.eq_iff, byte_injective.eq_iff, true_and, and_true] at hfields
  case intent.intent i j =>
    cases i
    cases j
    grind
  case session.session s t =>
    cases s
    cases t
    grind
  case poolKey.poolKey p q =>
    cases p
    cases q
    grind
  case swapParams.swapParams z _ z' _ => cases z <;> cases z' <;> grind
  case liquidityParams.liquidityParams => grind
  case routePath.routePath => rw [List.map_injective_iff.mpr Arr.bytes_injective hfields.2]
  case utxo.utxo => rw [hfields.1, hfields.2]

/-- **Derived ids are unambiguous.**  What is hashed tells the function and all its arguments, so without a
collision the id does; a route may have any length. -/
theorem id_unambiguous (sha256 : List UInt8 → ID) (d e : Derivation) :
    d.id sha256 = sha256 d.input ∧ (d.input = e.input ↔ d = e) ∧
      ((sha256 d.input = sha256 e.input → d.input = e.input) → (d.id sha256 = e.id sha256 ↔ d = e)) := by
  have hinput : d.input = e.input ↔ d = e := input_injective.eq_iff
  refine ⟨id_eq sha256 d, hinput, fun hcr => ?_⟩
  rw [id_eq, id_eq]
  exact ⟨fun h => hinput.mp (hcr h), fun h => h ▸ rfl⟩

end Derivation

namespace Identity

theorem id_inj {sha256 : List UInt8 → ID} {i j : Identity}
    (hcr : sha256 i.encode = sha256 j.encode → i.encode = j.encode) :
    i.id sha256 = j.id sha256 ↔ i = j := by
  constructor
  · intro h
    have hinput : ∀ i : Identity, (Derivation.intent i).input = i.encode := by
      simp [Derivation.input, Derivation.fields, encode]
    have := @Derivation.input_injective (.intent i) (.intent j) (by rw [hinput, hinput, hcr h])
    cases this
    rfl
  · rintro rfl
    rfl

end Identity

/-- The identity of a request. A removal names the asset it returns and no amount. -/
def V4Request.identity : V4Request → Identity
  | swap r => ⟨r.networkID, r.cChainID, r.dChainID, r.account, r.assetIn, r.amountIn, r.marketID, r.nonce⟩
  | route r => ⟨r.networkID, r.cChainID, r.dChainID, r.account, r.assetIn, r.amountIn,
      r.path.headD (.zero 32), r.callIndex.toUInt64⟩
  | liquidity r => ⟨r.networkID, r.cChainID, r.dChainID, r.account, r.assetIn, r.amountIn, r.marketID,
      r.callIndex.toUInt64⟩
  | collect r | cancel r => ⟨r.networkID, r.cChainID, r.dChainID, r.account, r.assetOut, 0, r.marketID,
      r.callIndex.toUInt64⟩

namespace V4Session

def cap : V4Session → ScopedCap
  | swap s => s.cap
  | route s => s.cap
  | liquidity s => s.cap
  | collect s => s.cap

def intentID : V4Session → ID
  | swap s => s.intentID
  | route s => s.intentID
  | liquidity s => s.intentID
  | collect s => s.intentID

end V4Session

section Methods

variable (sha256 : List UInt8 → ID)

/-- `OpenSwap`, `OpenRoute`, `OpenModifyLiquidity`, `OpenCollect` and `OpenCancel` -/
def V4PrecompileSession.openSession (v : V4PrecompileSession) : V4Request → Op V4Session
  | .swap r => .swap <$> v.openSwap sha256 r
  | .route r => .route <$> v.openRoute sha256 r
  | .liquidity r => .liquidity <$> v.openModifyLiquidity sha256 r
  | .collect r => .collect <$> v.openCollect sha256 r
  | .cancel r => .collect <$> v.openCancel sha256 r

inductive V4Watch
  | intent (w : IntentWatch)
  | route (w : RouteWatch)

namespace V4Session

variable (dex : Session)

/-- `WritePrepareIntent`, `WritePrepareCommit` and `WriteRequest` -/
def prepare : V4Session → Op PreparedIntent
  | swap s => s.writePrepareIntent sha256 dex
  | route s => s.writePrepareIntent sha256 dex
  | liquidity s => s.writePrepareCommit sha256
  | collect s => s.writeRequest sha256

/-- `WriteNotifyCToDExport` and `WriteNotify` -/
def notify (s : V4Session) (intent : Except DexError PreparedIntent) : Op V4Watch :=
  match s with
  | route s => .route <$> s.writeNotifyCToDExport sha256 intent
  | s => .intent <$> writeNotify sha256 dex s.cap s.intentID intent

/-- `WritePrepareCSettlement`; a liquidity session has none. -/
def settlement : V4Session → Option (Except DexError DExportRef → Op SettlementSubmitResult)
  | liquidity _ => none
  | s => some (writePrepareCSettlement sha256 dex s.cap s.intentID)

end V4Session

/-! ## What is opened -/

def V4Request.kind : V4Request → V4Action
  | swap _ => .swap
  | route _ => .route
  | liquidity _ => .modifyLiquidity
  | collect _ => .collect
  | cancel _ => .cancel

def V4Request.bits : V4Request → Authority
  | liquidity _ => authIntent ||| authWatch
  | _ => authIntent ||| authWatch ||| authSettlement

/-- The request passes the checks of its open method, with this pool key for its market. -/
def V4Request.Accepted (dex : Session) (pk : PoolKeyArgs) : V4Request → Prop
  | swap r => dex.market r.marketID = some pk
  | route r => ∃ first rest, r.path = first :: rest ∧ dex.market first = some pk
  | liquidity r => ¬r.liquidityDelta ≤ 0 ∧ dex.market r.marketID = some pk
  | collect r | cancel r => ¬0 ≤ r.liquidityDelta ∧ dex.market r.marketID = some pk

def V4Request.hashes (pk : PoolKeyArgs) : V4Request → ID × ID
  | swap r => (derivePoolKeyHash sha256 pk, deriveSwapParamsHash sha256 (zeroForOneFor r) r.amountIn)
  | route r => (deriveRoutePathHash sha256 r.path, deriveSwapParamsHash sha256 true r.amountIn)
  | liquidity r => (derivePoolKeyHash sha256 pk,
      deriveLiquidityParamsHash sha256 r.tickLower r.tickUpper r.liquidityDelta r.salt)
  | collect r | cancel r => (derivePoolKeyHash sha256 pk,
      deriveLiquidityParamsHash sha256 r.tickLower r.tickUpper r.liquidityDelta r.salt)

def V4Request.scope (v : V4PrecompileSession) (pk : PoolKeyArgs) (r : V4Request) : V4ActionScope :=
  v.scopeFor r.kind r.identity.account (r.hashes sha256 pk).1 (r.hashes sha256 pk).2 (r.identity.id sha256)

def V4Request.cap (v : V4PrecompileSession) (pk : PoolKeyArgs) (t : Token) (r : V4Request) : ScopedCap :=
  ⟨⟨t, r.bits⟩, r.scope sha256 v pk, deriveSessionID sha256 (r.scope sha256 v pk)⟩

def V4Request.session (v : V4PrecompileSession) (pk : PoolKeyArgs) (t : Token) (r : V4Request) : V4Session :=
  let cap := r.cap sha256 v pk t
  let intentID := r.identity.id sha256
  match r with
  | swap r => .swap ⟨cap, r, intentID⟩
  | route r => .route ⟨cap, r, intentID, r.path.headD (.zero 32)⟩
  | liquidity r => .liquidity ⟨cap, r, pk, intentID⟩
  | collect r => .collect ⟨cap, r, pk, intentID, .collect⟩
  | cancel r => .collect ⟨cap, r, pk, intentID, .cancel⟩

end Methods

variable {dex : Session} {s : V4Session} {r : V4Request}

section Opened

variable {sha256 : List UInt8 → ID} {v : V4PrecompileSession} {tr : List (Ev dexSig)} {bits : Authority}

theorem yields_issue {core : Session.CapCore} :
    Yields (dex.issue bits) tr core ↔
      dex.grant &&& bits = bits ∧ ∃ t, t ≠ .zero 32 ∧
        tr = [⟨DexReq.newToken, t⟩, ⟨DexReq.register t bits, ()⟩] ∧ core = ⟨t, bits⟩ := by
  unfold Session.issue
  have hreg : ∀ {t tr u}, Yields (α := Unit) (ask (.register t bits)) tr u ↔ tr = [⟨.register t bits, ()⟩] := yields_ask
  have htok : ∀ {tr t}, Yields (α := Token) (ask .newToken) tr t ↔ tr = [⟨.newToken, t⟩] := yields_ask
  have hstop : ∀ f : PUnit → Op Session.CapCore, (throw .noAuthority >>= f) = throw .noAuthority := fun _ => rfl
  simp only [yields_bind, Session.yields_requireGrant, htok, hstop, yields_refuse, hreg, yields_pure, existsAndEq,
    exists_const, true_and, List.nil_append, List.append_nil]
  constructor
  · rintro ⟨t, htr, hgrant, ht, rfl⟩
    exact ⟨hgrant, t, ht, htr, rfl⟩
  · rintro ⟨hgrant, t, ht, htr, rfl⟩
    exact ⟨t, htr, hgrant, ht, rfl⟩

theorem yields_mint {α : Type} {scope : V4ActionScope} {make : ScopedCap → α} {x : α} :
    Yields (do
      let cap ← v.mint sha256 bits scope
      return make cap) tr x ↔
      v.dex.grant &&& bits = bits ∧ ∃ t, t ≠ .zero 32 ∧
        tr = [⟨DexReq.newToken, t⟩, ⟨DexReq.register t bits, ()⟩] ∧
        x = make ⟨⟨t, bits⟩, scope, deriveSessionID sha256 scope⟩ := by
  unfold V4PrecompileSession.mint
  simp only [yields_bind, yields_issue, yields_pure, existsAndEq, true_and, and_true, List.append_nil]
  constructor
  · rintro ⟨t, ⟨hgrant, ht, htr⟩, rfl⟩
    exact ⟨hgrant, t, ht, htr, rfl⟩
  · rintro ⟨hgrant, t, ht, htr, rfl⟩
    exact ⟨t, ⟨hgrant, ht, htr⟩, rfl⟩

theorem yields_removal {r : CollectRequest} {kind : V4Action} {req : V4Request}
    (hreq : (req = .collect r ∧ kind = .collect) ∨ (req = .cancel r ∧ kind = .cancel)) :
    Yields (V4Session.collect <$> v.openRemoval sha256 r kind) tr s ↔
      ∃ pk t, req.Accepted v.dex pk ∧ v.dex.grant &&& req.bits = req.bits ∧ t ≠ .zero 32 ∧
        tr = [⟨DexReq.newToken, t⟩, ⟨DexReq.register t req.bits, ()⟩] ∧ s = req.session sha256 v pk t := by
  have haccepted : ∀ pk, req.Accepted v.dex pk ↔ ¬0 ≤ r.liquidityDelta ∧ v.dex.market r.marketID = some pk := by
    rcases hreq with ⟨rfl, -⟩ | ⟨rfl, -⟩ <;> exact fun _ => Iff.rfl
  have hbits : req.bits = authIntent ||| authWatch ||| authSettlement := by
    rcases hreq with ⟨rfl, -⟩ | ⟨rfl, -⟩ <;> rfl
  have hsession : ∀ pk t, req.session sha256 v pk t = .collect ⟨req.cap sha256 v pk t, r, pk,
      req.identity.id sha256, kind⟩ := by
    rcases hreq with ⟨rfl, rfl⟩ | ⟨rfl, rfl⟩ <;> exact fun _ _ => rfl
  simp only [haccepted, hsession]
  refine yields_map.trans ?_
  unfold V4PrecompileSession.openRemoval
  constructor
  · rintro ⟨a, h, rfl⟩
    split_ifs at h with hdelta
    · exact absurd h yields_throw
    split at h
    · exact absurd h yields_throw
    next pk hm =>
      obtain ⟨hgrant, t, ht, rfl, rfl⟩ := yields_mint.mp h
      refine ⟨pk, t, ⟨hdelta, hm⟩, ?_⟩
      rw [hbits]
      refine ⟨hgrant, ht, rfl, ?_⟩
      rcases hreq with ⟨rfl, rfl⟩ | ⟨rfl, rfl⟩ <;> rfl
  · rintro ⟨pk, t, ⟨hdelta, hm⟩, hgrant, ht, rfl, rfl⟩
    rw [hbits] at hgrant ⊢
    rw [if_neg hdelta, hm]
    refine ⟨_, yields_mint.mpr ⟨hgrant, t, ht, rfl, rfl⟩, ?_⟩
    rcases hreq with ⟨rfl, rfl⟩ | ⟨rfl, rfl⟩ <;> rfl

/-- **What is opened**: the request's session, under a fresh token. -/
theorem yields_openSession :
    Yields (v.openSession sha256 r) tr s ↔
      ∃ pk t, r.Accepted v.dex pk ∧ v.dex.grant &&& r.bits = r.bits ∧ t ≠ .zero 32 ∧
        tr = [⟨DexReq.newToken, t⟩, ⟨DexReq.register t r.bits, ()⟩] ∧ s = r.session sha256 v pk t := by
  cases r with
  | swap r =>
    refine yields_map.trans ?_
    unfold V4PrecompileSession.openSwap
    constructor
    · rintro ⟨a, h, rfl⟩
      split at h
      · exact absurd h yields_throw
      next pk hm =>
        obtain ⟨hgrant, t, ht, rfl, rfl⟩ := yields_mint.mp h
        exact ⟨pk, t, hm, hgrant, ht, rfl, rfl⟩
    · rintro ⟨pk, t, hm, hgrant, ht, rfl, rfl⟩
      simp only [V4Request.Accepted] at hm
      rw [hm]
      exact ⟨_, yields_mint.mpr ⟨hgrant, t, ht, rfl, rfl⟩, rfl⟩
  | route r =>
    refine yields_map.trans ?_
    unfold V4PrecompileSession.openRoute
    constructor
    · rintro ⟨a, h, rfl⟩
      split at h
      · exact absurd h yields_throw
      next first rest hpath =>
        split at h
        · exact absurd h yields_throw
        next pk hm =>
          obtain ⟨hgrant, t, ht, rfl, rfl⟩ := yields_mint.mp h
          refine ⟨pk, t, ⟨first, rest, hpath, hm⟩, hgrant, ht, rfl, ?_⟩
          obtain rfl : first = r.path.headD (.zero 32) := by rw [hpath, List.headD_cons]
          rfl
    · rintro ⟨pk, t, ⟨first, rest, hpath, hm⟩, hgrant, ht, rfl, rfl⟩
      split
      next hnil => simp [hnil] at hpath
      next first' rest' hcons =>
      obtain ⟨rfl, rfl⟩ := List.cons.inj (hcons.symm.trans hpath)
      simp only [hm]
      refine ⟨_, yields_mint.mpr ⟨hgrant, t, ht, rfl, rfl⟩, ?_⟩
      obtain rfl : first' = r.path.headD (.zero 32) := by rw [hpath, List.headD_cons]
      rfl
  | liquidity r =>
    refine yields_map.trans ?_
    unfold V4PrecompileSession.openModifyLiquidity
    simp only [yields_refuse]
    constructor
    · rintro ⟨a, ⟨hdelta, h⟩, rfl⟩
      split at h
      · exact absurd h yields_throw
      next pk hm =>
        obtain ⟨hgrant, t, ht, rfl, rfl⟩ := yields_mint.mp h
        exact ⟨pk, t, ⟨hdelta, hm⟩, hgrant, ht, rfl, rfl⟩
    · rintro ⟨pk, t, ⟨hdelta, hm⟩, hgrant, ht, rfl, rfl⟩
      rw [hm]
      exact ⟨_, ⟨hdelta, yields_mint.mpr ⟨hgrant, t, ht, rfl, rfl⟩⟩, rfl⟩
  | collect r => exact yields_removal (.inl ⟨rfl, rfl⟩)
  | cancel r => exact yields_removal (.inr ⟨rfl, rfl⟩)

end Opened

/-! ## The deployment -/

section Deployment

variable {sha256 : List UInt8 → ID} {tr : List (Ev dexSig)} {pi : PreparedIntent}

/-- **What is prepared** names the canonical address, the request's chains and the request's identity. -/
theorem prepare_names {v : V4PrecompileSession} {pk : PoolKeyArgs} {t : Token}
    (h : Yields ((r.session sha256 v pk t).prepare sha256 v.dex) tr pi) :
    pi.toAddr = addr9999 ∧ pi.cChainID = r.identity.cChainID ∧ pi.dChainID = r.identity.dChainID ∧
      pi.intentID = r.identity.id sha256 := by
  cases r with
  | swap r =>
    obtain ⟨tr1, tr2, u, rfl, -, hprep⟩ := yields_bind.mp h
    obtain ⟨-, -, pk', quoted, -, -, rfl⟩ := yields_prepareSwapIntent.mp hprep
    exact ⟨rfl, rfl, rfl, rfl⟩
  | route r =>
    obtain ⟨tr1, tr2, u, rfl, -, hlocal⟩ := yields_bind.mp h
    unfold V4RouteSession.prepareRouteLocal at hlocal
    split_ifs at hlocal
    · exact absurd hlocal yields_throw
    · exact absurd hlocal yields_throw
    split at hlocal
    · exact absurd hlocal yields_throw
    · obtain ⟨rfl, rfl⟩ := yields_pure.mp hlocal
      exact ⟨rfl, rfl, rfl, rfl⟩
  | liquidity r | collect r | cancel r =>
    obtain ⟨tr1, tr2, u, rfl, -, hret⟩ := yields_bind.mp h
    obtain ⟨rfl, rfl⟩ := yields_pure.mp hret
    exact ⟨rfl, rfl, rfl, rfl⟩

theorem opened_names {cfg : V4Config} {trOpen trPrepare : List (Ev dexSig)}
    (hopen : Yields ((newV4PrecompileSession dex cfg).openSession sha256 r) trOpen s)
    (hprepare : Yields (s.prepare sha256 dex) trPrepare pi) :
    (∃ pk, s.cap.scope = r.scope sha256 (newV4PrecompileSession dex cfg) pk) ∧ pi.toAddr = addr9999 ∧
      pi.cChainID = r.identity.cChainID ∧ pi.dChainID = r.identity.dChainID ∧
      pi.intentID = r.identity.id sha256 := by
  obtain ⟨pk, t, -, -, -, -, rfl⟩ := yields_openSession.mp hopen
  refine ⟨⟨pk, ?_⟩, prepare_names hprepare⟩
  cases r <;> rfl

def V4Config.identity (cfg : V4Config) (r : V4Request) : Identity :=
  { r.identity with
    networkID := cfg.networkID
    cChainID := cfg.cChainID
    dChainID := cfg.dChainID }

theorem V4Config.identity_eq_iff (cfg : V4Config) (r : V4Request) :
    r.identity = cfg.identity r ↔ r.identity.networkID = cfg.networkID ∧ r.identity.cChainID = cfg.cChainID ∧
      r.identity.dChainID = cfg.dChainID := by
  unfold V4Config.identity
  cases r.identity
  simp

theorem newV4PrecompileSession_addr (dex : Session) (cfg : V4Config) :
    (newV4PrecompileSession dex cfg).addr = addr9999 ↔ cfg.addr9999 = .zero 20 ∨ cfg.addr9999 = addr9999 := by
  unfold newV4PrecompileSession
  by_cases h : cfg.addr9999 = .zero 20
  · simp [h]
  · simp [h]

/-- **When a session acts on its own deployment.**  The scope of an opened session carries the configured
network, chains and address, and the intent id of the request. What the session prepares agrees with it, and
with the id on the configured deployment, exactly if the request names the configured network and chains and
the configured address is the canonical one. -/
theorem agrees_iff (sha256 : List UInt8 → ID) (dex : Session) (cfg : V4Config) (r : V4Request)
    (trOpen trPrepare : List (Ev dexSig)) (s : V4Session) (pi : PreparedIntent)
    (hopen : Yields ((newV4PrecompileSession dex cfg).openSession sha256 r) trOpen s)
    (hprepare : Yields (s.prepare sha256 dex) trPrepare pi)
    (hcr : sha256 r.identity.encode = sha256 (cfg.identity r).encode →
      r.identity.encode = (cfg.identity r).encode) :
    (s.cap.scope.networkID = cfg.networkID ∧ s.cap.scope.cChainID = cfg.cChainID ∧
      s.cap.scope.dChainID = cfg.dChainID ∧ s.cap.scope.addr = (newV4PrecompileSession dex cfg).addr ∧
      s.cap.scope.intentID = pi.intentID) ∧
    ((pi.toAddr = s.cap.scope.addr ∧ pi.cChainID = s.cap.scope.cChainID ∧
        pi.dChainID = s.cap.scope.dChainID ∧ pi.intentID = (cfg.identity r).id sha256) ↔
      (cfg.addr9999 = .zero 20 ∨ cfg.addr9999 = addr9999) ∧ r.identity.networkID = cfg.networkID ∧
        r.identity.cChainID = cfg.cChainID ∧ r.identity.dChainID = cfg.dChainID) := by
  obtain ⟨⟨pk, hscope⟩, hto, hc, hd, hid⟩ := opened_names hopen hprepare
  rw [hscope, hto, hc, hd, hid, Identity.id_inj hcr, cfg.identity_eq_iff, ← newV4PrecompileSession_addr dex cfg]
  refine ⟨⟨rfl, rfl, rfl, rfl, rfl⟩, ?_⟩
  constructor
  · rintro ⟨haddr, -, -, hnet, hcc, hdc⟩
    exact ⟨haddr.symm, hnet, hcc, hdc⟩
  · rintro ⟨haddr, hnet, hcc, hdc⟩
    exact ⟨haddr.symm, hcc, hdc, hnet, hcc, hdc⟩

end Deployment

/-- In place of the hash, for examples: every byte is the last one of the input, if that is not zero. -/
def lastByte (l : List UInt8) : ID := fill (if l.getLastD 0 = 0 then 1 else l.getLastD 0)

theorem lastByte_ne_zero (l : List UInt8) : lastByte l ≠ .zero 32 := by
  intro h
  have hbyte : (if l.getLastD 0 = 0 then 1 else l.getLastD 0) = (0 : UInt8) :=
    (List.cons.inj (congrArg Arr.bytes h)).1
  split_ifs at hbyte with hlast
  · exact absurd hbyte (by decide)
  · exact hlast hbyte

def sellNonce (nonce : UInt64) : SwapIntentRequest := { sell (.zero 20) 0 with nonce := nonce }

def deployment (cChainID : ID) : V4Config := ⟨1, cChainID, .zero 32, .zero 20⟩

theorem sale_opens (cfg : V4Config) (r : V4Request)
    (h : (((newV4PrecompileSession trader cfg).openSession lastByte r >>=
      (·.prepare lastByte trader)).run.eval offline).isOk) :
    ∃ tr s tr' pi, Yields ((newV4PrecompileSession trader cfg).openSession lastByte r) tr s ∧
      Yields (s.prepare lastByte trader) tr' pi := by
  obtain ⟨tr, pi, hruns⟩ := yields_of_eval (S := dexSig) offline h
  obtain ⟨tr1, tr2, s, -, hopen, hprepare⟩ := yields_bind.mp hruns
  exact ⟨tr1, s, tr2, pi, hopen, hprepare⟩

theorem sale_agrees : ∃ trOpen s trPrepare pi,
    Yields ((newV4PrecompileSession trader (deployment (.zero 32))).openSession lastByte
      (.swap (sellNonce 1))) trOpen s ∧
    Yields (s.prepare lastByte trader) trPrepare pi ∧
    pi.toAddr = s.cap.scope.addr ∧ pi.cChainID = s.cap.scope.cChainID ∧ pi.dChainID = s.cap.scope.dChainID ∧
      pi.intentID = ((deployment (.zero 32)).identity (.swap (sellNonce 1))).id lastByte := by
  obtain ⟨tr, s, tr', pi, hopen, hprepare⟩ :=
    sale_opens (deployment (.zero 32)) (.swap (sellNonce 1)) (by decide +kernel)
  refine ⟨tr, s, tr', pi, hopen, hprepare, ?_⟩
  exact (agrees_iff lastByte trader (deployment (.zero 32)) (.swap (sellNonce 1)) tr tr' s pi hopen hprepare
    fun _ => rfl).2.mpr ⟨.inl rfl, rfl, rfl, rfl⟩

/-- A sale on chain zero, opened and prepared on a deployment that is configured for another chain. -/
theorem sale_elsewhere : ∃ trOpen s trPrepare pi,
    Yields ((newV4PrecompileSession trader (deployment (fill 7))).openSession lastByte
      (.swap (sellNonce 1))) trOpen s ∧
    Yields (s.prepare lastByte trader) trPrepare pi ∧
    s.cap.scope.cChainID = (deployment (fill 7)).cChainID ∧ pi.cChainID ≠ (deployment (fill 7)).cChainID := by
  obtain ⟨tr, s, tr', pi, hopen, hprepare⟩ := sale_opens (deployment (fill 7)) (.swap (sellNonce 1)) (by decide +kernel)
  refine ⟨tr, s, tr', pi, hopen, hprepare, ?_⟩
  obtain ⟨⟨pk, hscope⟩, -, hc, -, -⟩ := opened_names hopen hprepare
  rw [hscope, hc]
  exact ⟨rfl, by decide⟩

end Zap.Dex
