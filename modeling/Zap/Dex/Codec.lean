/-
# Zap.Dex.Codec — the values of the session protocol and their envelopes (`wire.go`, `wire_intent.go`).

An envelope is one object: every field of the value at its own offset, a fixed array inline and a byte
string behind the section. The writer and the reader of a value are kept apart as the source has them, and
`Carries` says that they fit: the built message parses, is tagged with the message type, and reads back as
the value. The readers take any message; what they return for a hostile one is whatever its bytes say.

SHA-256 is a parameter (`sha256`).
-/
import Zap.Dex.Calldata
import Zap.Wire.Envelope

namespace Zap.Dex

open Zap.Lib Zap.Wire

/-! ## Values -/

structure QuoteRequest where
  marketID : ID
  amountIn : UInt64
  zeroForOne : Bool

structure QuoteResult where
  marketID : ID
  amountIn : UInt64
  amountOut : UInt64
  bestPricePx : UInt64
  liquid : Bool
  deriving DecidableEq

structure SwapIntentRequest where
  networkID : UInt32
  cChainID : ID
  dChainID : ID
  account : Account
  assetIn : ID
  assetInAddr : Account
  amountIn : UInt64
  marketID : ID
  minAmountOut : UInt64
  recipient : Account
  deadline : UInt64
  nonce : UInt64

structure PreparedIntent where
  toAddr : Account
  calldata : List UInt8
  hookData : List UInt8
  intentID : ID
  quotedOut : UInt64
  dChainID : ID
  cChainID : ID
  account : Account
  recipient : Account
  assetIn : ID
  amountIn : UInt64
  marketID : ID
  deriving DecidableEq

structure DExportRef where
  sourceChainID : ID
  sourceTxID : ID
  outputIndex : UInt32
  intentID : ID
  deriving DecidableEq

abbrev SettlementMode := UInt8

def settleCalldata : SettlementMode := 0

structure SettlementSubmitResult where
  mode : SettlementMode
  toAddr : Account
  calldata : List UInt8
  objectKey : ID
  cTxHash : ID
  deriving DecidableEq

def addr9999 : Account := ⟨List.replicate 18 0 ++ [0x99, 0x99], rfl⟩

/-! ## Derived ids -/

section Ids

variable (sha256 : List UInt8 → ID)

def nativeIntentDomain : List UInt8 := "lux.dex.native.intent.v1".toUTF8.data.toList

def deriveIntentID (networkID : UInt32) (cChainID dChainID : ID) (account : Account) (assetIn : ID)
    (amountIn : UInt64) (marketID : ID) (nonce : UInt64) : ID :=
  sha256 (nativeIntentDomain ++ be 4 networkID.toNat ++ cChainID.bytes ++ dChainID.bytes ++
    account.bytes ++ assetIn.bytes ++ be64 amountIn ++ marketID.bytes ++ be64 nonce)

def deriveUTXOID (sourceTxID : ID) (outputIndex : UInt32) : ID := sha256 (sourceTxID.bytes ++ be 4 outputIndex.toNat)

def DExportRef.objectKey (r : DExportRef) : ID := deriveUTXOID sha256 r.sourceTxID r.outputIndex

end Ids

/-! ## Envelopes -/

def msgQuote : Nat := 0xA0

def msgImport : Nat := 0xA5

def QuoteRequest.fields (r : QuoteRequest) : Fields :=
  .cons 0 (.fixed r.marketID.bytes) <| .cons 32 (.scalar .w64 r.amountIn.toNat) <|
    .cons 40 (.scalar .w8 r.zeroForOne.toNat) .nil

def buildQuoteRequest (r : QuoteRequest) : Go (Except WireError Message) :=
  envelope (48 + 40) 48 r.fields (msgQuote <<< 8)

def readQuoteRequest (m : Message) : Go QuoteRequest := do
  return {
    marketID := ← array 32 m.root 0
    amountIn := ← u64 m.root 32
    zeroForOne := ← bool m.root 40 }

theorem QuoteRequest.wf (r : QuoteRequest) : (Wire.Tree.node 48 r.fields).WF := by
  simp [Wire.Tree.WF, QuoteRequest.fields, Fields.WF, Fields.Clear, Field.width, Apart, Width.bytes]

theorem quoteRequest_carries (r : QuoteRequest) :
    Carries (buildQuoteRequest r) msgQuote readQuoteRequest r := by
  refine envelope_carries r.wf trivial (by decide) (show 16 + 48 + 0 < 2 ^ 32 by decide) ?_
  rintro m ⟨hmarket, hamount, hdir, -⟩
  simp only [readQuoteRequest, Message.root, array_of_reads hmarket, u64_of_reads hamount,
    bool_of_reads hdir, go_bind_ok, go_pure]

def QuoteResult.fields (r : QuoteResult) : Fields :=
  .cons 0 (.fixed r.marketID.bytes) <| .cons 32 (.scalar .w64 r.amountIn.toNat) <|
    .cons 40 (.scalar .w64 r.amountOut.toNat) <| .cons 48 (.scalar .w64 r.bestPricePx.toNat) <|
    .cons 56 (.scalar .w8 r.liquid.toNat) .nil

def buildQuoteResult (r : QuoteResult) : Go (Except WireError Message) :=
  envelope (64 + 40) 64 r.fields (msgQuote <<< 8)

def readQuoteResult (m : Message) : Go QuoteResult := do
  return {
    marketID := ← array 32 m.root 0
    amountIn := ← u64 m.root 32
    amountOut := ← u64 m.root 40
    bestPricePx := ← u64 m.root 48
    liquid := ← bool m.root 56 }

theorem quoteResult_carries (r : QuoteResult) : Carries (buildQuoteResult r) msgQuote readQuoteResult r := by
  have hwf : (Wire.Tree.node 64 r.fields).WF := by
    simp [Wire.Tree.WF, QuoteResult.fields, Fields.WF, Fields.Clear, Field.width, Apart, Width.bytes]
  refine envelope_carries hwf trivial (by decide) (show 16 + 64 + 0 < 2 ^ 32 by decide) ?_
  rintro m ⟨hmarket, hin, hout, hprice, hliquid, -⟩
  simp only [readQuoteResult, Message.root, array_of_reads hmarket, u64_of_reads hin, u64_of_reads hout,
    u64_of_reads hprice, bool_of_reads hliquid, go_bind_ok, go_pure]

def DExportRef.fields (r : DExportRef) : Fields :=
  .cons 0 (.scalar .w32 r.outputIndex.toNat) <| .cons 8 (.fixed r.sourceChainID.bytes) <|
    .cons 40 (.fixed r.sourceTxID.bytes) <| .cons 72 (.fixed r.intentID.bytes) .nil

def buildDExportRef (r : DExportRef) : Go (Except WireError Message) :=
  envelope (104 + 120) 104 r.fields (msgImport <<< 8)

def readDExportRef (m : Message) : Go DExportRef := do
  return {
    outputIndex := ← u32 m.root 0
    sourceChainID := ← array 32 m.root 8
    sourceTxID := ← array 32 m.root 40
    intentID := ← array 32 m.root 72 }

theorem DExportRef.wf (r : DExportRef) : (Wire.Tree.node 104 r.fields).WF := by
  simp [Wire.Tree.WF, DExportRef.fields, Fields.WF, Fields.Clear, Field.width, Apart, Width.bytes]

theorem dExportRef_carries (r : DExportRef) : Carries (buildDExportRef r) msgImport readDExportRef r := by
  refine envelope_carries r.wf trivial (by decide) (show 16 + 104 + 0 < 2 ^ 32 by decide) ?_
  rintro m ⟨hindex, hchain, htx, hintent, -⟩
  simp only [readDExportRef, Message.root, u32_of_reads hindex, array_of_reads hchain, array_of_reads htx,
    array_of_reads hintent, go_bind_ok, go_pure]

def SettlementSubmitResult.fields (s : SettlementSubmitResult) : Fields :=
  .cons 0 (.scalar .w8 s.mode.toNat) <| .cons 8 (.fixed s.toAddr.bytes) <|
    .cons 28 (.fixed s.objectKey.bytes) <| .cons 60 (.fixed s.cTxHash.bytes) <|
    .cons 92 (.bytes s.calldata) .nil

def buildSettlementResult (s : SettlementSubmitResult) : Go (Except WireError Message) :=
  envelope (100 + s.calldata.length + 120) 100 s.fields (msgImport <<< 8)

def readSettlementResult (m : Message) : Go SettlementSubmitResult := do
  return {
    mode := ← u8 m.root 0
    toAddr := ← array 20 m.root 8
    objectKey := ← array 32 m.root 28
    cTxHash := ← array 32 m.root 60
    calldata := ← bytes m.root 92 }

theorem settlementResult_carries_iff (s : SettlementSubmitResult) :
    Carries (buildSettlementResult s) msgImport readSettlementResult s ↔ s.calldata.length + 116 < 2 ^ 32 := by
  have hwf : (Wire.Tree.node 100 s.fields).WF := by
    simp [Wire.Tree.WF, SettlementSubmitResult.fields, Fields.WF, Fields.Clear, Field.width, Apart, Width.bytes]
  refine (envelope_carries_iff hwf trivial (by decide) (by decide) ?_ ?_).trans ?_
  · rintro - m ⟨hmode, hto, hkey, htx, hcall, -⟩
    simp only [readSettlementResult, Message.root, u8_of_reads hmode, array_of_reads hto, array_of_reads hkey,
      array_of_reads htx, bytes_of_reads hcall, go_bind_ok, go_pure]
  · intro m hlen h
    simp only [readSettlementResult, go_bind_eq_ok] at h
    obtain ⟨_, -, _, -, _, -, _, -, c, hc, hs⟩ := h
    cases hs
    exact (bytes_le m (by decide) hlen hc).trans (Nat.sub_le ..)
  · show 16 + 100 + (s.calldata.length + 0) < 2 ^ 32 ↔ _
    omega

end Zap.Dex
