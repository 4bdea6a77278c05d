/-
# Zap.Handshake.Kdf — session keys, resumption keys and the rekey ratchet (`handshake/kdf.go`).

`keyAt k n` and `saltAt k₀ s₀ n` are the key and the nonce salt of epoch `n` along the ratchet chain that
starts at a session's first key: the proofs about sessions speak of chain positions, the code of the
current key and epoch byte.
-/
import Zap.Handshake.Env

namespace Zap.Handshake

open Zap.Lib

structure SessionKeys where
  kInitToResp : Arr aeadKeyLen
  kRespToInit : Arr aeadKeyLen
  saltInitToResp : Arr nonceSaltLen
  saltRespToInit : Arr nonceSaltLen
  resumptionPSK : Arr pskKeyLen

section Kdf

variable (C : Prims)

/-- The five expansions `DeriveSession` and `DeriveResumed` end with. -/
def expandKeys (prk : Bytes) : SessionKeys where
  kInitToResp := C.hkdfExpand prk lblSessionI2R aeadKeyLen
  kRespToInit := C.hkdfExpand prk lblSessionR2I aeadKeyLen
  saltInitToResp := C.hkdfExpand prk lblSaltI2R nonceSaltLen
  saltRespToInit := C.hkdfExpand prk lblSaltR2I nonceSaltLen
  resumptionPSK := C.hkdfExpand prk lblResumption pskKeyLen

/-- `u8(len label) ∥ label ∥ u8(32) ∥ secret`: one of the two labelled secrets of the key material. -/
def labelled (label : Bytes) (secret : Arr 32) : Bytes := UInt8.ofNat label.length :: label ++ 32 :: secret.bytes

def buildIKM (x25519Shared : Arr x25519SharedLen) (mlkemShared : Arr mlkem768SharedLen) : Bytes :=
  labelled lblX25519 x25519Shared ++ labelled lblMLKEM mlkemShared

def deriveSession (h2 : Arr transcriptLen) (x25519Shared : Arr x25519SharedLen)
    (mlkemShared : Arr mlkem768SharedLen) : SessionKeys :=
  expandKeys C (C.hkdfExtract (buildIKM x25519Shared mlkemShared) h2.bytes)

/-- As `deriveSession`, with the cached PSK as second secret under the resumption label. -/
def deriveResumed (h2psk : Arr transcriptLen) (x25519Shared : Arr x25519SharedLen)
    (resumptionPSK : Arr pskKeyLen) : SessionKeys :=
  expandKeys C (C.hkdfExtract
    (labelled lblX25519 x25519Shared ++ labelled lblResumption resumptionPSK) h2psk.bytes)

/-- Next key and nonce salt; the two infos differ in their last byte. -/
def ratchet (kPrev : Arr aeadKeyLen) (epoch : UInt8) : Arr aeadKeyLen × Arr nonceSaltLen :=
  (C.hkdfExpand kPrev.bytes (lblRekey ++ [0x00, epoch, 0x00]) aeadKeyLen,
   C.hkdfExpand kPrev.bytes (lblRekey ++ [0x00, epoch, 0x01]) nonceSaltLen)

/-- The key of epoch `n` on the chain from `k`. -/
def keyAt (k : Arr aeadKeyLen) : Nat → Arr aeadKeyLen
  | 0 => k
  | n + 1 => (ratchet C (keyAt k n) (UInt8.ofNat n)).1

/-- The nonce salt of epoch `n` on the chain from `k`, whose own salt is `salt`. -/
def saltAt (k : Arr aeadKeyLen) (salt : Arr nonceSaltLen) : Nat → Arr nonceSaltLen
  | 0 => salt
  | n + 1 => (ratchet C (keyAt C k n) (UInt8.ofNat n)).2

/-- No two epochs of the chain from `k` have the same key. -/
def ChainDistinct (k : Arr aeadKeyLen) : Prop := ∀ i ≤ 255, ∀ j ≤ 255, keyAt C k i = keyAt C k j → i = j

/-- No epoch of the chain from `k` has the key of an epoch of the chain from `l`. -/
def ChainsDisjoint (k l : Arr aeadKeyLen) : Prop := ∀ i ≤ 255, ∀ j ≤ 255, keyAt C k i ≠ keyAt C l j

end Kdf

section PskId

variable {C : Prims}

/-- The 16-byte truncation of SHA3-256 of a resumption key. -/
def pskIDOf (C : Prims) (psk : Arr pskKeyLen) : Arr pskIDLen := .copy _ ((C.sha3 psk.bytes).bytes.take pskIDLen)

def pskID (psk : Arr pskKeyLen) : M C (Arr pskIDLen) := do
  let h ← sum256 psk.bytes
  pure (.copy _ (h.bytes.take pskIDLen))

end PskId

/-! ## A sample instance

Small primitives for runs on concrete inputs: keys are tags, secrets are sums of tags, a digest is the
length of its input with the first bytes of it. Every law the theorems name holds of them. -/

def tagged (n : Nat) (tag : UInt8) : Arr n := .copy n [tag]

def sampleParse (b : Bytes) : Except String UInt8 :=
  if b = (tagged mldsa65PubLen (b.headD 0)).bytes then .ok (b.headD 0) else .error "bad key"

def samplePrims : Prims where
  XSec := UInt8
  KemSec := UInt8
  KemPub := UInt8
  Coins := UInt8
  SigSec := UInt8
  SigPub := UInt8
  sha3 x := .copy _ (be 8 x.length ++ x)
  hkdfExtract secret salt := secret ++ salt
  hkdfExpand prk info n := .copy n (prk.headD 0 :: info.drop lblRekey.length)
  xPub x := tagged _ x
  ecdh x pub := .ok (tagged _ (x + pub.bytes.headD 0))
  kemPub k := k
  kemPubBytes k := (tagged mlkem768PubLen k).bytes
  kemPubOfBytes b := .ok (b.headD 0)
  encaps pk coins := ((tagged mlkem768CTLen coins).bytes, (tagged mlkem768SharedLen (pk + coins)).bytes)
  decaps sk ct := .ok (tagged mlkem768SharedLen (sk + ct.headD 0)).bytes
  sigPub k := k
  sigPubBytes k := (tagged mldsa65PubLen k).bytes
  sigPubOfBytes b := sampleParse b

instance : DecidableEq samplePrims.SigPub := inferInstanceAs (DecidableEq UInt8)

theorem tagged_head {n : Nat} (hn : 0 < n) (tag : UInt8) : (tagged n tag).bytes.headD 0 = tag := by
  cases n with
  | zero => cases hn
  | succ n => rfl

theorem samplePrims_lawful : samplePrims.Lawful where
  ecdh_comm := by
    intro (a : UInt8) (b : UInt8)
    have hsum : a + (tagged x25519PubLen b).bytes.headD 0 = b + (tagged x25519PubLen a).bytes.headD 0 := by
      rw [tagged_head (by decide), tagged_head (by decide), UInt8.add_comm]
    exact congrArg (fun t => Except.ok (tagged x25519SharedLen t)) hsum
  kemPubBytes_length pk := (tagged mlkem768PubLen pk).len
  kemPubOfBytes_bytes pk := congrArg Except.ok (tagged_head (n := mlkem768PubLen) (by decide) pk)
  decaps_encaps := by
    intro (sk : UInt8) (coins : UInt8)
    have hsum : sk + (tagged mlkem768CTLen coins).bytes.headD 0 = sk + coins := by
      rw [tagged_head (by decide)]
    exact congrArg (fun t => Except.ok (tagged mlkem768SharedLen t).bytes) hsum
  sigPubOfBytes_bytes := by
    intro (pk : UInt8)
    have hhead : (tagged mldsa65PubLen pk).bytes.headD 0 = pk := tagged_head (by decide) pk
    have hok : sampleParse (tagged mldsa65PubLen pk).bytes = .ok pk := by
      rw [sampleParse, hhead, if_pos rfl]
    exact hok
  sigPubBytes_ofBytes := by
    intro b (pk : UInt8) (h : sampleParse b = .ok pk)
    unfold sampleParse at h
    split at h
    · rename_i hb
      rw [← Except.ok.inj h]
      exact hb.symm
    · cases h

/-- A sample chain key: the chain's tag, then a one that no ratcheted key has. -/
def sampleKey (tag : UInt8) : Arr aeadKeyLen := .copy _ [tag, 1]

def sampleKeys : SessionKeys where
  kInitToResp := sampleKey 1
  kRespToInit := sampleKey 2
  saltInitToResp := tagged _ 1
  saltRespToInit := tagged _ 2
  resumptionPSK := tagged _ 3

theorem keyAt_sample (tag : UInt8) (n : Nat) :
    keyAt samplePrims (sampleKey tag) (n + 1) = .copy _ [tag, 0, UInt8.ofNat n, 0] := by
  induction n with
  | zero => rfl
  | succ n ih =>
    rw [keyAt, ih]
    rfl

theorem sample_chain_distinct (tag : UInt8) : ChainDistinct samplePrims (sampleKey tag) := by
  intro i hi j hj h
  have hbytes := congrArg Arr.bytes h
  cases i with
  | zero =>
    cases j with
    | zero => rfl
    | succ j =>
      rw [keyAt_sample] at hbytes
      simp [keyAt, sampleKey, Arr.copy] at hbytes
  | succ i =>
    cases j with
    | zero =>
      rw [keyAt_sample] at hbytes
      simp [keyAt, sampleKey, Arr.copy] at hbytes
    | succ j =>
      rw [keyAt_sample, keyAt_sample] at hbytes
      have hbyte : UInt8.ofNat i = UInt8.ofNat j := by
        simpa [Arr.copy] using hbytes
      have hnat : i % 256 = j % 256 := by
        simpa using congrArg UInt8.toNat hbyte
      omega

theorem keyAt_sample_head (tag : UInt8) (n : Nat) :
    (keyAt samplePrims (sampleKey tag) n).bytes.head? = some tag := by
  cases n with
  | zero => rfl
  | succ n =>
    rw [keyAt_sample]
    rfl

theorem sample_chains_disjoint {tag tag' : UInt8} (h : tag ≠ tag') :
    ChainsDisjoint samplePrims (sampleKey tag) (sampleKey tag') := by
  intro i _ j _ heq
  have hhead := keyAt_sample_head tag i
  rw [heq, keyAt_sample_head] at hhead
  exact h (Option.some.inj hhead).symm

end Zap.Handshake
