/-
# Zap.Attestation — the transcript a channel attestation signs (`pq_attestation.go`).

`TranscriptHash` absorbs six fields into SHAKE256, each behind its bit length in the `left_encode` form of
SP 800-185. Five of them have fixed widths; the peer's ML-KEM key is whatever the peer sent. Two facts make
the string unambiguous:

* `leftEncode_split`: a `left_encode` is told apart from what follows it, since its first byte counts the rest;
* behind the key the string has a fixed width, so the key ends where that begins.

The second is why nothing depends on the key's length being the length announced: a bit length that wraps at
`2^64` still leaves the key unambiguous.
-/
import Zap.Handshake.Labels

namespace Zap.Attestation

open Zap.Lib
open Zap.Handshake (text)

/-! ## `left_encode` -/

/-- The digits of `x` without leading zeros, at least one of them, behind their number. -/
def leftEncode (x : UInt64) : List UInt8 :=
  if x = 0 then [0x01, 0x00]
  else
    let buf := be64 x
    -- `for i < 7 && buf[i] == 0 { i++ }`
    let i := ((buf.take 7).takeWhile (· = 0)).length
    UInt8.ofNat (8 - i) :: buf.drop i

theorem ofBE_zeros_append {z : List UInt8} (hz : ∀ d ∈ z, d = 0) (l : List UInt8) : ofBE (z ++ l) = ofBE l := by
  induction z with
  | nil => rfl
  | cons d z ih =>
    obtain rfl := hz d List.mem_cons_self
    exact ih fun e he => hz e (List.mem_cons_of_mem _ he)

/-- The first byte counts the digits, and the digits spell the number. -/
theorem leftEncode_eq (x : UInt64) :
    ∃ digits, leftEncode x = UInt8.ofNat digits.length :: digits ∧ digits.length ≤ 8 ∧ ofBE digits = x.toNat := by
  unfold leftEncode
  split_ifs with h
  · subst h
    exact ⟨[0], rfl, by decide, rfl⟩
  have hlead : ((be64 x).take 7).takeWhile (· = 0) <+: be64 x :=
    (List.takeWhile_prefix _).trans (List.take_prefix 7 _)
  have hzero : ∀ d ∈ ((be64 x).take 7).takeWhile (· = 0), d = 0 := by
    intro d hd
    simpa using List.all_eq_true.mp List.all_takeWhile d hd
  have hsplit := List.prefix_iff_eq_append.mp hlead
  refine ⟨(be64 x).drop (((be64 x).take 7).takeWhile (· = 0)).length, ?_, ?_, ?_⟩
  · rw [List.length_drop, be64_length]
  · rw [List.length_drop, be64_length]
    omega
  · rw [← ofBE_zeros_append hzero, hsplit, be64, ofBE_be_of_lt x.toNat_lt]

variable {a b f g : List UInt8}

/-- **`left_encode` is prefix-free**: behind it a string goes on in one way only. -/
theorem leftEncode_split {x y : UInt64} (h : leftEncode x ++ a = leftEncode y ++ b) : x = y ∧ a = b := by
  obtain ⟨dx, hx, hdx, hxval⟩ := leftEncode_eq x
  obtain ⟨dy, hy, hdy, hyval⟩ := leftEncode_eq y
  rw [hx, hy, List.cons_append, List.cons_append] at h
  obtain ⟨hcount, h⟩ := List.cons.inj h
  have hlen : dx.length = dy.length := by
    have hsmall : 8 < UInt8.size := by decide
    have hcount := congrArg UInt8.toNat hcount
    rwa [UInt8.toNat_ofNat_of_lt' (by omega), UInt8.toNat_ofNat_of_lt' (by omega)] at hcount
  obtain ⟨rfl, hrest⟩ := append_split hlen h
  exact ⟨UInt64.toNat_inj.mp (hxval.symm.trans hyval), hrest⟩

example : leftEncode 9472 = [2, 37, 0] := by decide

/-! ## The transcript -/

structure AttestationContext where
  tlsCertFingerprint : Arr 32
  chainID : Arr 32
  peerMLKEMPub : List UInt8
  timestamp : UInt64
  nonce : Arr 32
  deriving DecidableEq

/-- `leftEncode(uint64(len(field)) * 8)` and the field; the product is taken modulo `2^64`. -/
def framed (field : List UInt8) : List UInt8 := leftEncode (UInt64.ofNat field.length * 8) ++ field

def domainTag : List UInt8 := text "ZAP-PQ-V1"

/-- The string absorbed before the first squeeze. -/
def AttestationContext.transcript (ctx : AttestationContext) : List UInt8 :=
  framed domainTag ++ (framed ctx.tlsCertFingerprint.bytes ++ (framed ctx.chainID.bytes ++
    (framed ctx.peerMLKEMPub ++ (framed (be64 ctx.timestamp) ++ framed ctx.nonce.bytes))))

/-- SHAKE256 squeezed for 48 bytes is a parameter. -/
def transcriptHash (shake256 : List UInt8 → Arr 48) (ctx : AttestationContext) : Arr 48 := shake256 ctx.transcript

theorem framed_length_congr (h : f.length = g.length) : (framed f).length = (framed g).length := by
  simp [framed, h]

theorem framed_unframe (h : framed f ++ a = framed g ++ b) : f ++ a = g ++ b := by
  rw [framed, framed, List.append_assoc, List.append_assoc] at h
  exact (leftEncode_split h).2

/-- Behind a frame of a known width a string goes on in one way only. -/
theorem framed_split (hlen : f.length = g.length) (h : framed f ++ a = framed g ++ b) : f = g ∧ a = b :=
  append_split hlen (framed_unframe h)

theorem transcript_injective : Function.Injective AttestationContext.transcript := by
  intro c c' h
  unfold AttestationContext.transcript at h
  obtain ⟨-, h⟩ := framed_split rfl h
  obtain ⟨hcert, h⟩ := framed_split (by rw [Arr.len, Arr.len]) h
  obtain ⟨hchain, h⟩ := framed_split (by rw [Arr.len, Arr.len]) h
  have hkey := framed_unframe h
  -- the key is what stands before the two fields of fixed width
  have hwidth : (framed (be64 c.timestamp) ++ framed c.nonce.bytes).length =
      (framed (be64 c'.timestamp) ++ framed c'.nonce.bytes).length := by
    have htime : (framed (be64 c.timestamp)).length = (framed (be64 c'.timestamp)).length :=
      framed_length_congr (by rw [be64_length, be64_length])
    have hnonce : (framed c.nonce.bytes).length = (framed c'.nonce.bytes).length :=
      framed_length_congr (by rw [c.nonce.len, c'.nonce.len])
    rw [List.length_append, List.length_append, htime, hnonce]
  obtain ⟨hpub, h⟩ := List.append_inj' hkey hwidth
  obtain ⟨htime, hrest⟩ := framed_split (by rw [be64_length, be64_length]) h
  have hnonce : c.nonce.bytes = c'.nonce.bytes := by
    rw [← List.append_nil (framed _), ← List.append_nil (framed c'.nonce.bytes)] at hrest
    exact (framed_split (by rw [c.nonce.len, c'.nonce.len]) hrest).1
  cases c
  cases c'
  simp only [AttestationContext.mk.injEq]
  exact ⟨Arr.ext hcert, Arr.ext hchain, hpub, be64_injective htime, Arr.ext hnonce⟩

/-- **The transcript is unambiguous.**  Two contexts absorb one string only if they are the same context; so
without a collision of SHAKE256 between their two strings they have one hash only if they are the same. -/
theorem transcript_unambiguous (shake256 : List UInt8 → Arr 48) (c c' : AttestationContext) :
    (c.transcript = c'.transcript → c = c') ∧
      ((shake256 c.transcript = shake256 c'.transcript → c.transcript = c'.transcript) →
        transcriptHash shake256 c = transcriptHash shake256 c' → c = c') :=
  ⟨fun h => transcript_injective h, fun hcr h => transcript_injective (hcr h)⟩

def plainContext (key : List UInt8) : AttestationContext := ⟨.zero 32, .zero 32, key, 0, .zero 32⟩

def lengthHash (s : List UInt8) : Arr 48 := .copy 48 (be 8 s.length)

/-- The keys `[]` and `[0]` give two hashes. -/
theorem transcript_unambiguous_keys :
    transcriptHash lengthHash (plainContext []) ≠ transcriptHash lengthHash (plainContext [0]) := by
  intro h
  have hapart : lengthHash (plainContext []).transcript ≠ lengthHash (plainContext [0]).transcript := by
    decide +kernel
  have hsame := (transcript_unambiguous lengthHash (plainContext []) (plainContext [0])).2
    (fun heq => absurd heq hapart) h
  exact absurd hsame (by decide)

end Zap.Attestation
