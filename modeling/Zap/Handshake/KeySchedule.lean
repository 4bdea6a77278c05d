/-
# Zap.Handshake.KeySchedule — the positions of the key schedule have different keys (`handshake/kdf.go`).

A traffic key is reached by one of the two derivations, in one of the two directions, after some ratchets
(`Position`). Of HKDF it is assumed that the calls made on the way to the keys that are compared do not collide,
`Extract` in salt and input and the 32-byte `Expand` in key and info. Injectivity on all inputs would imply that,
but no function into 32 bytes has it.

What is left is the encoding: labels, lengths and the epoch byte keep the inputs apart, and one ratchet can be
undone (`keyAt_inj`).
-/
import Mathlib.Data.Set.Function
import Zap.Handshake.Kdf

namespace Zap.Handshake

open Zap.Lib

/-! ## Positions -/

inductive Derivation
  | full (h2 : Arr transcriptLen) (x25519Shared : Arr x25519SharedLen) (mlkemShared : Arr mlkem768SharedLen)
  | resumed (h2psk : Arr transcriptLen) (x25519Shared : Arr x25519SharedLen) (resumptionPSK : Arr pskKeyLen)
  deriving DecidableEq

namespace Derivation

def keys (C : Prims) : Derivation → SessionKeys
  | full h2 x25519Shared mlkemShared => deriveSession C h2 x25519Shared mlkemShared
  | resumed h2psk x25519Shared resumptionPSK => deriveResumed C h2psk x25519Shared resumptionPSK

def extraction : Derivation → Bytes × Bytes
  | full h2 x m => (buildIKM x m, h2.bytes)
  | resumed h2psk x psk => (labelled lblX25519 x ++ labelled lblResumption psk, h2psk.bytes)

def prk (C : Prims) (d : Derivation) : Bytes := C.hkdfExtract d.extraction.1 d.extraction.2

theorem keys_eq (C : Prims) (d : Derivation) : d.keys C = expandKeys C (d.prk C) := by
  cases d <;> rfl

end Derivation

inductive Direction
  | initToResp
  | respToInit
  deriving DecidableEq

def Direction.label : Direction → Bytes
  | initToResp => lblSessionI2R
  | respToInit => lblSessionR2I

def SessionKeys.traffic (k : SessionKeys) : Direction → Arr aeadKeyLen
  | .initToResp => k.kInitToResp
  | .respToInit => k.kRespToInit

structure Position where
  derivation : Derivation
  direction : Direction
  ratchets : Fin 256
  deriving DecidableEq

def rekeyInfo (n : Nat) : Bytes := lblRekey ++ [0x00, UInt8.ofNat n, 0x00]

namespace Position

variable (C : Prims) (x : Position)

def first : Arr aeadKeyLen := (x.derivation.keys C).traffic x.direction

def key : Arr aeadKeyLen := keyAt C (x.first C) x.ratchets

/-- Key and info of the 32-byte expansions made on the way: three in the derivation, one in each ratchet. -/
def expansions : Set (Bytes × Bytes) :=
  {(x.derivation.prk C, lblSessionI2R), (x.derivation.prk C, lblSessionR2I), (x.derivation.prk C, lblResumption)} ∪
    {a | ∃ n < x.ratchets.val, a = ((keyAt C (x.first C) n).bytes, rekeyInfo n)}

end Position

def extractOf (C : Prims) (a : Bytes × Bytes) : Bytes := C.hkdfExtract a.1 a.2

def expandOf (C : Prims) (a : Bytes × Bytes) : Arr 32 := C.hkdfExpand a.1 a.2 32

/-! ## Encodings -/

theorem labelled_inj {label : Bytes} {a b : Arr 32} (h : labelled label a = labelled label b) : a = b := by
  have hbytes := List.append_cancel_left (List.cons.inj h).2
  exact Arr.ext (List.cons.inj hbytes).2

theorem labelled_length (label : Bytes) (a : Arr 32) : (labelled label a).length = label.length + 34 := by
  simp only [labelled, List.length_cons, List.length_append, a.len]

/-- Two labelled secrets are read back, under the labels they were written with. -/
theorem labelled_pair {l1 l2 : Bytes} {a b c d : Arr 32}
    (h : labelled l1 a ++ labelled l2 b = labelled l1 c ++ labelled l2 d) : a = c ∧ b = d := by
  obtain ⟨hfirst, hsecond⟩ := append_split (by rw [labelled_length, labelled_length]) h
  exact ⟨labelled_inj hfirst, labelled_inj hsecond⟩

theorem extraction_inj {d d' : Derivation} (h : d.extraction = d'.extraction) : d = d' := by
  obtain ⟨hikm, hsalt⟩ := Prod.mk.inj h
  have hlen := congrArg List.length hikm
  cases d with
  | full h2 x m =>
    cases d' with
    | full h2' x' m' =>
      obtain ⟨rfl, rfl⟩ := labelled_pair hikm
      obtain rfl := Arr.ext hsalt
      rfl
    | resumed h2' x' psk =>
      simp only [buildIKM, List.length_append, labelled_length] at hlen
      exact absurd hlen (by decide)
  | resumed h2 x psk =>
    cases d' with
    | full h2' x' m' =>
      simp only [buildIKM, List.length_append, labelled_length] at hlen
      exact absurd hlen (by decide)
    | resumed h2' x' psk' =>
      obtain ⟨rfl, rfl⟩ := labelled_pair hikm
      obtain rfl := Arr.ext hsalt
      rfl

theorem Direction.label_inj {a b : Direction} (h : a.label = b.label) : a = b := by
  cases a <;> cases b <;> first | rfl | exact absurd h (by decide)

theorem rekeyInfo_length (n : Nat) : (rekeyInfo n).length = 18 := by
  rw [rekeyInfo, List.length_append]
  rfl

theorem Direction.label_length (a : Direction) : a.label.length = 14 := by
  cases a <;> decide

theorem label_ne_rekey (a : Direction) (n : Nat) : a.label ≠ rekeyInfo n := fun h => by
  have hlen := congrArg List.length h
  rw [a.label_length, rekeyInfo_length] at hlen
  cases hlen

/-! ## Keys -/

section Keys

variable {C : Prims} {x y : Position}

theorem Position.first_eq (x : Position) : x.first C = expandOf C (x.derivation.prk C, x.direction.label) := by
  rw [Position.first, Derivation.keys_eq]
  cases x.direction <;> rfl

theorem Position.first_mem (x : Position) : (x.derivation.prk C, x.direction.label) ∈ x.expansions C := by
  cases hdir : x.direction <;> simp [Position.expansions, Direction.label]

theorem Position.psk_mem (x : Position) : (x.derivation.prk C, lblResumption) ∈ x.expansions C := by
  simp [Position.expansions]

theorem Position.ratchet_mem {n : Nat} (hn : n < x.ratchets.val) :
    ((keyAt C (x.first C) n).bytes, rekeyInfo n) ∈ x.expansions C := .inr ⟨n, hn, rfl⟩

theorem keyAt_succ (k : Arr aeadKeyLen) (n : Nat) :
    keyAt C k (n + 1) = expandOf C ((keyAt C k n).bytes, rekeyInfo n) := rfl

variable (hexpand : Set.InjOn (expandOf C) (x.expansions C ∪ y.expansions C))

include hexpand

/-- **Ratchets can be undone**: equal keys on two chains stand equally far from equal beginnings. -/
theorem keyAt_inj {n m : Nat} (hn : n ≤ x.ratchets.val) (hm : m ≤ y.ratchets.val)
    (h : keyAt C (x.first C) n = keyAt C (y.first C) m) :
    n = m ∧ x.derivation.prk C = y.derivation.prk C ∧ x.direction = y.direction := by
  induction n generalizing m with
  | zero =>
    have hx := x.first_eq.symm.trans h
    cases m with
    | zero =>
      obtain ⟨hprk, hlabel⟩ := Prod.mk.inj
        (hexpand (.inl x.first_mem) (.inr y.first_mem) (hx.trans y.first_eq))
      exact ⟨rfl, hprk, Direction.label_inj hlabel⟩
    | succ m =>
      obtain ⟨-, hlabel⟩ := Prod.mk.inj (hexpand (.inl x.first_mem) (.inr (Position.ratchet_mem hm)) hx)
      exact absurd hlabel (label_ne_rekey _ _)
  | succ n ih =>
    cases m with
    | zero =>
      obtain ⟨-, hlabel⟩ := Prod.mk.inj
        (hexpand (.inl (Position.ratchet_mem hn)) (.inr y.first_mem) (h.trans y.first_eq))
      exact absurd hlabel.symm (label_ne_rekey _ _)
    | succ m =>
      obtain ⟨hkey, -⟩ := Prod.mk.inj
        (hexpand (.inl (Position.ratchet_mem hn)) (.inr (Position.ratchet_mem hm)) h)
      obtain ⟨rfl, hrest⟩ := ih (Nat.le_of_succ_le hn) (Nat.le_of_succ_le hm) (Arr.ext hkey)
      exact ⟨rfl, hrest⟩

/-- A traffic key is no resumption PSK. -/
theorem key_ne_psk : (x.key C).bytes ≠ (y.derivation.keys C).resumptionPSK.bytes := by
  intro h
  have hpsk : (y.derivation.keys C).resumptionPSK = expandOf C (y.derivation.prk C, lblResumption) := by
    rw [Derivation.keys_eq]
    rfl
  have heq : x.key C = expandOf C (y.derivation.prk C, lblResumption) := hpsk ▸ Arr.ext h
  have hlen : lblResumption.length = 20 := by decide
  cases hn : x.ratchets.val with
  | zero =>
    rw [Position.key, hn, keyAt, Position.first_eq] at heq
    obtain ⟨-, hlabel⟩ := Prod.mk.inj (hexpand (.inl x.first_mem) (.inr y.psk_mem) heq)
    rw [← hlabel, Direction.label_length] at hlen
    cases hlen
  | succ n =>
    rw [Position.key, hn, keyAt_succ] at heq
    obtain ⟨-, hlabel⟩ := Prod.mk.inj
      (hexpand (.inl (Position.ratchet_mem (by omega))) (.inr y.psk_mem) heq)
    rw [← hlabel, rekeyInfo_length] at hlen
    cases hlen

end Keys

/-- **The key schedule does not repeat a key.**  Where the HKDF calls on the way to two traffic keys do not collide,
the keys are equal only at one position: the same derivation from the same inputs, the same direction, the same
number of ratchets. Neither is the resumption PSK of a derivation. -/
theorem key_schedule_injective (C : Prims) (x y : Position)
    (hextract : Set.InjOn (extractOf C) {x.derivation.extraction, y.derivation.extraction})
    (hexpand : Set.InjOn (expandOf C) (x.expansions C ∪ y.expansions C)) :
    (x.key C = y.key C → x = y) ∧ (x.key C).bytes ≠ (y.derivation.keys C).resumptionPSK.bytes := by
  refine ⟨fun h => ?_, key_ne_psk hexpand⟩
  obtain ⟨hratchets, hprk, hdirection⟩ := keyAt_inj hexpand le_rfl le_rfl h
  have hderivation : x.derivation = y.derivation := extraction_inj (hextract (.inl rfl) (.inr rfl) hprk)
  cases x
  cases y
  cases hderivation
  cases hdirection
  cases Fin.ext hratchets
  rfl

/-! ### A sample schedule

Expansions that show their info, so that those of one derivation are told apart. -/

def schedulePrims : Prims := { samplePrims with hkdfExpand := fun _ info n => .copy n (info.drop lblProtocol.length) }

def sampleDerivation : Derivation := .full (.zero _) (.zero _) (.zero _)

theorem key_schedule_sample :
    (⟨sampleDerivation, .initToResp, 1⟩ : Position).key schedulePrims ≠
      (⟨sampleDerivation, .respToInit, 0⟩ : Position).key schedulePrims ∧
    ((⟨sampleDerivation, .initToResp, 1⟩ : Position).key schedulePrims).bytes ≠
      (sampleDerivation.keys schedulePrims).resumptionPSK.bytes := by
  have hexpand : Set.InjOn (expandOf schedulePrims)
      ((⟨sampleDerivation, .initToResp, 1⟩ : Position).expansions schedulePrims ∪
        (⟨sampleDerivation, .respToInit, 0⟩ : Position).expansions schedulePrims) := by
    -- four expansions, and the infos differ within the first bytes
    have hmem : ∀ a ∈ ((⟨sampleDerivation, .initToResp, 1⟩ : Position).expansions schedulePrims ∪
        (⟨sampleDerivation, .respToInit, 0⟩ : Position).expansions schedulePrims),
        a = (sampleDerivation.prk schedulePrims, lblSessionI2R) ∨
          a = (sampleDerivation.prk schedulePrims, lblSessionR2I) ∨
          a = (sampleDerivation.prk schedulePrims, lblResumption) ∨ ∃ k, k = (⟨sampleDerivation, .initToResp, 1⟩ :
            Position).first schedulePrims ∧ a = (k.bytes, rekeyInfo 0) := by
      rintro a (((rfl | rfl | rfl) | ⟨n, hn, rfl⟩) | ((rfl | rfl | rfl) | ⟨n, hn, rfl⟩))
      · exact .inl rfl
      · exact .inr (.inl rfl)
      · exact .inr (.inr (.inl rfl))
      · obtain rfl : n = 0 := Nat.lt_one_iff.mp hn
        exact .inr (.inr (.inr ⟨_, rfl, rfl⟩))
      · exact .inl rfl
      · exact .inr (.inl rfl)
      · exact .inr (.inr (.inl rfl))
      · exact absurd hn (Nat.not_lt_zero n)
    intro a ha b hb h
    rcases hmem a ha with rfl | rfl | rfl | ⟨k, rfl, rfl⟩ <;> rcases hmem b hb with rfl | rfl | rfl | ⟨k', rfl, rfl⟩ <;>
      first | rfl | exact absurd h (by decide)
  have hextract : Set.InjOn (extractOf schedulePrims) {sampleDerivation.extraction, sampleDerivation.extraction} := by
    rintro a (rfl | rfl) b (rfl | rfl) - <;> rfl
  obtain ⟨hkeys, hpsk⟩ := key_schedule_injective schedulePrims ⟨sampleDerivation, .initToResp, 1⟩
    ⟨sampleDerivation, .respToInit, 0⟩ hextract hexpand
  exact ⟨fun h => absurd (hkeys h) (by decide), hpsk⟩

end Zap.Handshake
