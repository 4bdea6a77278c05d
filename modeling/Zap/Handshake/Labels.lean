/-
# Zap.Handshake.Labels — sizes, registries and labels of the wire (`handshake/labels.go`).

The registry bytes (suites, modes, profiles, frame types, roles) are one-byte newtypes, as in the source:
any byte can arrive on the wire, and the named constants are the ones the code compares against.
-/
import Zap.Lib.Bytes

namespace Zap.Handshake

open Zap.Lib

abbrev Bytes := List UInt8

def text (s : String) : Bytes := s.toUTF8.data.toList

/-! ## Sizes and limits -/

abbrev magicLen : Nat := 4
abbrev clientRandLen : Nat := 16
abbrev idLen : Nat := 32
abbrev timestampLen : Nat := 8
abbrev pskIDLen : Nat := 16
abbrev pskKeyLen : Nat := 32
abbrev x25519PubLen : Nat := 32
abbrev x25519SharedLen : Nat := 32
abbrev mlkem768PubLen : Nat := 1184
abbrev mlkem768CTLen : Nat := 1088
abbrev mlkem768SharedLen : Nat := 32
abbrev mldsa65PubLen : Nat := 1952
abbrev mldsa65SigLen : Nat := 3309
abbrev aeadKeyLen : Nat := 32
abbrev aeadNonceLen : Nat := 12
abbrev aeadTagLen : Nat := 16
abbrev nonceSaltLen : Nat := 4
abbrev nonceCtrLen : Nat := 8
abbrev transcriptLen : Nat := 32

def maxFrameBody : Nat := 2 ^ 24

def second : Int := 1000000000

def replayWindowNS : Int := 30 * second
def replayCacheTTLSec : Int := 60
def pskLifetimeSec : Int := 3600
def rekeyTimeSec : Int := 3600
def rekeyFrameCap : UInt64 := 2147483648
def rekeyBytesCap : UInt64 := 107374182400

/-- The prefix `"ZPQ1"` every handshake opens with. -/
def magic : Arr magicLen := ⟨[0x5A, 0x50, 0x51, 0x31], rfl⟩

/-! ## Registry bytes -/

structure SuiteID where
  byte : UInt8
  deriving DecidableEq

def suiteReservedLo : SuiteID := ⟨0x00⟩
def suiteX25519MLKEM : SuiteID := ⟨0x01⟩

/-- Only `0x01` is callable; reserved and unallocated identifiers are not. -/
def SuiteID.isValid (s : SuiteID) : Bool := s = suiteX25519MLKEM

structure PQMode where
  byte : UInt8
  deriving DecidableEq

def pqModeClassicalPermitted : PQMode := ⟨0x00⟩
def pqModePQRequired : PQMode := ⟨0x01⟩
def pqModePQOnly : PQMode := ⟨0x02⟩

structure Profile where
  byte : UInt8
  deriving DecidableEq

def profileStrictPQ : Profile := ⟨0x01⟩
def profileFIPS : Profile := ⟨0x03⟩

/-- The test `p == ProfileStrictPQ || p == ProfileFIPS` both state machines repeat. -/
def Profile.strict (p : Profile) : Bool := p = profileStrictPQ || p = profileFIPS

structure FrameType where
  byte : UInt8
  deriving DecidableEq

def frameHello : FrameType := ⟨0x01⟩
def frameKEMInit : FrameType := ⟨0x02⟩
def frameKEMReply : FrameType := ⟨0x03⟩
def frameAuth : FrameType := ⟨0x04⟩
def frameData : FrameType := ⟨0x05⟩
def frameRekey : FrameType := ⟨0x06⟩
def frameAlert : FrameType := ⟨0x07⟩
def frameHelloPSK : FrameType := ⟨0x08⟩

structure AuthRole where
  byte : UInt8
  deriving DecidableEq

def roleInitiator : AuthRole := ⟨0x49⟩
def roleResponder : AuthRole := ⟨0x52⟩

/-! ## Labels -/

def lblProtocol : Bytes := text "ZAP-PQ-v1"
def lblX25519 : Bytes := text "X25519"
def lblMLKEM : Bytes := text "ML-KEM-768"
def lblSessionI2R : Bytes := text "ZAP-PQ-v1 i->r"
def lblSessionR2I : Bytes := text "ZAP-PQ-v1 r->i"
def lblSaltI2R : Bytes := text "ZAP-PQ-v1 nonce-salt i->r"
def lblSaltR2I : Bytes := text "ZAP-PQ-v1 nonce-salt r->i"
def lblResumption : Bytes := text "ZAP-PQ-v1 resumption"
def lblRekey : Bytes := text "ZAP-PQ-v1 rekey"
def lblAuthI : Bytes := text "ZAP-PQ-v1 auth initiator"
def lblAuthR : Bytes := text "ZAP-PQ-v1 auth responder"

/-- The ML-DSA context string of every AUTH signature. -/
def signCtx : Bytes := text "lux-zap-pq-v1"

/-- The role-binding label of the sign input; `nil` for a byte that is no role. -/
def AuthRole.label (r : AuthRole) : Bytes :=
  if r = roleInitiator then lblAuthI
  else if r = roleResponder then lblAuthR
  else []

end Zap.Handshake
