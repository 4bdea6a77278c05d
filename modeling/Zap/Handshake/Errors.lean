/-
# Zap.Handshake.Errors — alert codes, sentinel errors and the map between them (`handshake/errors.go`).

An error value is a bare sentinel, a sentinel wrapped with a detail (`fmt.Errorf("%w: …")`), or an error
with no sentinel inside (transport failures, misuse of the API). `Err.is` is `errors.Is` on the sentinels.
-/
import Zap.Handshake.Labels

namespace Zap.Handshake

open Zap.Lib

/-! ## Error values -/

inductive Sentinel
  | decodeError
  | unsupportedSuite
  | authFailed
  | replayDetected
  | downgradeRefused
  | handshakeTimeout
  | nonceViolation
  | pskUnknown
  | vmIdentityMismatch
  | authoritySigFailed
  | policyRefused
  | magicMismatch
  | sessionClosed
  | epochExhausted
  deriving DecidableEq

def Sentinel.text : Sentinel → String
  | .decodeError => "zap-pq: decode_error"
  | .unsupportedSuite => "zap-pq: unsupported_ciphersuite"
  | .authFailed => "zap-pq: auth_failed"
  | .replayDetected => "zap-pq: replay_detected"
  | .downgradeRefused => "zap-pq: downgrade_refused"
  | .handshakeTimeout => "zap-pq: handshake_timeout"
  | .nonceViolation => "zap-pq: nonce_violation"
  | .pskUnknown => "zap-pq: psk_unknown"
  | .vmIdentityMismatch => "zap-pq: vm_identity_mismatch"
  | .authoritySigFailed => "zap-pq: authority_sig_failed"
  | .policyRefused => "zap-pq: policy_refused"
  | .magicMismatch => "zap-pq: magic prefix mismatch"
  | .sessionClosed => "zap-pq: session closed"
  | .epochExhausted => "zap-pq: epoch wrap forbidden, reconnect required"

inductive Err
  /-- The sentinel itself. -/
  | sentinel (s : Sentinel)
  /-- `fmt.Errorf("%w: detail", sentinel)`. -/
  | wrap (s : Sentinel) (detail : String)
  /-- An error that wraps no sentinel. -/
  | other (msg : String)
  deriving DecidableEq

def Err.error : Err → String
  | .sentinel s => s.text
  | .wrap s detail => s.text ++ ": " ++ detail
  | .other msg => msg

def Err.is : Err → Sentinel → Bool
  | .sentinel t, s => t = s
  | .wrap t _, s => t = s
  | .other _, _ => false

def hex02 (b : UInt8) : String :=
  let digit (n : Nat) : Char := "0123456789abcdef".toList.getD n '0'
  String.ofList [digit (b.toNat / 16), digit (b.toNat % 16)]

/-! ## Alert codes -/

structure AlertCode where
  byte : UInt8
  deriving DecidableEq

def alertDecodeError : AlertCode := ⟨0x01⟩
def alertUnsupportedSuite : AlertCode := ⟨0x02⟩
def alertAuthFailed : AlertCode := ⟨0x03⟩
def alertReplayDetected : AlertCode := ⟨0x04⟩
def alertDowngradeRefused : AlertCode := ⟨0x05⟩
def alertHandshakeTimeout : AlertCode := ⟨0x06⟩
def alertNonceViolation : AlertCode := ⟨0x07⟩
def alertPSKUnknown : AlertCode := ⟨0x08⟩
def alertVMIdentityMismatch : AlertCode := ⟨0x09⟩
def alertAuthoritySigFailed : AlertCode := ⟨0x0A⟩
def alertPolicyRefused : AlertCode := ⟨0x0B⟩

/-- The cases of `errorForAlert`. -/
def alertSentinels : List (AlertCode × Sentinel) :=
  [(alertDecodeError, .decodeError), (alertUnsupportedSuite, .unsupportedSuite),
   (alertAuthFailed, .authFailed), (alertReplayDetected, .replayDetected),
   (alertDowngradeRefused, .downgradeRefused), (alertHandshakeTimeout, .handshakeTimeout),
   (alertNonceViolation, .nonceViolation), (alertPSKUnknown, .pskUnknown),
   (alertVMIdentityMismatch, .vmIdentityMismatch),
   (alertAuthoritySigFailed, .authoritySigFailed), (alertPolicyRefused, .policyRefused)]

/-- The local error a received alert stands for; unknown codes still fail closed. -/
def errorForAlert (c : AlertCode) : Err :=
  match alertSentinels.find? fun p => p.1 = c with
  | some p => .sentinel p.2
  | none => .wrap .decodeError ("unknown alert 0x" ++ hex02 c.byte)

/-- The cases of `alertForError`, in the order of its switch. -/
def alertCodes : List (Sentinel × AlertCode) :=
  [(.authFailed, alertAuthFailed), (.replayDetected, alertReplayDetected),
   (.downgradeRefused, alertDowngradeRefused), (.handshakeTimeout, alertHandshakeTimeout),
   (.nonceViolation, alertNonceViolation), (.pskUnknown, alertPSKUnknown),
   (.unsupportedSuite, alertUnsupportedSuite), (.vmIdentityMismatch, alertVMIdentityMismatch),
   (.authoritySigFailed, alertAuthoritySigFailed), (.policyRefused, alertPolicyRefused)]

/-- The code sent for a local error; `decode_error` is the catch-all. -/
def alertForError (e : Err) : AlertCode :=
  match alertCodes.find? fun p => e.is p.1 with
  | some p => p.2
  | none => alertDecodeError

end Zap.Handshake
