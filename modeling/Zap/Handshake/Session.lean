/-
# Zap.Handshake.Session — the post-handshake AEAD stream (`handshake/session.go`).

A session method takes the session and returns it together with the method's result, so the state an
early `return err` leaves behind is part of the model: a failed write leaves the send counter where it
was, a REKEY that went out before a failing DATA frame stays in force. The transport (`rw`), its close
hook and the two mutexes are not fields here; `Send` and `Recv` touch disjoint fields, and each is
atomic under its own mutex. An AEAD object is `nil` or AES-GCM under the key it was built from.
-/
import Zap.Handshake.Frames
import Zap.Handshake.Kdf

namespace Zap.Handshake

open Zap.Lib

/-! ## The client's cached PSK -/

structure ClientPSK where
  id : Arr pskIDLen
  psk : Arr pskKeyLen
  peerID : Arr idLen
  validUntil : Int

def makeClientPSK {C : Prims} (psk : Arr pskKeyLen) (peerID : Arr idLen) (now : Int) :
    M C ClientPSK := do
  let id ← pskID psk
  pure { id := id, psk := psk, peerID := peerID, validUntil := now + pskLifetimeSec * second }

/-! ## Session state -/

structure Session where
  role : AuthRole
  peerID : Arr idLen
  suite : SuiteID
  sendKey : Arr aeadKeyLen
  sendSalt : Arr nonceSaltLen
  sendCounter : UInt64
  sendEpoch : UInt8
  sendBytes : UInt64
  sendBase : Int
  sendBytesCap : UInt64
  sendFrameCap : UInt64
  sendTimeCap : Int
  sendDir : AuthRole
  sendAEAD : AEAD
  recvKey : Arr aeadKeyLen
  recvSalt : Arr nonceSaltLen
  recvCounter : UInt64
  recvHave : Bool
  recvEpoch : UInt8
  recvDir : AuthRole
  recvAEAD : AEAD
  closed : Bool
  clientPSK : Option ClientPSK

def newAEAD (key : Arr aeadKeyLen) : AEAD := .gcm key

/-- A session at its first counters, sending under the first key and salt and receiving under the second. -/
def Session.keyed (role : AuthRole) (peerID : Arr idLen) (suite : SuiteID) (now : Int)
    (sendKey : Arr aeadKeyLen) (sendSalt : Arr nonceSaltLen) (sendDir : AuthRole)
    (recvKey : Arr aeadKeyLen) (recvSalt : Arr nonceSaltLen) (recvDir : AuthRole)
    (clientPSK : Option ClientPSK) : Session where
  role := role
  peerID := peerID
  suite := suite
  sendKey := sendKey
  sendSalt := sendSalt
  sendCounter := 0
  sendEpoch := 0
  sendBytes := 0
  sendBase := now
  sendBytesCap := rekeyBytesCap
  sendFrameCap := rekeyFrameCap
  sendTimeCap := rekeyTimeSec * second
  sendDir := sendDir
  sendAEAD := newAEAD sendKey
  recvKey := recvKey
  recvSalt := recvSalt
  recvCounter := 0
  recvHave := false
  recvEpoch := 0
  recvDir := recvDir
  recvAEAD := newAEAD recvKey
  closed := false
  clientPSK := clientPSK

variable {C : Prims}

def newSession (role : AuthRole) (peerID : Arr idLen) (suite : SuiteID) (keys : SessionKeys)
    (now : Int) : M C Session :=
  if role = roleInitiator then do
    let psk ← makeClientPSK keys.resumptionPSK peerID now
    pure (.keyed role peerID suite now
      keys.kInitToResp keys.saltInitToResp roleInitiator
      keys.kRespToInit keys.saltRespToInit roleResponder (some psk))
  else if role = roleResponder then
    pure (.keyed role peerID suite now
      keys.kRespToInit keys.saltRespToInit roleResponder
      keys.kInitToResp keys.saltInitToResp roleInitiator none)
  else throw (.other ("zap-pq: invalid session role 0x" ++ hex02 role.byte))

/-! ## Nonce and associated data -/

def buildNonce (salt : Arr nonceSaltLen) (counter : UInt64) : Arr aeadNonceLen :=
  ⟨salt.bytes ++ be64 counter, by simp⟩

/-- `frame_type ∥ u32 length ∥ direction ∥ epoch`. -/
def buildAAD (t : FrameType) (length : Nat) (dir : AuthRole) (epoch : UInt8) : Arr 7 :=
  ⟨t.byte :: be 4 length ++ [dir.byte, epoch], by simp⟩

namespace Session

/-! ## Sending -/

def rekeyDue (s : Session) (addBytes : UInt64) (t : Int) : Bool :=
  s.sendCounter + 1 ≥ s.sendFrameCap || s.sendBytes + addBytes ≥ s.sendBytesCap ||
    t - s.sendBase ≥ s.sendTimeCap

/-- The clock is read only when neither the frame nor the byte threshold decides. -/
def needsRekeyLocked (s : Session) (addBytes : UInt64) : P C Bool :=
  if s.sendCounter + 1 ≥ s.sendFrameCap then pure true
  else if s.sendBytes + addBytes ≥ s.sendBytesCap then pure true
  else do
    let t : Int ← ask .now
    pure (decide (t - s.sendBase ≥ s.sendTimeCap))

def ratchetSend (C : Prims) (s : Session) (base : Int) : Session :=
  let next := ratchet C s.sendKey s.sendEpoch
  { s with
    sendKey := next.1
    sendSalt := next.2
    sendEpoch := s.sendEpoch + 1
    sendCounter := 0
    sendBytes := 0
    sendBase := base
    sendAEAD := newAEAD next.1 }

def rekeyBody : Bytes := RekeyFrame.encode ⟨rekeyReasonExplicit⟩

def rekeyLocalLocked (s : Session) : P C (Session × Except Err Unit) :=
  if s.sendEpoch = 0xFF then pure (s, .error (.sentinel .epochExhausted))
  else do
    let w ← (writeFrame frameRekey rekeyBody).run
    match w with
    | .error e => pure (s, .error e)
    | .ok _ => do
        let base : Int ← ask .now
        pure (s.ratchetSend C base, .ok ())

/-- The `uint32` ciphertext and body lengths of a payload; both wrap. -/
def ctLen (payload : Bytes) : Nat := (payload.length + aeadTagLen) % 2 ^ 32
def outerLen (payload : Bytes) : Nat := (nonceCtrLen + 4 + ctLen payload) % 2 ^ 32

def advance (s : Session) (payload : Bytes) : Session :=
  { s with
    sendCounter := s.sendCounter + 1
    sendBytes := s.sendBytes + UInt64.ofNat payload.length }

/-- The part of `Send` after the rekey decision: seal, check the length, write, then advance. -/
def sendData (s : Session) (payload : Bytes) : P C (Session × Except Err Unit) :=
  if outerLen payload > maxFrameBody then
    pure (s, .error (decodeErr s!"DATA payload too large {payload.length}"))
  else do
    let ct : Bytes ← ask (.aeadSeal s.sendAEAD (buildNonce s.sendSalt s.sendCounter) payload
      (buildAAD frameData (outerLen payload) s.sendDir s.sendEpoch).bytes)
    if ct.length ≠ ctLen payload then
      pure (s, .error (.other s!"zap-pq: AEAD seal length unexpected {ct.length} != {ctLen payload}"))
    else do
      let w ← (writeFrame frameData (DataFrame.encode ⟨s.sendCounter, ct⟩)).run
      match w with
      | .error e => pure (s, .error e)
      | .ok _ => pure (s.advance payload, .ok ())

def send (s : Session) (payload : Bytes) : P C (Session × Except Err Unit) :=
  if s.closed then pure (s, .error (.sentinel .sessionClosed))
  else do
    let need ← s.needsRekeyLocked (UInt64.ofNat payload.length)
    if need then do
      let (s', r) ← s.rekeyLocalLocked
      match r with
      | .error e => pure (s', .error e)
      | .ok _ => s'.sendData payload
    else s.sendData payload

def rekey (s : Session) : P C (Session × Except Err Unit) :=
  if s.closed then pure (s, .error (.sentinel .sessionClosed))
  else s.rekeyLocalLocked

/-! ## Receiving -/

/-- Send the alert for `e`, ignoring a failed write, and fail with `e`. -/
def failWith {α : Type} (s : Session) (e : Err) : P C (Session × Except Err α) := do
  let _ ← (writeAlertFor e : M C Unit).run
  pure (s, .error e)

def ratchetRecv (C : Prims) (s : Session) : Session :=
  let next := ratchet C s.recvKey s.recvEpoch
  { s with
    recvKey := next.1
    recvSalt := next.2
    recvEpoch := s.recvEpoch + 1
    recvCounter := 0
    recvHave := false
    recvAEAD := newAEAD next.1 }

def accept (s : Session) (ctr : UInt64) : Session := { s with recvCounter := ctr, recvHave := true }

def handleDataLocked (s : Session) (body : Bytes) : P C (Session × Except Err Bytes) :=
  match decodeData body with
  | .error e => s.failWith e
  | .ok d =>
    if s.recvHave ∧ d.nonceCounter ≤ s.recvCounter then
      s.failWith (.wrap .nonceViolation s!"counter {d.nonceCounter} ≤ last {s.recvCounter}")
    else if d.nonceCounter ≥ rekeyFrameCap then
      s.failWith (.wrap .nonceViolation
        s!"counter {d.nonceCounter} past cap {rekeyFrameCap} without REKEY")
    else do
      let r : Option Bytes ← ask (.aeadOpen s.recvAEAD (buildNonce s.recvSalt d.nonceCounter)
        d.ciphertext (buildAAD frameData ((nonceCtrLen + 4 + d.ciphertext.length) % 2 ^ 32)
          s.recvDir s.recvEpoch).bytes)
      match r with
      | none => s.failWith (.sentinel .authFailed)
      | some plain => pure (s.accept d.nonceCounter, .ok plain)

theorem ratchetRecv_epoch_lt {s : Session} (h : s.recvEpoch ≠ 0xFF) :
    255 - (s.ratchetRecv C).recvEpoch.toNat < 255 - s.recvEpoch.toNat := by
  have hlt := s.recvEpoch.toNat_lt
  have hne : s.recvEpoch.toNat ≠ 255 := fun hc => h (UInt8.toNat_inj.mp hc)
  simp only [ratchetRecv, UInt8.toNat_add, UInt8.toNat_ofNat]
  omega

/-- The loop of `Recv`: REKEY frames are absorbed, any other frame ends it. Each round raises the
receive epoch, which is never raised past `0xFF`. -/
def recvLoop (s : Session) : P C (Session × Except Err Bytes) := do
  let f ← readFrame.run
  match f with
  | .error e => pure (s, .error e)
  | .ok (t, body) =>
    if t = frameData then s.handleDataLocked body
    else if t = frameRekey then
      match decodeRekey body with
      | .error e => s.failWith e
      | .ok _ =>
        if _ : s.recvEpoch = 0xFF then s.failWith (.sentinel .epochExhausted)
        else recvLoop (s.ratchetRecv C)
    else if t = frameAlert then pure (s, .error (alertErr body))
    else s.failWith (decodeErr ("unexpected session frame 0x" ++ hex02 t.byte))
termination_by 255 - s.recvEpoch.toNat
decreasing_by exact ratchetRecv_epoch_lt ‹_›

def recv (s : Session) : P C (Session × Except Err Bytes) :=
  if s.closed then pure (s, .error (.sentinel .sessionClosed))
  else s.recvLoop

/-! ## Closing -/

/-- Keys and salts are zeroed and the AEAD objects dropped; a second close does nothing. -/
def close (s : Session) : Session :=
  if s.closed then s
  else
    { s with
      closed := true
      sendKey := .zero _
      sendSalt := .zero _
      sendAEAD := .null
      recvKey := .zero _
      recvSalt := .zero _
      recvAEAD := .null }

end Session

end Zap.Handshake
