/-
# Zap.Handshake.Frames — the frame codecs and the outer envelope (`handshake/frames.go`).

Encoders return the body of a frame; `writeFrame` and `readFrame` wrap a body as `type ∥ u32 length ∥ body`.
All integers are big-endian.
-/
import Zap.Handshake.Env

namespace Zap.Handshake

open Zap.Lib

def decodeErr (detail : String) : Err := .wrap .decodeError detail

/-! ## HELLO -/

structure HelloFrame where
  suite : SuiteID
  pqMode : PQMode
  clientRandom : Arr clientRandLen
  timestampNS : UInt64
  clientID : Arr idLen
  offeredSchemes : List SuiteID
  staticPKInitiator : Bytes
  deriving DecidableEq

/-- `u32(len) ∥ bytes`, as HELLO and the transcript both write the offered schemes. -/
def encodeSchemes (schemes : List SuiteID) : Bytes := be 4 schemes.length ++ schemes.map SuiteID.byte

/-- The bytes of a HELLO body, length checks aside. -/
def HelloFrame.bytes (h : HelloFrame) : Bytes :=
  [h.suite.byte, h.pqMode.byte] ++ h.clientRandom.bytes ++ be 8 h.timestampNS.toNat ++
    h.clientID.bytes ++ encodeSchemes h.offeredSchemes ++ h.staticPKInitiator

def HelloFrame.encode (h : HelloFrame) : Except Err Bytes :=
  if h.staticPKInitiator.length ≠ mldsa65PubLen then
    .error (decodeErr s!"HELLO static_pk_initiator length {h.staticPKInitiator.length}, want {mldsa65PubLen}")
  else if h.offeredSchemes.length = 0 then
    .error (decodeErr "HELLO offered_schemes empty")
  else .ok h.bytes

def helloFixedLen : Nat := 1 + 1 + clientRandLen + timestampLen + idLen + 4

def decodeHello (body : Bytes) : Except Err HelloFrame :=
  if body.length < helloFixedLen + mldsa65PubLen then
    .error (decodeErr s!"HELLO too short {body.length}")
  else
    let suite : SuiteID := ⟨body.getD 0 0⟩
    let schemesLen := ofBE (window body 58 4)
    if schemesLen > maxFrameBody ∨ schemesLen > body.length - helloFixedLen - mldsa65PubLen then
      .error (decodeErr s!"HELLO offered_schemes length {schemesLen} invalid")
    else if schemesLen = 0 then
      .error (decodeErr "HELLO offered_schemes empty")
    else
      let schemes := (window body helloFixedLen schemesLen).map SuiteID.mk
      let off := helloFixedLen + schemesLen
      if body.length - off ≠ mldsa65PubLen then
        .error (decodeErr s!"HELLO trailing {body.length - off - mldsa65PubLen} bytes after static_pk")
      else if suite ∉ schemes then
        .error (decodeErr ("HELLO suite 0x" ++ hex02 suite.byte ++ " not in offered_schemes"))
      else .ok
        { suite := suite
          pqMode := ⟨body.getD 1 0⟩
          clientRandom := .copy _ (window body 2 clientRandLen)
          timestampNS := UInt64.ofNat (ofBE (window body 18 timestampLen))
          clientID := .copy _ (window body 26 idLen)
          offeredSchemes := schemes
          staticPKInitiator := window body off mldsa65PubLen }

/-! ## KEM_INIT and KEM_REPLY -/

structure KEMInitFrame where
  x25519EphPub : Arr x25519PubLen
  mlkemEphPub : Arr mlkem768PubLen
  deriving DecidableEq

def KEMInitFrame.encode (k : KEMInitFrame) : Bytes := k.x25519EphPub.bytes ++ k.mlkemEphPub.bytes

def decodeKEMInit (body : Bytes) : Except Err KEMInitFrame :=
  if body.length ≠ x25519PubLen + mlkem768PubLen then
    .error (decodeErr s!"KEM_INIT length {body.length}, want {x25519PubLen + mlkem768PubLen}")
  else .ok
    { x25519EphPub := .copy _ (body.take x25519PubLen)
      mlkemEphPub := .copy _ (body.drop x25519PubLen) }

structure KEMReplyFrame where
  x25519EphPub : Arr x25519PubLen
  mlkemCiphertext : Arr mlkem768CTLen
  staticPKResponder : Bytes
  deriving DecidableEq

def KEMReplyFrame.encode (k : KEMReplyFrame) : Except Err Bytes :=
  if k.staticPKResponder.length ≠ mldsa65PubLen then
    .error (decodeErr s!"KEM_REPLY static_pk_responder length {k.staticPKResponder.length}, want {mldsa65PubLen}")
  else .ok (k.x25519EphPub.bytes ++ k.mlkemCiphertext.bytes ++ k.staticPKResponder)

def kemReplyLen : Nat := x25519PubLen + mlkem768CTLen + mldsa65PubLen

def decodeKEMReply (body : Bytes) : Except Err KEMReplyFrame :=
  if body.length ≠ kemReplyLen then
    .error (decodeErr s!"KEM_REPLY length {body.length}, want {kemReplyLen}")
  else .ok
    { x25519EphPub := .copy _ (window body 0 x25519PubLen)
      mlkemCiphertext := .copy _ (window body x25519PubLen mlkem768CTLen)
      staticPKResponder := window body (x25519PubLen + mlkem768CTLen) mldsa65PubLen }

/-! ## AUTH -/

structure AuthFrame where
  role : AuthRole
  signature : Bytes
  deriving DecidableEq

def AuthFrame.encode (a : AuthFrame) : Except Err Bytes :=
  if a.signature.length ≠ mldsa65SigLen then
    .error (decodeErr s!"AUTH signature length {a.signature.length}, want {mldsa65SigLen}")
  else if a.role ≠ roleInitiator ∧ a.role ≠ roleResponder then
    .error (decodeErr ("AUTH role 0x" ++ hex02 a.role.byte ++ " invalid"))
  else .ok (a.role.byte :: a.signature)

def decodeAuth (body : Bytes) : Except Err AuthFrame :=
  if body.length ≠ 1 + mldsa65SigLen then
    .error (decodeErr s!"AUTH length {body.length}, want {1 + mldsa65SigLen}")
  else
    let role : AuthRole := ⟨body.getD 0 0⟩
    if role ≠ roleInitiator ∧ role ≠ roleResponder then
      .error (decodeErr ("AUTH role 0x" ++ hex02 role.byte ++ " invalid"))
    else .ok { role := role, signature := body.drop 1 }

/-! ## DATA, REKEY and ALERT -/

structure DataFrame where
  nonceCounter : UInt64
  ciphertext : Bytes
  deriving DecidableEq

def DataFrame.encode (d : DataFrame) : Bytes := be64 d.nonceCounter ++ be 4 d.ciphertext.length ++ d.ciphertext

def decodeData (body : Bytes) : Except Err DataFrame :=
  if body.length < nonceCtrLen + 4 then
    .error (decodeErr s!"DATA too short {body.length}")
  else if ofBE (window body nonceCtrLen 4) ≠ body.length - nonceCtrLen - 4 then
    .error (decodeErr "DATA ciphertext length mismatch")
  else .ok
    { nonceCounter := ofBE64 (body.take nonceCtrLen)
      ciphertext := body.drop (nonceCtrLen + 4) }

structure RekeyFrame where
  reason : UInt8
  deriving DecidableEq

def rekeyReasonExplicit : UInt8 := 0x04

def RekeyFrame.encode (r : RekeyFrame) : Bytes := [r.reason]

def decodeRekey (body : Bytes) : Except Err RekeyFrame :=
  if body.length ≠ 1 then
    .error (decodeErr s!"REKEY length {body.length}, want 1")
  else .ok { reason := body.getD 0 0 }

structure AlertFrame where
  code : AlertCode
  detail : Bytes
  deriving DecidableEq

def AlertFrame.encode (a : AlertFrame) : Bytes := a.code.byte :: be 4 a.detail.length ++ a.detail

def decodeAlert (body : Bytes) : Except Err AlertFrame :=
  if body.length < 1 + 4 then
    .error (decodeErr s!"ALERT too short {body.length}")
  else if ofBE (window body 1 4) ≠ body.length - 5 then
    .error (decodeErr "ALERT detail length mismatch")
  else .ok { code := ⟨body.getD 0 0⟩, detail := body.drop 5 }

/-! ## HELLO_PSK -/

structure HelloPSKFrame where
  suite : SuiteID
  pqMode : PQMode
  clientRandom : Arr clientRandLen
  timestampNS : UInt64
  pskID : Arr pskIDLen
  x25519EphPub : Arr x25519PubLen
  deriving DecidableEq

def HelloPSKFrame.encode (h : HelloPSKFrame) : Bytes :=
  [h.suite.byte, h.pqMode.byte] ++ h.clientRandom.bytes ++ be 8 h.timestampNS.toNat ++
    h.pskID.bytes ++ h.x25519EphPub.bytes

def helloPSKLen : Nat := 1 + 1 + clientRandLen + timestampLen + pskIDLen + x25519PubLen

def decodeHelloPSK (body : Bytes) : Except Err HelloPSKFrame :=
  if body.length ≠ helloPSKLen then
    .error (decodeErr s!"HELLO_PSK length {body.length}, want {helloPSKLen}")
  else .ok
    { suite := ⟨body.getD 0 0⟩
      pqMode := ⟨body.getD 1 0⟩
      clientRandom := .copy _ (window body 2 clientRandLen)
      timestampNS := UInt64.ofNat (ofBE (window body 18 timestampLen))
      pskID := .copy _ (window body 26 pskIDLen)
      x25519EphPub := .copy _ (window body 42 x25519PubLen) }

/-! ## The outer envelope -/

/-- `type ∥ u32 length ∥ body`. -/
def envelope (t : FrameType) (body : Bytes) : Bytes := t.byte :: be 4 body.length ++ body

section Envelope

variable {C : Prims}

/-- The whole frame goes out in one `Write`; `writePooled_eq` of `Framing` puts the pooled buffer under it. -/
def writeFrame (t : FrameType) (body : Bytes) : M C Unit :=
  if body.length > maxFrameBody then
    throw (decodeErr s!"frame body {body.length} exceeds {maxFrameBody}")
  else do
    let err : Option String ← call (.write (envelope t body))
    match err with
    | none => pure ()
    | some e => throw (.other e)

def readFull (n : Nat) : M C (Arr n) := orFail (call (.readFull n))

def readFrame : M C (FrameType × Bytes) := do
  let hdr ← readFull 5
  let length := ofBE (hdr.bytes.drop 1)
  if length > maxFrameBody then
    throw (decodeErr s!"frame body {length} exceeds {maxFrameBody}")
  else if length > 0 then do
    let body ← readFull length
    pure (⟨hdr.bytes.getD 0 0⟩, body.bytes)
  else
    pure (⟨hdr.bytes.getD 0 0⟩, [])

/-- Emit the alert for a local error and return the same error; a failed write is ignored. -/
def writeAlertFor {α : Type} (e : Err) : M C α := do
  let _ ← ExceptT.lift
    (writeFrame frameAlert (AlertFrame.encode ⟨alertForError e, text e.error⟩) : M C Unit).run
  throw e

/-- The error a received ALERT frame turns into. -/
def alertErr (body : Bytes) : Err :=
  match decodeAlert body with
  | .error e => e
  | .ok a => errorForAlert a.code

def expectFrame (want : FrameType) : M C Bytes := do
  let (t, body) ← readFrame
  if t = frameAlert then throw (alertErr body)
  else if t ≠ want then
    throw (decodeErr ("expected frame 0x" ++ hex02 want.byte ++ ", got 0x" ++ hex02 t.byte))
  else pure body

/-- A decoded value, or the alert for the decoding error. -/
def orAlert {α : Type} : Except Err α → M C α
  | .ok a => pure a
  | .error e => writeAlertFor e

/-- `if cond { return nil, writeAlertFor(conn, e) }`. -/
def refuseIf (cond : Prop) [Decidable cond] (e : Err) : M C Unit := if cond then writeAlertFor e else pure ()

/-- `if err := p; err != nil { return nil, writeAlertFor(conn, f(err)) }`. -/
def orAlertWith {α : Type} (f : Err → Err) (p : M C α) : M C α := do
  let r ← ExceptT.lift p.run
  orAlert (r.mapError f)

end Envelope

end Zap.Handshake
