/-
# Zap.Handshake.Responder — the server side of the handshake (`handshake/responder.go`).

The full handshake is cut like the initiator's: `admitHello` holds every gate on the HELLO, `replyKEM` reads
KEM_INIT and answers it, then come the transcript, the two AUTH frames and `finish`. The resumed one is
`admitPSK`, `redeemPSK` and `finishResume`. Replay cache and PSK store are shared between connections:
here they are the requests of the world, and a responder only knows whether it was given one.

Not modelled: the read deadline on a `net.Conn`, and the zeroing of secrets.
-/
import Zap.Handshake.Identity
import Zap.Handshake.Psk
import Zap.Handshake.Replay

namespace Zap.Handshake

open Zap.Lib Zap.Lib.Proc

structure Responder (C : Prims) where
  localIdentity : Option (Identity C)
  profile : Profile
  acceptedSuites : List SuiteID
  hasReplayCache : Bool
  hasPSKStore : Bool

variable {C : Prims}

/-! ## The gates -/

namespace Responder

def acceptsSuite (rs : Responder C) (s : SuiteID) : Bool :=
  if ¬s.isValid then false
  else if rs.acceptedSuites.length = 0 then s = suiteX25519MLKEM
  else rs.acceptedSuites.any fun a => a = s

/-- The strict-profile gate; a HELLO_PSK carries no schemes. -/
def checkDowngrade (rs : Responder C) (pqMode : PQMode) (schemes : List SuiteID) : M C Unit :=
  if rs.profile.strict then do
    refuseIf (pqMode = pqModeClassicalPermitted) (.sentinel .downgradeRefused)
    refuseIf (∃ s ∈ schemes, ¬s.isValid) (.sentinel .downgradeRefused)
  else pure ()

def checkReplay (rs : Responder C) (timestampNS : UInt64) (key : M C ReplayKey) : M C Unit :=
  if rs.hasReplayCache then replayGate timestampNS key else pure ()

end Responder

/-! ## The full handshake -/

/-- The initiator as its HELLO presents it. -/
structure Caller (C : Prims) where
  hello : HelloFrame
  initIdentity : Identity C

def Responder.admitHello (rs : Responder C) (helloBody : Bytes) : M C (Caller C) := do
  let hello ← orAlert (decodeHello helloBody)
  refuseIf (¬rs.acceptsSuite hello.suite) (.sentinel .unsupportedSuite)
  rs.checkDowngrade hello.pqMode hello.offeredSchemes
  rs.checkReplay hello.timestampNS (pure ⟨hello.clientID, hello.clientRandom⟩)
  let expectedID ← sum256 hello.staticPKInitiator
  refuseIf (expectedID ≠ hello.clientID) (.wrap .authFailed "client_id ≠ SHA3-256(static_pk_initiator)")
  let initIdentity ← orAlert ((identityFromPublicBytes hello.staticPKInitiator).mapError decodeErr)
  pure { hello := hello, initIdentity := initIdentity }

/-- What the responder holds once KEM_REPLY is out. -/
structure Replied where
  kemInitBody : Bytes
  replyBody : Bytes
  xShared : Arr x25519SharedLen
  mlkemShared : Arr mlkem768SharedLen

/-- Read KEM_INIT and answer it; `NewPublicKey` of 32 bytes does not fail. -/
def replyKEM (me : Identity C) : M C Replied := do
  let kemInitBody ← expectFrame frameKEMInit
  let kemInit ← orAlert (decodeKEMInit kemInitBody)
  let xEphSK ← orFail (call .genX25519)
  let xShared ← orAlert ((C.ecdh xEphSK kemInit.x25519EphPub).mapError fun e => .wrap .authFailed e)
  let mlkemPub ← orAlert ((C.kemPubOfBytes kemInit.mlkemEphPub.bytes).mapError decodeErr)
  let drawn ← call (.encapsulate mlkemPub)
  let coins ← orAlert (Except.mapError (fun e => .wrap .authFailed e) drawn)
  let (mlkemCT, mlkemShared) := C.encaps mlkemPub coins
  refuseIf (mlkemCT.length ≠ mlkem768CTLen)
    (.wrap .authFailed s!"ML-KEM ciphertext length {mlkemCT.length}")
  let reply : KEMReplyFrame :=
    { x25519EphPub := C.xPub xEphSK, mlkemCiphertext := .copy _ mlkemCT, staticPKResponder := me.publicBytes }
  let replyBody ← orAlert reply.encode
  writeFrame frameKEMReply replyBody
  pure { kemInitBody := kemInitBody, replyBody := replyBody, xShared := xShared, mlkemShared := .copy _ mlkemShared }

def Responder.issueFor (rs : Responder C) (initIdentity : Identity C) (psk : Arr pskKeyLen) : M C Unit :=
  if rs.hasPSKStore then do
    let clientID ← initIdentity.id
    issue psk clientID
  else pure ()

def Responder.finish (rs : Responder C) (caller : Caller C) (r : Replied) (h2 : Arr transcriptLen) :
    M C Session := do
  let keys := deriveSession C h2 r.xShared r.mlkemShared
  rs.issueFor caller.initIdentity keys.resumptionPSK
  let peerID ← caller.initIdentity.id
  let t : Int ← call .now
  newSession roleResponder peerID caller.hello.suite keys t

def Responder.runFull (rs : Responder C) (me : Identity C) (helloBody : Bytes) : M C Session := do
  let caller ← rs.admitHello helloBody
  let r ← replyKEM me
  let h2 ← fullTranscript caller.hello.suite helloBody r.kemInitBody r.replyBody
    caller.hello.staticPKInitiator me.publicBytes caller.hello.offeredSchemes
  sendAuth me h2 roleResponder caller.hello.suite
  readAuth caller.initIdentity h2 roleInitiator "expected initiator AUTH, got 0x" caller.hello.suite
  rs.finish caller r h2

/-! ## The resumed handshake -/

/-- The key a HELLO_PSK takes in the replay cache: its id is hashed into the space of client ids. -/
def pskReplayKey (hello : HelloPSKFrame) : M C ReplayKey := do
  let pskHash ← sum256 hello.pskID.bytes
  pure ⟨pskHash, hello.clientRandom⟩

def Responder.admitPSK (rs : Responder C) (helloBody : Bytes) : M C HelloPSKFrame := do
  let hello ← orAlert (decodeHelloPSK helloBody)
  refuseIf (¬rs.acceptsSuite hello.suite) (.sentinel .unsupportedSuite)
  rs.checkDowngrade hello.pqMode []
  rs.checkReplay hello.timestampNS (pskReplayKey hello)
  pure hello

def Responder.redeemPSK (rs : Responder C) (id : Arr pskIDLen) : M C (Arr pskKeyLen × Arr idLen) :=
  if ¬rs.hasPSKStore then writeAlertFor (.sentinel .pskUnknown)
  else do
    let found ← call (.redeem id)
    orAlert (match found with
      | none => .error (.sentinel .pskUnknown)
      | some entry => .ok entry)

/-- What follows the redemption; the store is there, so the next PSK is always issued. -/
def finishResume (hello : HelloPSKFrame) (helloBody : Bytes) (psk : Arr pskKeyLen)
    (clientID : Arr idLen) : M C Session := do
  let xEphSK ← orFail (call .genX25519)
  let xShared ← orAlert ((C.ecdh xEphSK hello.x25519EphPub).mapError fun e => .wrap .authFailed e)
  writeFrame frameKEMReply (C.xPub xEphSK).bytes
  let h2psk ← pskTranscript hello.suite helloBody (C.xPub xEphSK).bytes
  let keys := deriveResumed C h2psk xShared psk
  issue keys.resumptionPSK clientID
  let t : Int ← call .now
  newSession roleResponder clientID hello.suite keys t

def Responder.runResume (rs : Responder C) (helloBody : Bytes) : M C Session := do
  let hello ← rs.admitPSK helloBody
  let (psk, clientID) ← rs.redeemPSK hello.pskID
  finishResume hello helloBody psk clientID

/-! ## The entry point -/

/-- The magic prefix; a mismatch is reported without an alert. -/
def readMagic : M C Unit := do
  let got ← readFull magicLen
  if got ≠ magic then throw (.sentinel .magicMismatch) else pure ()

def Responder.dispatch (rs : Responder C) (me : Identity C) (t : FrameType) (body : Bytes) : M C Session :=
  if t = frameHello then rs.runFull me body
  else if t = frameHelloPSK then rs.runResume body
  else if t = frameAlert then throw (alertErr body)
  else writeAlertFor (decodeErr ("unexpected first frame 0x" ++ hex02 t.byte))

def Responder.run (rs : Responder C) : M C Session :=
  match signer rs.localIdentity with
  | none => throw (.other "zap-pq: responder requires Local with private key")
  | some me =>
    if rs.profile.strict ∧ ¬rs.hasReplayCache then
      throw (.other "zap-pq: ReplayCache is required under StrictPQ/FIPS profile")
    else do
      readMagic
      let (t, body) ← readFrame
      rs.dispatch me t body

end Zap.Handshake
