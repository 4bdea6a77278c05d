/-
# Zap.Handshake.Meeting — an undisturbed full handshake.

The converse of the security results: when two parties are configured for each other, the primitives do
what they document and the wire hands each what the other wrote, both runs complete. A `Meeting` names
every choice of such a handshake; its frames, digests, keys and the two traces are functions of it.
-/
import Zap.Handshake.Initiator
import Zap.Handshake.ResponderRuns

namespace Zap.Handshake

open Zap.Lib Zap.Lib.Proc

/-- The two parties and the choices of one handshake: keys, randomness, signatures, clock readings. -/
structure Meeting (C : Prims) where
  i : Initiator C
  rs : Responder C
  skI : C.SigSec
  skR : C.SigSec
  now : Int
  clientRand : Arr clientRandLen
  xI : C.XSec
  kI : C.KemSec
  xR : C.XSec
  coins : C.Coins
  xShared : Arr x25519SharedLen
  sigI : Bytes
  sigR : Bytes
  /-- The two clock readings of the responder's replay gate. -/
  checkAt : Int
  seenAt : Int
  endI : Int
  endR : Int

variable {C : Prims}

namespace Meeting

/-! ## Frames and keys -/

def meI (m : Meeting C) : Identity C := ⟨some (C.sigPub m.skI), some m.skI⟩

def meR (m : Meeting C) : Identity C := ⟨some (C.sigPub m.skR), some m.skR⟩

def suite (m : Meeting C) : SuiteID := m.i.suiteOrDefault

def hello (m : Meeting C) : HelloFrame :=
  helloOf m.meI m.suite m.i.pqModeOrDefault m.i.schemesOrDefault m.now m.clientRand

def kemInit (m : Meeting C) : KEMInitFrame := kemInitOf m.xI m.kI

def sealed (m : Meeting C) : Bytes × Bytes := C.encaps (C.kemPub m.kI) m.coins

def reply (m : Meeting C) : KEMReplyFrame := kemReplyOf m.meR m.xR m.sealed.1

def replyBody (m : Meeting C) : Bytes :=
  m.reply.x25519EphPub.bytes ++ m.reply.mlkemCiphertext.bytes ++ m.reply.staticPKResponder

def input (m : Meeting C) : FullInput :=
  ⟨m.suite, m.hello.bytes, m.kemInit.encode, m.replyBody, m.meI.publicBytes, m.meR.publicBytes, m.i.schemesOrDefault⟩

def keys (m : Meeting C) : SessionKeys := deriveSession C (m.input.h2 C) m.xShared (.copy _ m.sealed.2)

def signed (m : Meeting C) (role : AuthRole) : Bytes := signInput (m.input.h2 C) role m.suite

/-! ## The two traces -/

def offered (m : Meeting C) : Offer C where
  helloBody := m.hello.bytes
  xEphSK := m.xI
  mlkemPriv := m.kI
  kemInitBody := m.kemInit.encode

def accepted (m : Meeting C) : Accepted C where
  replyBody := m.replyBody
  reply := m.reply
  xShared := m.xShared
  mlkemShared := .copy _ m.sealed.2
  respIdentity := ⟨some (C.sigPub m.skR), none⟩

def caller (m : Meeting C) : Caller C := ⟨m.hello, ⟨some (C.sigPub m.skI), none⟩⟩

def replied (m : Meeting C) : Replied where
  kemInitBody := m.kemInit.encode
  replyBody := m.replyBody
  xShared := m.xShared
  mlkemShared := .copy _ m.sealed.2

def replayKey (m : Meeting C) : ReplayKey := ⟨m.hello.clientID, m.hello.clientRandom⟩

def fresh (m : Meeting C) : List (Event C) :=
  if m.rs.hasReplayCache then [clock m.checkAt, clock m.seenAt, seenEv m.seenAt m.replayKey false] else []

def initiatorEvs (m : Meeting C) : List (Event C) :=
  openingEvs m.now ++ (offerEvs m.meI m.clientRand m.offered ++
    ((frameReads frameKEMReply m.replyBody ++ pinEvs m.i.expected m.meR.publicBytes) ++
    ((m.input.hashed C).map hashEv ++
    ((frameReads frameAuth (roleResponder.byte :: m.sigR) ++
      [verifyEv (C.sigPub m.skR) (m.signed roleResponder) m.sigR]) ++
    ([signEv m.skI (m.signed roleInitiator) m.sigI, wrote frameAuth (roleInitiator.byte :: m.sigI) none] ++
      (m.accepted.respIdentity.idEvs ++ [clock m.endI, hashEv m.keys.resumptionPSK.bytes]))))))

def answerEvs (m : Meeting C) : List (Event C) :=
  frameReads frameKEMInit m.kemInit.encode ++ [⟨.genX25519, .ok m.xR⟩,
    ⟨.encapsulate (C.kemPub m.kI), .ok m.coins⟩, wrote frameKEMReply m.replyBody none]

def authEvs (m : Meeting C) : List (Event C) :=
  [signEv m.skR (m.signed roleResponder) m.sigR, wrote frameAuth (roleResponder.byte :: m.sigR) none] ++
  ((frameReads frameAuth (roleInitiator.byte :: m.sigI) ++
    [verifyEv (C.sigPub m.skI) (m.signed roleInitiator) m.sigI]) ++
  (m.rs.issueEvs m.caller.initIdentity m.keys.resumptionPSK ++ (m.caller.initIdentity.idEvs ++ [clock m.endR])))

def responderEvs (m : Meeting C) : List (Event C) :=
  greetingEvs frameHello m.hello.bytes ++ ((m.fresh ++ [hashEv m.meI.publicBytes]) ++
    (m.answerEvs ++ ((m.input.hashed C).map hashEv ++ m.authEvs)))

/-! ## Completion -/

/-- The two parties are configured for each other and the primitives work. -/
structure Undisturbed (m : Meeting C) : Prop where
  localI : m.i.localIdentity = some m.meI
  localR : m.rs.localIdentity = some m.meR
  noPSK : m.i.livePSK m.now = none
  valid : m.suite.isValid = true
  listed : m.suite ∈ m.i.schemesOrDefault
  accepts : m.rs.acceptsSuite m.suite = true
  undowngraded : m.rs.Undowngraded m.i.pqModeOrDefault m.i.schemesOrDefault
  cache : m.rs.profile.strict = true → m.rs.hasReplayCache = true
  window : checkTimestampAt m.checkAt m.hello.timestampNS = .ok ()
  pkI : m.meI.publicBytes.length = mldsa65PubLen
  pkR : m.meR.publicBytes.length = mldsa65PubLen
  fits : m.hello.bytes.length ≤ maxFrameBody
  ecdh : C.ecdh m.xI (C.xPub m.xR) = .ok m.xShared
  sealed : m.sealed.1.length = mlkem768CTLen
  pin : ∀ e ∈ m.i.expected, e.idValue = C.sha3 m.meR.publicBytes
  sigI : m.sigI.length = mldsa65SigLen
  sigR : m.sigR.length = mldsa65SigLen

variable {m : Meeting C}

theorem reply_encode (h : m.Undisturbed) : m.reply.encode = .ok m.replyBody := encode_reply_ok.mpr ⟨h.pkR, rfl⟩

theorem hello_decode (h : m.Undisturbed) : decodeHello m.hello.bytes = .ok m.hello := by
  have hne : m.hello.offeredSchemes ≠ [] := List.ne_nil_of_mem h.listed
  have hmem : m.hello.suite ∈ m.hello.offeredSchemes := h.listed
  rw [decodeHello_bytes h.pkI hne (m.hello.schemes_le.trans h.fits), if_pos hmem]

theorem fresh_evs (h : m.Undisturbed) :
    m.rs.FreshEvs m.hello.timestampNS (pure ⟨m.hello.clientID, m.hello.clientRandom⟩) m.fresh := by
  unfold Responder.FreshEvs fresh
  split
  · exact ⟨m.checkAt, [], m.replayKey, m.seenAt, h.window, yields_pure.mpr ⟨rfl, rfl⟩, rfl⟩
  · rfl

theorem initiator_completes (hC : C.Lawful) (h : m.Undisturbed) : Yields m.i.run m.initiatorEvs
    (initiatorSession C (C.sha3 m.meR.publicBytes) m.suite m.keys m.endI) := by
  refine Initiator.run_intro (signer_eq_some.mpr ⟨h.localI, rfl⟩) h.valid ?_
  rw [h.noPSK]
  refine reach_bind (offer_yields.mpr ⟨m.clientRand, h.pkI, List.ne_nil_of_mem h.listed, h.fits, rfl,
    rfl, rfl⟩ : Yields _ _ m.offered) ?_
  have hcipher : m.reply.mlkemCiphertext.bytes = m.sealed.1 := Arr.copy_bytes h.sealed
  refine reach_bind (readReply_yields.mpr ⟨m.sealed.2, C.sigPub m.skR,
    (decodeKEMReply_encode (reply_encode h)).2, h.ecdh, ?_, rfl, hC.sigPubOfBytes_bytes _, rfl, h.pin,
    rfl⟩ : Yields _ _ m.accepted) ?_
  · show C.decaps m.kI m.reply.mlkemCiphertext.bytes = _
    rw [hcipher]
    exact hC.decaps_encaps m.kI m.coins
  refine reach_bind ((fullTranscript_yields (x := m.input)).mpr ⟨rfl, rfl⟩) ?_
  refine reach_bind (a := ()) ((readAuth_yields (.inr rfl)).mpr ⟨_, m.sigR, rfl, h.sigR, rfl⟩) ?_
  exact Initiator.finish_yields.mpr ⟨m.skI, m.sigI, m.endI, rfl, h.sigI, rfl, rfl⟩

theorem responder_completes (hC : C.Lawful) (h : m.Undisturbed) : Yields m.rs.run m.responderEvs
    (responderSession (C.sha3 m.meI.publicBytes) m.suite m.keys m.endR) := by
  refine Responder.run_intro (signer_eq_some.mpr ⟨h.localR, rfl⟩) h.cache h.fits ?_
  unfold Responder.dispatch
  rw [if_pos rfl]
  refine reach_bind (admitHello_yields.mpr ⟨m.fresh, C.sigPub m.skI, hello_decode h, h.accepts,
    h.undowngraded, fresh_evs h, rfl, hC.sigPubOfBytes_bytes _, rfl, rfl⟩ : Yields _ _ m.caller) ?_
  have hpub : m.kemInit.mlkemEphPub.bytes = C.kemPubBytes (C.kemPub m.kI) := Arr.copy_bytes (hC.kemPubBytes_length _)
  refine reach_bind (replyKEM_yields.mpr ⟨m.kemInit, m.xR, C.kemPub m.kI, m.coins,
    decodeKEMInit_encode _, ?_, ?_, h.sealed, rfl, reply_encode h, rfl⟩ : Yields _ _ m.replied) ?_
  · show C.ecdh m.xR (C.xPub m.xI) = _
    rw [hC.ecdh_comm]
    exact h.ecdh
  · rw [hpub]
    exact hC.kemPubOfBytes_bytes _
  refine reach_bind ((fullTranscript_yields (x := m.input)).mpr ⟨rfl, rfl⟩) ?_
  refine reach_bind (a := ()) ((sendAuth_yields (.inr rfl)).mpr ⟨m.skR, m.sigR, rfl, h.sigR, rfl⟩) ?_
  refine reach_bind (a := ()) ((readAuth_yields (.inl rfl)).mpr ⟨_, m.sigI, rfl, h.sigI, rfl⟩) ?_
  exact Responder.finish_yields.mpr ⟨m.endR, rfl, rfl⟩

theorem issue_wire (rs : Responder C) (id : Identity C) (psk : Arr pskKeyLen) :
    inBytes (rs.issueEvs id psk) = [] ∧ outBytes (rs.issueEvs id psk) = [] := by
  unfold Responder.issueEvs
  split
  · simp [readBytes, sentBytes, hashEv, issueEv]
  · exact ⟨rfl, rfl⟩

theorem auth_fits (role : AuthRole) {sig : Bytes} (h : sig.length = mldsa65SigLen) :
    (role.byte :: sig).length ≤ maxFrameBody := by
  rw [List.length_cons, h]
  decide

/-! ## What is hashed -/

def hashInput : Event C → List Bytes
  | ⟨.hash x, _⟩ => [x]
  | _ => []

theorem mem_hashInput {evs : List (Event C)} {a : Bytes} (h : hashEv a ∈ evs) : a ∈ evs.flatMap hashInput :=
  List.mem_flatMap.mpr ⟨_, h, List.mem_singleton_self a⟩

end Meeting

/-! ### A sample meeting -/

def sampleIdentity (tag : UInt8) : Identity samplePrims where
  publicKey := some (show UInt8 from tag)
  privateKey := some (show UInt8 from tag)

/-- Strict profiles on both sides, the responder pinned, replay cache and PSK store in place. -/
def sampleMeeting : Meeting samplePrims where
  i :=
    { localIdentity := some (sampleIdentity 1), expected := some (sampleIdentity 2), profile := profileStrictPQ,
      pqMode := ⟨0⟩, suite := ⟨0⟩, offeredSchemes := [], resume := none }
  rs :=
    { localIdentity := some (sampleIdentity 2), profile := profileStrictPQ, acceptedSuites := [],
      hasReplayCache := true, hasPSKStore := true }
  skI := (1 : UInt8)
  skR := (2 : UInt8)
  now := 0
  clientRand := tagged _ 5
  xI := (3 : UInt8)
  kI := (4 : UInt8)
  xR := (6 : UInt8)
  coins := (7 : UInt8)
  xShared := tagged _ 9
  sigI := List.replicate mldsa65SigLen 0
  sigR := List.replicate mldsa65SigLen 0
  checkAt := 0
  seenAt := 0
  endI := 0
  endR := 0

theorem sampleMeeting_undisturbed : sampleMeeting.Undisturbed where
  localI := rfl
  localR := rfl
  noPSK := rfl
  valid := rfl
  listed := by decide
  accepts := rfl
  undowngraded := by
    intro _
    decide
  cache := fun _ => rfl
  window := rfl
  pkI := (tagged mldsa65PubLen 1).len
  pkR := (tagged mldsa65PubLen 2).len
  fits := by
    have hpk : sampleMeeting.hello.staticPKInitiator.length = mldsa65PubLen := (tagged mldsa65PubLen 1).len
    rw [HelloFrame.bytes_length, hpk]
    decide
  ecdh := rfl
  sealed := (tagged mlkem768CTLen 7).len
  pin := by
    rintro e ⟨⟩
    rfl
  sigI := List.length_replicate
  sigR := List.length_replicate

end Zap.Handshake
