/-
# Zap.Handshake.Initiator — the client side of the handshake (`handshake/initiator.go`).

`runFull` is cut at the points where the peer gets to speak: `offer` (steps 1 and 2), `readReply`
(steps 3 to 6), the transcript and the responder's AUTH (7 and 8), `finish` (9 and 10). Each part comes
with a `…_yields` theorem that says on which events it succeeds, and with what.

Not modelled: the read deadline on a `net.Conn`, and the zeroing of secrets.
-/
import Zap.Handshake.Identity
import Zap.Handshake.Psk

namespace Zap.Handshake

open Zap.Lib Zap.Lib.Proc

structure Initiator (C : Prims) where
  localIdentity : Option (Identity C)
  expected : Option (Identity C)
  profile : Profile
  pqMode : PQMode
  suite : SuiteID
  offeredSchemes : List SuiteID
  resume : Option ClientPSK

variable {C : Prims}

/-! ## Configuration -/

namespace Initiator

def suiteOrDefault (i : Initiator C) : SuiteID := if i.suite = ⟨0⟩ then suiteX25519MLKEM else i.suite

def schemesOrDefault (i : Initiator C) : List SuiteID :=
  if i.offeredSchemes.length = 0 then [i.suiteOrDefault] else i.offeredSchemes

def pqModeOrDefault (i : Initiator C) : PQMode :=
  if i.pqMode = ⟨0⟩ ∧ i.profile.strict then pqModePQOnly else i.pqMode

/-- The cached PSK, if `Until.After(now)`. -/
def livePSK (i : Initiator C) (now : Int) : Option ClientPSK := i.resume.filter fun p => p.validUntil > now

end Initiator

def unixNano (now : Int) : UInt64 := (Int64.ofInt now).toUInt64

/-! ## The full handshake -/

/-- What the initiator holds once HELLO and KEM_INIT are out. -/
structure Offer (C : Prims) where
  helloBody : Bytes
  xEphSK : C.XSec
  mlkemPriv : C.KemSec
  kemInitBody : Bytes

def helloOf (me : Identity C) (suite : SuiteID) (pqMode : PQMode) (schemes : List SuiteID) (now : Int)
    (clientRand : Arr clientRandLen) : HelloFrame where
  suite := suite
  pqMode := pqMode
  clientRandom := clientRand
  timestampNS := unixNano now
  clientID := me.idValue
  offeredSchemes := schemes
  staticPKInitiator := me.publicBytes

def kemInitOf (xEphSK : C.XSec) (mlkemPriv : C.KemSec) : KEMInitFrame where
  x25519EphPub := C.xPub xEphSK
  mlkemEphPub := .copy _ (C.kemPubBytes (C.kemPub mlkemPriv))

def offer (me : Identity C) (suite : SuiteID) (pqMode : PQMode) (schemes : List SuiteID) (now : Int) :
    M C (Offer C) := do
  let clientRand ← orFail (call (.rand clientRandLen))
  let clientID ← me.id
  let hello : HelloFrame :=
    { suite := suite, pqMode := pqMode, clientRandom := clientRand, timestampNS := unixNano now,
      clientID := clientID, offeredSchemes := schemes, staticPKInitiator := me.publicBytes }
  let helloBody ← orReturn hello.encode
  writeFrame frameHello helloBody
  let xEphSK ← orFail (call .genX25519)
  let mlkemPriv ← orFail (call .genMLKEM)
  let kemInitBody := (kemInitOf xEphSK mlkemPriv).encode
  writeFrame frameKEMInit kemInitBody
  pure { helloBody := helloBody, xEphSK := xEphSK, mlkemPriv := mlkemPriv, kemInitBody := kemInitBody }

/-- What the initiator has of the responder once KEM_REPLY is accepted. -/
structure Accepted (C : Prims) where
  replyBody : Bytes
  reply : KEMReplyFrame
  xShared : Arr x25519SharedLen
  mlkemShared : Arr mlkem768SharedLen
  respIdentity : Identity C

def checkPin (expected : Option (Identity C)) (staticPKResponder : Bytes) : M C Unit :=
  match expected with
  | none => pure ()
  | some e => do
    let want ← e.id
    let got ← sum256 staticPKResponder
    refuseIf (want ≠ got) (.sentinel .vmIdentityMismatch)

/-- Steps 3 to 6; `NewPublicKey` of 32 bytes does not fail. -/
def readReply (expected : Option (Identity C)) (o : Offer C) : M C (Accepted C) := do
  let replyBody ← expectFrame frameKEMReply
  let reply ← orAlert (decodeKEMReply replyBody)
  let xShared ← orAlert ((C.ecdh o.xEphSK reply.x25519EphPub).mapError
    fun e => .wrap .authFailed ("X25519 ECDH: " ++ e))
  let mlkemShared ← orAlert ((C.decaps o.mlkemPriv reply.mlkemCiphertext.bytes).mapError
    fun e => .wrap .authFailed ("ML-KEM decapsulate: " ++ e))
  let respIdentity ← orAlert ((identityFromPublicBytes reply.staticPKResponder).mapError
    fun e => decodeErr ("bad responder static_pk: " ++ e))
  checkPin expected reply.staticPKResponder
  pure { replyBody := replyBody, reply := reply, xShared := xShared,
         mlkemShared := .copy _ mlkemShared, respIdentity := respIdentity }

def Initiator.finish (me : Identity C) (suite : SuiteID) (r : Accepted C) (h2 : Arr transcriptLen) :
    M C Session := do
  sendAuth me h2 roleInitiator suite
  let keys := deriveSession C h2 r.xShared r.mlkemShared
  let peerID ← r.respIdentity.id
  let t : Int ← call .now
  newSession roleInitiator peerID suite keys t

def Initiator.runFull (i : Initiator C) (me : Identity C) (suite : SuiteID) (pqMode : PQMode)
    (schemes : List SuiteID) (now : Int) : M C Session := do
  let o ← offer me suite pqMode schemes now
  let r ← readReply i.expected o
  let h2 ← fullTranscript suite o.helloBody o.kemInitBody r.replyBody me.publicBytes
    r.reply.staticPKResponder schemes
  readAuth r.respIdentity h2 roleResponder "expected responder AUTH, got role 0x" suite
  Initiator.finish me suite r h2

/-! ## The resumed handshake -/

def readResumeReply : M C (Arr x25519PubLen) := do
  let (t, body) ← readFrame
  if t = frameAlert then throw (alertErr body)
  else if t ≠ frameKEMReply ∨ body.length ≠ x25519PubLen then
    writeAlertFor (decodeErr ("resumed reply expected 32 bytes, got type 0x" ++ hex02 t.byte ++
      s!" len {body.length}"))
  else pure (.copy _ body)

def Initiator.runResume (resume : ClientPSK) (suite : SuiteID) (pqMode : PQMode) (now : Int) :
    M C Session := do
  let xEphSK ← orFail (call .genX25519)
  let clientRand ← orFail (call (.rand clientRandLen))
  let hello : HelloPSKFrame :=
    { suite := suite, pqMode := pqMode, clientRandom := clientRand, timestampNS := unixNano now,
      pskID := resume.id, x25519EphPub := C.xPub xEphSK }
  writeFrame frameHelloPSK hello.encode
  let respEph ← readResumeReply
  let xShared ← orAlert ((C.ecdh xEphSK respEph).mapError fun e => .wrap .authFailed e)
  let h2psk ← pskTranscript suite hello.encode respEph.bytes
  let keys := deriveResumed C h2psk xShared resume.psk
  let t : Int ← call .now
  newSession roleInitiator resume.peerID suite keys t

/-! ## The entry point -/

def writeMagic : M C Unit := do
  let err : Option String ← call (.write magic.bytes)
  orReturn (match err with
    | none => .ok ()
    | some e => .error (.other e))

def Initiator.run (i : Initiator C) : M C Session :=
  match signer i.localIdentity with
  | none => throw (.other "zap-pq: initiator requires Local with private key")
  | some me =>
    if ¬i.suiteOrDefault.isValid then
      throw (.wrap .unsupportedSuite ("suite 0x" ++ hex02 i.suiteOrDefault.byte))
    else do
      let now : Int ← call .now
      writeMagic
      match i.livePSK now with
      | some psk => Initiator.runResume psk i.suiteOrDefault i.pqModeOrDefault now
      | none => i.runFull me i.suiteOrDefault i.pqModeOrDefault i.schemesOrDefault now

/-! ## When each part succeeds -/

variable {u : Unit}

section Yields

variable {tr : List (Event C)} {me : Identity C} {suite : SuiteID} {pqMode : PQMode}
  {schemes : List SuiteID} {now : Int}

def offerEvs (me : Identity C) (clientRand : Arr clientRandLen) (o : Offer C) : List (Event C) :=
  ⟨.rand clientRandLen, .ok clientRand⟩ :: me.idEvs ++
    [wrote frameHello o.helloBody none, ⟨.genX25519, .ok o.xEphSK⟩, ⟨.genMLKEM, .ok o.mlkemPriv⟩,
      wrote frameKEMInit o.kemInitBody none]

theorem kemInit_fits (k : KEMInitFrame) : k.encode.length ≤ maxFrameBody := by
  rw [k.encode_length]
  decide

variable {o : Offer C} {expected : Option (Identity C)} {s : Session}

theorem offer_yields :
    Yields (offer me suite pqMode schemes now) tr o ↔ ∃ clientRand,
      me.publicBytes.length = mldsa65PubLen ∧ schemes ≠ [] ∧ o.helloBody.length ≤ maxFrameBody ∧
      o.helloBody = (helloOf me suite pqMode schemes now clientRand).bytes ∧
      o.kemInitBody = (kemInitOf o.xEphSK o.mlkemPriv).encode ∧ tr = offerEvs me clientRand o := by
  unfold offer
  simp only [yields_bind, orFail_yields, rand_yields, id_yields, orReturn_yields, encode_hello_ok, writeFrame_yields,
    genX25519_yields, genMLKEM_yields, yields_pure, existsAndEq, exists_const, true_and, and_true, List.append_nil]
  constructor
  · rintro ⟨clientRand, xsk, ksk, rfl, ⟨hpk, hne⟩, hfit, -, rfl⟩
    exact ⟨clientRand, hpk, hne, hfit, rfl, rfl, by simp [offerEvs]⟩
  rintro ⟨clientRand, hpk, hne, hfit, hhello, hinit, rfl⟩
  obtain ⟨helloBody, xsk, ksk, kemInitBody⟩ := o
  dsimp only at hhello hinit hfit
  subst hhello hinit
  exact ⟨clientRand, xsk, ksk, rfl, ⟨hpk, hne⟩, hfit, kemInit_fits _, rfl⟩

def pinEvs (expected : Option (Identity C)) (staticPKResponder : Bytes) : List (Event C) :=
  match expected with
  | none => []
  | some e => e.idEvs ++ [hashEv staticPKResponder]

theorem checkPin_yields {pk : Bytes} :
    Yields (checkPin expected pk) tr u ↔ (∀ e ∈ expected, e.idValue = C.sha3 pk) ∧
      tr = pinEvs expected pk := by
  unfold checkPin pinEvs
  cases expected with
  | none => simp [yields_pure]
  | some e =>
    simp only [yields_bind, id_yields, sum256_yields, refuseIf_yields, not_not, existsAndEq, true_and, and_true,
      List.append_nil, Option.mem_def, Option.some.injEq, forall_eq']
    exact and_comm

/-- **KEM_REPLY is accepted** exactly when it decodes, both secrets come out, the static key parses and
the pin, if any, holds. -/
theorem readReply_yields {a : Accepted C} :
    Yields (readReply expected o) tr a ↔ ∃ shared pk,
      decodeKEMReply a.replyBody = .ok a.reply ∧
      C.ecdh o.xEphSK a.reply.x25519EphPub = .ok a.xShared ∧
      C.decaps o.mlkemPriv a.reply.mlkemCiphertext.bytes = .ok shared ∧
      a.mlkemShared = .copy _ shared ∧
      C.sigPubOfBytes a.reply.staticPKResponder = .ok pk ∧ a.respIdentity = ⟨some pk, none⟩ ∧
      (∀ e ∈ expected, e.idValue = C.sha3 a.reply.staticPKResponder) ∧
      tr = frameReads frameKEMReply a.replyBody ++ pinEvs expected a.reply.staticPKResponder := by
  have hwant : frameKEMReply ≠ frameAlert := by decide
  unfold readReply
  simp only [yields_bind, expectFrame_yields hwant, orAlert_yields, mapError_ok, identityFromPublicBytes_ok,
    checkPin_yields, yields_pure, existsAndEq, exists_const, true_and, and_true, List.append_nil, List.nil_append]
  constructor
  · rintro ⟨replyBody, reply, xShared, shared, pk, rfl, -, hdec, hecdh, hdecaps, hpk, hsame, rfl⟩
    exact ⟨shared, pk, hdec, hecdh, hdecaps, rfl, hpk, rfl, hsame, rfl⟩
  rintro ⟨shared, pk, hdec, hecdh, hdecaps, hshared, hpk, hpeer, hsame, rfl⟩
  obtain ⟨replyBody, reply, xShared, mlkemShared, respIdentity⟩ := a
  dsimp only at hdec hecdh hdecaps hshared hpk hpeer hsame
  subst hshared hpeer
  have hfit : replyBody.length ≤ maxFrameBody := by
    rw [(decodeKEMReply_length hdec).1]
    decide
  exact ⟨replyBody, reply, xShared, shared, pk, rfl, hfit, hdec, hecdh, hdecaps, hpk, hsame, rfl⟩

def Accepted.keys (r : Accepted C) (h2 : Arr transcriptLen) : SessionKeys :=
  deriveSession C h2 r.xShared r.mlkemShared

theorem Initiator.finish_yields {r : Accepted C} {h2 : Arr transcriptLen} :
    Yields (Initiator.finish me suite r h2) tr s ↔ ∃ sk sig t, me.privateKey = some sk ∧
      sig.length = mldsa65SigLen ∧
      s = initiatorSession C r.respIdentity.idValue suite (r.keys h2) t ∧
      tr = [signEv sk (signInput h2 roleInitiator suite) sig, wrote frameAuth (roleInitiator.byte :: sig) none] ++
        (r.respIdentity.idEvs ++ [clock t, hashEv (r.keys h2).resumptionPSK.bytes]) := by
  unfold Initiator.finish
  simp only [yields_bind, sendAuth_yields (.inl rfl), id_yields, now_yields, newSession_initiator_yields, existsAndEq,
    exists_const, true_and, and_true]
  constructor
  · rintro ⟨t, sk, sig, htr, ⟨hsk, hlen⟩, hs⟩
    exact ⟨sk, sig, t, hsk, hlen, hs, htr⟩
  · rintro ⟨sk, sig, t, hsk, hlen, hs, htr⟩
    exact ⟨t, sk, sig, htr, ⟨hsk, hlen⟩, hs⟩

theorem readResumeReply_yields {eph : Arr x25519PubLen} :
    Yields (readResumeReply : M C _) tr eph ↔ tr = frameReads frameKEMReply eph.bytes := by
  unfold readResumeReply
  constructor
  · intro h
    obtain ⟨_, _, ⟨t, body⟩, rfl, hframe, hrest⟩ := yields_bind.mp h
    obtain ⟨-, rfl⟩ := readFrame_yields.mp hframe
    obtain ⟨-, hbody⟩ := yields_refuse.mp hrest
    split at hbody
    · exact absurd hbody writeAlertFor_yields
    rename_i hshape
    rw [not_or, not_not, not_not] at hshape
    obtain ⟨rfl, hlen⟩ := hshape
    obtain ⟨rfl, rfl⟩ := yields_pure.mp hbody
    rw [Arr.copy_bytes hlen, List.append_nil]
  · rintro rfl
    have hfit : eph.bytes.length ≤ maxFrameBody := by
      rw [eph.len]
      decide
    refine yields_bind.mpr ⟨_, [], (frameKEMReply, eph.bytes), (List.append_nil _).symm,
      readFrame_yields.mpr ⟨hfit, rfl⟩, yields_refuse.mpr ⟨by decide, ?_⟩⟩
    rw [if_neg (by simp [eph.len]), Arr.copy_self]
    exact yields_pure.mpr ⟨rfl, rfl⟩

def helloPSKOf (resume : ClientPSK) (suite : SuiteID) (pqMode : PQMode) (now : Int)
    (clientRand : Arr clientRandLen) (xEphSK : C.XSec) : HelloPSKFrame where
  suite := suite
  pqMode := pqMode
  clientRandom := clientRand
  timestampNS := unixNano now
  pskID := resume.id
  x25519EphPub := C.xPub xEphSK

/-- **The resumed handshake** succeeds on every 32-byte reply with which Diffie–Hellman succeeds, and
reports the identity cached with the PSK. -/
theorem Initiator.runResume_yields {resume : ClientPSK} :
    Yields (Initiator.runResume resume suite pqMode now : M C _) tr s ↔
      ∃ xEphSK clientRand eph xShared t, C.ecdh xEphSK eph = .ok xShared ∧
      let body := (helloPSKOf resume suite pqMode now clientRand xEphSK).encode
      let keys := resumedKeys C suite body eph.bytes xShared resume.psk
      s = initiatorSession C resume.peerID suite keys t ∧
      tr = [⟨.genX25519, .ok xEphSK⟩, ⟨.rand clientRandLen, .ok clientRand⟩, wrote frameHelloPSK body none] ++
        (frameReads frameKEMReply eph.bytes ++ [hashEv (h0Input suite body),
          hashEv (pskInput C suite body eph.bytes), clock t, hashEv keys.resumptionPSK.bytes]) := by
  unfold Initiator.runResume
  simp only [yields_bind, orFail_yields, rand_yields, genX25519_yields, writeFrame_yields, readResumeReply_yields,
    orAlert_yields, mapError_ok, pskTranscript_yields, now_yields, newSession_initiator_yields, existsAndEq,
    exists_const, true_and, and_true, List.nil_append]
  constructor
  · rintro ⟨xEphSK, clientRand, eph, xShared, t, htr, -, hx, hs⟩
    exact ⟨xEphSK, clientRand, eph, xShared, t, hx, hs, htr⟩
  rintro ⟨xEphSK, clientRand, eph, xShared, t, hx, hs, htr⟩
  have hfit : (helloPSKOf resume suite pqMode now clientRand xEphSK).encode.length ≤ maxFrameBody := by
    rw [HelloPSKFrame.encode_length]
    decide
  exact ⟨xEphSK, clientRand, eph, xShared, t, htr, hfit, hx, hs⟩

end Yields

section Avoids

variable {bad : Req C → Prop} (hb : Special bad)

include hb

theorem offer_avoids (me : Identity C) (suite : SuiteID) (pqMode : PQMode)
    (schemes : List SuiteID) (now : Int) : Avoids bad (offer me suite pqMode schemes now) := by
  refine (orFail_avoids (call_avoids (hb.rand _))).bind fun _ => ?_
  refine (id_avoids hb me).bind fun _ => ?_
  refine (orReturn_avoids _).bind fun _ => ?_
  refine (writeFrame_avoids hb _ _).bind fun _ => ?_
  refine (orFail_avoids (call_avoids hb.genX25519)).bind fun _ => ?_
  refine (orFail_avoids (call_avoids hb.genMLKEM)).bind fun _ => ?_
  exact (writeFrame_avoids hb _ _).bind fun _ => avoids_pure

theorem readReply_avoids (expected : Option (Identity C)) (o : Offer C) :
    Avoids bad (readReply expected o) := by
  refine (expectFrame_avoids hb _).bind fun _ => ?_
  refine (orAlert_avoids hb _).bind fun _ => ?_
  refine (orAlert_avoids hb _).bind fun _ => ?_
  refine (orAlert_avoids hb _).bind fun _ => ?_
  refine (orAlert_avoids hb _).bind fun _ => ?_
  refine .bind ?_ fun _ => avoids_pure
  cases expected with
  | none => exact avoids_pure
  | some e =>
    refine (id_avoids hb e).bind fun _ => ?_
    exact (sum256_avoids hb _).bind fun _ => refuseIf_avoids hb _ _

theorem writeMagic_avoids : Avoids bad (writeMagic : M C Unit) :=
  (call_avoids (hb.write _)).bind fun _ => orReturn_avoids _

theorem Initiator.runResume_avoids (resume : ClientPSK) (suite : SuiteID)
    (pqMode : PQMode) (now : Int) : Avoids bad (Initiator.runResume resume suite pqMode now : M C _) := by
  refine (orFail_avoids (call_avoids hb.genX25519)).bind fun _ => ?_
  refine (orFail_avoids (call_avoids (hb.rand _))).bind fun _ => ?_
  refine (writeFrame_avoids hb _ _).bind fun _ => ?_
  refine ((readFrame_avoids hb.read).bind fun f => ?_).bind fun _ => ?_
  · dsimp only
    split
    · exact avoids_throw
    · split
      · exact writeAlertFor_avoids hb _
      · exact avoids_pure
  refine (orAlert_avoids hb _).bind fun _ => ?_
  refine (pskTranscript_avoids hb _ _ _).bind fun _ => ?_
  exact (call_avoids hb.now).bind fun _ => newSession_avoids hb _ _ _ _ _

theorem Initiator.finish_avoids (me : Identity C) (suite : SuiteID) (r : Accepted C)
    (h2 : Arr transcriptLen)
    (hsign : ∀ sk ∈ me.privateKey, ¬bad (.sign sk (signInput h2 roleInitiator suite) signCtx)) :
    Avoids bad (Initiator.finish me suite r h2) := by
  refine (sendAuth_avoids hb me h2 _ suite hsign).bind fun _ => ?_
  refine (id_avoids hb _).bind fun _ => ?_
  exact (call_avoids hb.now).bind fun _ => newSession_avoids hb _ _ _ _ _

end Avoids

/-! ## Partial runs -/

section Past

variable {bad : Req C → Prop} {i : Initiator C} {evs : List (Event C)}
  {q : Prog (pkg C) (Except Err Session)}

def openingEvs (now : Int) : List (Event C) := [clock now, ⟨.write magic.bytes, none⟩]

variable {tr : List (Event C)}

theorem writeMagic_yields : Yields (writeMagic : M C Unit) tr u ↔ tr = [⟨.write magic.bytes, none⟩] := by
  unfold writeMagic
  constructor
  · intro h
    obtain ⟨tr1, tr2, err, rfl, hcall, hret⟩ := yields_bind.mp h
    obtain rfl := call_yields.mp hcall
    cases err with
    | none =>
      obtain ⟨rfl, -⟩ := orReturn_yields.mp hret
      rfl
    | some e => cases (orReturn_yields.mp hret).2
  · rintro rfl
    exact yields_bind.mpr ⟨[_], [], none, rfl, call_yields.mpr rfl, orReturn_yields.mpr ⟨rfl, rfl⟩⟩

/-- **Where an initiator run is** once it is beyond the plain requests: in the resumed handshake if the
cached PSK was live, in the full one otherwise. -/
theorem Initiator.run_past (hb : Special bad) (hreach : Prog.Reach i.run.run evs q)
    (hq : Beyond bad evs q) : ∃ me now tr, signer i.localIdentity = some me ∧
      i.suiteOrDefault.isValid = true ∧ evs = openingEvs now ++ tr ∧
      (∀ e ∈ evs, bad e.req → e ∈ tr) ∧
      match i.livePSK now with
      | some psk => Prog.Reach
          (Initiator.runResume psk i.suiteOrDefault i.pqModeOrDefault now : M C _).run tr q
      | none => Prog.Reach
          (i.runFull me i.suiteOrDefault i.pqModeOrDefault i.schemesOrDefault now).run tr q := by
  unfold Initiator.run at hreach
  cases hme : signer i.localIdentity with
  | none =>
    rw [hme] at hreach
    exact absurd hq (not_beyond hreach avoids_throw fun _ _ => yields_throw)
  | some me =>
    rw [hme] at hreach
    dsimp only at hreach
    split at hreach
    · exact absurd hq (not_beyond hreach avoids_throw fun _ _ => yields_throw)
    rename_i hvalid
    obtain ⟨_, _, now, rfl, hnow, h1, hq1, k1⟩ := reach_past hreach (call_avoids hb.now) hq
    obtain ⟨_, tr, u, rfl, hmagic, h2, -, k2⟩ := reach_past h1 (writeMagic_avoids hb) hq1
    obtain rfl := call_yields.mp hnow
    obtain rfl := writeMagic_yields.mp hmagic
    refine ⟨me, now, tr, rfl, not_not.mp hvalid, rfl, fun e he hbad => k2 e (k1 e he hbad) hbad, ?_⟩
    cases hlive : i.livePSK now with
    | none =>
      rw [hlive] at h2
      exact h2
    | some psk =>
      rw [hlive] at h2
      exact h2

variable {me : Identity C} {now : Int}

theorem Initiator.run_intro (hme : signer i.localIdentity = some me) (hvalid : i.suiteOrDefault.isValid = true)
    (h : match i.livePSK now with
      | some psk => Prog.Reach
          (Initiator.runResume psk i.suiteOrDefault i.pqModeOrDefault now : M C _).run tr q
      | none => Prog.Reach
          (i.runFull me i.suiteOrDefault i.pqModeOrDefault i.schemesOrDefault now).run tr q) :
    Prog.Reach i.run.run (openingEvs now ++ tr) q := by
  unfold Initiator.run
  rw [hme]
  dsimp only
  rw [if_neg (not_not.mpr hvalid)]
  have hsplit : openingEvs now ++ tr = [clock now] ++ ([⟨.write magic.bytes, none⟩] ++ tr) := rfl
  rw [hsplit]
  refine reach_bind (call_yields.mpr rfl) ?_
  refine reach_bind (a := ()) (writeMagic_yields.mpr rfl) ?_
  cases hlive : i.livePSK now with
  | none | some psk =>
    rw [hlive] at h
    exact h

/-- **The full handshake, stage by stage**: beyond the plain requests, HELLO and KEM_INIT are out,
KEM_REPLY is accepted, the transcript is hashed and the responder's signature verified. -/
theorem Initiator.runFull_past {suite : SuiteID} {pqMode : PQMode} {schemes : List SuiteID} (hb : Special bad)
    (hverify : ∀ pk msg sig ctx, ¬bad (.verify pk msg sig ctx))
    (hreach : Prog.Reach (i.runFull me suite pqMode schemes now).run tr q) (hq : Beyond bad tr q) :
    ∃ o r tr1 tr2 tr3 tail, Yields (offer me suite pqMode schemes now) tr1 o ∧
      Yields (readReply i.expected o) tr2 r ∧
      let x : FullInput := ⟨suite, o.helloBody, o.kemInitBody, r.replyBody, me.publicBytes,
        r.reply.staticPKResponder, schemes⟩
      Yields (readAuth r.respIdentity (x.h2 C) roleResponder "expected responder AUTH, got role 0x" suite)
        tr3 () ∧
      tr = tr1 ++ (tr2 ++ ((x.hashed C).map hashEv ++ (tr3 ++ tail))) ∧
      Prog.Reach (Initiator.finish me suite r (x.h2 C)).run tail q ∧
      ∀ e ∈ tr, bad e.req → e ∈ tail := by
  unfold Initiator.runFull at hreach
  obtain ⟨tr1, _, o, rfl, hoffer, h1, hq1, k1⟩ := reach_past hreach (offer_avoids hb _ _ _ _ _) hq
  obtain ⟨tr2, _, r, rfl, hreply, hr, hq2, k2⟩ := reach_past h1 (readReply_avoids hb _ _) hq1
  obtain ⟨_, _, h2, rfl, hhash, h3, hq3, k3⟩ := reach_past hr (fullTranscript_avoids hb ..) hq2
  obtain ⟨tr3, tail, u, rfl, hauth, h4, -, k4⟩ :=
    reach_past h3 (readAuth_avoids hb _ (fun pk _ => hverify pk) ..) hq3
  obtain ⟨rfl, rfl⟩ := (fullTranscript_yields (x := ⟨suite, o.helloBody, o.kemInitBody, r.replyBody,
    me.publicBytes, r.reply.staticPKResponder, schemes⟩)).mp hhash
  refine ⟨o, r, tr1, tr2, tr3, tail, hoffer, hreply, hauth, rfl, h4, ?_⟩
  intro e he hbad
  exact k4 e (k3 e (k2 e (k1 e he hbad) hbad) hbad) hbad

end Past

/-! ## What goes over the wire -/

theorem offer_wire (me : Identity C) (rand : Arr clientRandLen) (o : Offer C) :
    inBytes (offerEvs me rand o) = [] ∧ outBytes (offerEvs me rand o) =
      envelope frameHello o.helloBody ++ envelope frameKEMInit o.kemInitBody := by
  simp [offerEvs, inBytes_idEvs, outBytes_idEvs, readBytes, sentBytes, wrote]

theorem opening_wire (now : Int) : inBytes (openingEvs now : List (Event C)) = [] ∧
    outBytes (openingEvs now : List (Event C)) = magic.bytes :=
  ⟨rfl, rfl⟩

end Zap.Handshake
