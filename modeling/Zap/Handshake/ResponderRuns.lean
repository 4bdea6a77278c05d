/-
# Zap.Handshake.ResponderRuns — the runs of a responder.

For each part of the handshake, the events on which it succeeds and what it returns (`…_yields`); the
requests it can never make (`…_avoids`); and from the two, where a partial run is once it has signed,
touched a store or finished (`…_past`).
-/
import Zap.Handshake.Responder

namespace Zap.Handshake

open Zap.Lib Zap.Lib.Proc

variable {C : Prims}

/-! ## When each part succeeds -/

variable {timestampNS : UInt64} {key : M C ReplayKey} {caller : Caller C} {me : Identity C} {r : Replied}
  {h2 : Arr transcriptLen} {id : Arr pskIDLen} {clientID : Arr idLen} {t : FrameType} {body : Bytes}
  {tr : List (Event C)}

section Yields

variable {rs : Responder C} {tr : List (Event C)} {u : Unit}

/-- What the strict profiles demand of the offer. -/
def Responder.Undowngraded (rs : Responder C) (pqMode : PQMode) (schemes : List SuiteID) : Prop :=
  rs.profile.strict = true → pqMode ≠ pqModeClassicalPermitted ∧ ∀ s ∈ schemes, s.isValid = true

theorem checkDowngrade_yields {pqMode : PQMode} {schemes : List SuiteID} :
    Yields (rs.checkDowngrade pqMode schemes) tr u ↔ tr = [] ∧ rs.Undowngraded pqMode schemes := by
  unfold Responder.checkDowngrade Responder.Undowngraded
  by_cases hstrict : rs.profile.strict = true
  · rw [if_pos hstrict]
    simp only [yields_bind, refuseIf_yields, existsAndEq, exists_const, true_and, hstrict, forall_true_left, not_exists,
      not_and, not_not, ne_eq, List.nil_append]
  · rw [if_neg hstrict, yields_pure]
    exact ⟨fun h => ⟨h.1, fun h' => absurd h' hstrict⟩, fun h => ⟨h.1, rfl⟩⟩

/-- The events of a passed replay gate: nothing without a cache. -/
def Responder.FreshEvs (rs : Responder C) (timestampNS : UInt64) (key : M C ReplayKey)
    (tr : List (Event C)) : Prop :=
  if rs.hasReplayCache then
    ∃ t tk k t', checkTimestampAt t timestampNS = .ok () ∧ Yields key tk k ∧
      tr = clock t :: (tk ++ [clock t', seenEv t' k false])
  else tr = []

theorem checkReplay_yields : Yields (rs.checkReplay timestampNS key) tr u ↔ rs.FreshEvs timestampNS key tr := by
  unfold Responder.checkReplay Responder.FreshEvs
  split
  · exact replayGate_yields
  · exact yields_pure.trans (and_iff_left rfl)

variable {helloBody : Bytes}

/-- **A HELLO is admitted** exactly when every gate holds on its bytes. -/
theorem admitHello_yields :
    Yields (rs.admitHello helloBody) tr caller ↔ ∃ fresh pk,
      decodeHello helloBody = .ok caller.hello ∧ rs.acceptsSuite caller.hello.suite = true ∧
      rs.Undowngraded caller.hello.pqMode caller.hello.offeredSchemes ∧
      rs.FreshEvs caller.hello.timestampNS
        (pure ⟨caller.hello.clientID, caller.hello.clientRandom⟩) fresh ∧
      C.sha3 caller.hello.staticPKInitiator = caller.hello.clientID ∧
      C.sigPubOfBytes caller.hello.staticPKInitiator = .ok pk ∧
      caller.initIdentity = ⟨some pk, none⟩ ∧
      tr = fresh ++ [hashEv caller.hello.staticPKInitiator] := by
  unfold Responder.admitHello
  simp only [yields_bind, orAlert_yields, refuseIf_yields, checkDowngrade_yields, checkReplay_yields, sum256_yields,
    mapError_ok, identityFromPublicBytes_ok, yields_pure, existsAndEq, exists_const, true_and, and_true, not_not,
    List.append_nil, List.nil_append]
  constructor
  · rintro ⟨hello, fresh, pk, htr, hdec, hsuite, hdown, hfresh, hbound, hpk, rfl⟩
    exact ⟨fresh, pk, hdec, hsuite, hdown, hfresh, hbound, hpk, rfl, htr⟩
  · rintro ⟨fresh, pk, hdec, hsuite, hdown, hfresh, hbound, hpk, hpeer, htr⟩
    exact ⟨caller.hello, fresh, pk, htr, hdec, hsuite, hdown, hfresh, hbound, hpk, by rw [← hpeer]⟩

def kemReplyOf (me : Identity C) (xEphSK : C.XSec) (mlkemCT : Bytes) : KEMReplyFrame where
  x25519EphPub := C.xPub xEphSK
  mlkemCiphertext := .copy _ mlkemCT
  staticPKResponder := me.publicBytes

/-- **KEM_INIT is answered** exactly when it decodes, both secrets come out and the reply is well formed. -/
theorem replyKEM_yields :
    Yields (replyKEM me) tr r ↔ ∃ kemInit xEphSK mlkemPub coins,
      decodeKEMInit r.kemInitBody = .ok kemInit ∧
      C.ecdh xEphSK kemInit.x25519EphPub = .ok r.xShared ∧
      C.kemPubOfBytes kemInit.mlkemEphPub.bytes = .ok mlkemPub ∧
      (C.encaps mlkemPub coins).1.length = mlkem768CTLen ∧
      r.mlkemShared = .copy _ (C.encaps mlkemPub coins).2 ∧
      (kemReplyOf me xEphSK (C.encaps mlkemPub coins).1).encode = .ok r.replyBody ∧
      tr = frameReads frameKEMInit r.kemInitBody ++ [⟨.genX25519, .ok xEphSK⟩,
        ⟨.encapsulate mlkemPub, .ok coins⟩, wrote frameKEMReply r.replyBody none] := by
  have hwant : frameKEMInit ≠ frameAlert := by decide
  unfold replyKEM
  simp only [yields_bind, expectFrame_yields hwant, orAlert_yields, orFail_yields, genX25519_yields,
    encapsulate_yields, mapError_ok, refuseIf_yields, writeFrame_yields, yields_pure, not_not, existsAndEq,
    exists_const, List.nil_append, List.append_nil, true_and, and_true]
  constructor
  · rintro ⟨kemInitBody, kemInit, xEphSK, xShared, mlkemPub, coins, replyBody, rfl, -, hdec, hx, hpub, hlen, henc, -,
      rfl⟩
    exact ⟨kemInit, xEphSK, mlkemPub, coins, hdec, hx, hpub, hlen, rfl, henc, rfl⟩
  rintro ⟨kemInit, xEphSK, mlkemPub, coins, hdec, hx, hpub, hlen, hshared, henc, rfl⟩
  obtain ⟨kemInitBody, replyBody, xShared, mlkemShared⟩ := r
  dsimp only at *
  subst hshared
  have hfit : kemInitBody.length ≤ maxFrameBody := by
    rw [decodeKEMInit_length hdec]
    decide
  have hreply : replyBody.length ≤ maxFrameBody := by
    rw [(decodeKEMReply_encode henc).1]
    decide
  exact ⟨kemInitBody, kemInit, xEphSK, xShared, mlkemPub, coins, replyBody, rfl, hfit, hdec, hx, hpub, hlen, henc,
    hreply, rfl⟩

def Responder.issueEvs (rs : Responder C) (initIdentity : Identity C) (psk : Arr pskKeyLen) : List (Event C) :=
  if rs.hasPSKStore then
    initIdentity.idEvs ++ [hashEv psk.bytes, issueEv psk initIdentity.idValue]
  else []

variable {psk : Arr pskKeyLen}

theorem issueFor_yields {initIdentity : Identity C} :
    Yields (rs.issueFor initIdentity psk) tr u ↔ tr = rs.issueEvs initIdentity psk := by
  unfold Responder.issueFor Responder.issueEvs
  split
  · simp only [yields_bind, id_yields, issue_yields, existsAndEq, and_true]
  · exact yields_pure.trans (and_iff_left rfl)

def Replied.keys (C : Prims) (r : Replied) (h2 : Arr transcriptLen) : SessionKeys :=
  deriveSession C h2 r.xShared r.mlkemShared

variable {s : Session}

theorem Responder.finish_yields :
    Yields (rs.finish caller r h2) tr s ↔ ∃ t,
      s = responderSession caller.initIdentity.idValue caller.hello.suite (r.keys C h2) t ∧
      tr = rs.issueEvs caller.initIdentity (r.keys C h2).resumptionPSK ++
        (caller.initIdentity.idEvs ++ [clock t]) := by
  unfold Responder.finish
  simp only [yields_bind, issueFor_yields, id_yields, now_yields, newSession_responder_yields, existsAndEq,
    exists_const, true_and, and_true, List.append_nil]
  exact exists_congr fun _ => and_comm

variable {hello : HelloPSKFrame}

theorem pskReplayKey_yields {k : ReplayKey} :
    Yields (pskReplayKey hello : M C _) tr k ↔
      tr = [hashEv hello.pskID.bytes] ∧ k = ⟨C.sha3 hello.pskID.bytes, hello.clientRandom⟩ :=
  digest_yields

/-- **A HELLO_PSK is let through to the store** exactly when every gate holds on its bytes. -/
theorem admitPSK_yields :
    Yields (rs.admitPSK helloBody) tr hello ↔ decodeHelloPSK helloBody = .ok hello ∧
      rs.acceptsSuite hello.suite = true ∧ rs.Undowngraded hello.pqMode [] ∧
      rs.FreshEvs hello.timestampNS (pskReplayKey hello) tr := by
  unfold Responder.admitPSK
  simp only [yields_bind, orAlert_yields, refuseIf_yields, checkDowngrade_yields, checkReplay_yields, yields_pure,
    existsAndEq, exists_const, true_and, and_true, not_not, List.append_nil, List.nil_append]

def redeemEv (id : Arr pskIDLen) (psk : Arr pskKeyLen) (clientID : Arr idLen) : Event C :=
  ⟨.redeem id, some (psk, clientID)⟩

theorem redeemPSK_yields :
    Yields (rs.redeemPSK id) tr (psk, clientID) ↔
      rs.hasPSKStore = true ∧ tr = [redeemEv id psk clientID] := by
  unfold Responder.redeemPSK
  by_cases hstore : rs.hasPSKStore = true
  · rw [if_neg (not_not.mpr hstore)]
    constructor
    · intro h
      obtain ⟨_, _, found, rfl, hcall, hret⟩ := yields_bind.mp h
      obtain rfl := call_yields.mp hcall
      obtain ⟨rfl, hok⟩ := orAlert_yields.mp hret
      cases found with
      | none => cases hok
      | some entry =>
        cases hok
        exact ⟨hstore, rfl⟩
    · rintro ⟨-, rfl⟩
      exact yields_bind.mpr ⟨[_], [], some (psk, clientID), rfl, call_yields.mpr rfl, orAlert_yields.mpr ⟨rfl, rfl⟩⟩
  · rw [if_pos hstore]
    exact ⟨fun h => absurd h writeAlertFor_yields, fun h => absurd h.1 hstore⟩

theorem finishResume_yields :
    Yields (finishResume hello helloBody psk clientID : M C _) tr s ↔ ∃ xEphSK xShared t,
      C.ecdh xEphSK hello.x25519EphPub = .ok xShared ∧
      let keys := resumedKeys C hello.suite helloBody (C.xPub xEphSK).bytes xShared psk
      s = responderSession clientID hello.suite keys t ∧
      tr = [⟨.genX25519, .ok xEphSK⟩, wrote frameKEMReply (C.xPub xEphSK).bytes none,
        hashEv (h0Input hello.suite helloBody),
        hashEv (pskInput C hello.suite helloBody (C.xPub xEphSK).bytes),
        hashEv keys.resumptionPSK.bytes, issueEv keys.resumptionPSK clientID, clock t] := by
  unfold finishResume
  simp only [yields_bind, orFail_yields, genX25519_yields, orAlert_yields, mapError_ok, writeFrame_yields,
    pskTranscript_yields, issue_yields, now_yields, newSession_responder_yields, existsAndEq, exists_const, true_and,
    and_true, List.append_nil, List.nil_append]
  constructor
  · rintro ⟨xEphSK, xShared, t, htr, hx, -, hs⟩
    exact ⟨xEphSK, xShared, t, hx, hs, htr⟩
  rintro ⟨xEphSK, xShared, t, hx, hs, htr⟩
  have hfit : (C.xPub xEphSK).bytes.length ≤ maxFrameBody := by
    rw [Arr.len]
    decide
  exact ⟨xEphSK, xShared, t, htr, hx, hfit, hs⟩

theorem readMagic_yields : Yields (readMagic : M C Unit) tr u ↔ tr = [gotBytes magic] := by
  unfold readMagic
  simp only [yields_bind, readFull_yields, yields_refuse, yields_pure, not_not, existsAndEq, true_and, and_true,
    List.append_nil]

end Yields

/-! ## Requests a part does not make -/

/-- What follows the transcript of a full handshake: the two AUTH frames and the session. -/
def Responder.authenticate (rs : Responder C) (me : Identity C) (caller : Caller C) (r : Replied)
    (h2 : Arr transcriptLen) : M C Session := do
  sendAuth me h2 roleResponder caller.hello.suite
  readAuth caller.initIdentity h2 roleInitiator "expected initiator AUTH, got 0x" caller.hello.suite
  rs.finish caller r h2

def Caller.input (caller : Caller C) (helloBody : Bytes) (r : Replied) (me : Identity C) : FullInput :=
  ⟨caller.hello.suite, helloBody, r.kemInitBody, r.replyBody, caller.hello.staticPKInitiator, me.publicBytes,
    caller.hello.offeredSchemes⟩

section Avoids

variable {rs : Responder C} {bad : Req C → Prop} (hb : Special bad)

include hb

theorem checkDowngrade_avoids (pqMode : PQMode) (schemes : List SuiteID) :
    Avoids bad (rs.checkDowngrade pqMode schemes) := by
  unfold Responder.checkDowngrade
  split
  · exact (refuseIf_avoids hb _ _).bind fun _ => refuseIf_avoids hb _ _
  · exact avoids_pure

theorem checkTimestamp_avoids (timestampNS : UInt64) :
    Avoids bad (checkTimestamp timestampNS : M C Unit) :=
  (call_avoids hb.now).bind fun _ => orReturn_avoids _

theorem replyKEM_avoids (me : Identity C) : Avoids bad (replyKEM me) := by
  refine (expectFrame_avoids hb _).bind fun _ => ?_
  refine (orAlert_avoids hb _).bind fun _ => ?_
  refine (orFail_avoids (call_avoids hb.genX25519)).bind fun _ => ?_
  refine (orAlert_avoids hb _).bind fun _ => ?_
  refine (orAlert_avoids hb _).bind fun pk => ?_
  refine (call_avoids (hb.encapsulate pk)).bind fun _ => ?_
  refine (orAlert_avoids hb _).bind fun _ => ?_
  refine (refuseIf_avoids hb _ _).bind fun _ => ?_
  refine (orAlert_avoids hb _).bind fun _ => ?_
  exact (writeFrame_avoids hb _ _).bind fun _ => avoids_pure

variable {psk : Arr pskKeyLen}

theorem issue_avoids (hissue : ¬bad (.issue (pskIDOf C psk) psk clientID)) :
    Avoids bad (issue psk clientID : M C Unit) := by
  unfold issue pskID
  exact ⟨hb.hash _, fun _ => ⟨hissue, fun _ => trivial⟩⟩

theorem issueFor_avoids {id : Identity C} (hissue : ¬bad (.issue (pskIDOf C psk) psk id.idValue)) :
    Avoids bad (rs.issueFor id psk) := by
  unfold Responder.issueFor Identity.id
  unfold Identity.idValue at hissue
  split
  · cases hkey : id.publicKey with
    | none =>
      rw [hkey] at hissue
      exact issue_avoids hb hissue
    | some pk =>
      rw [hkey] at hissue
      exact ⟨hb.hash _, fun _ => issue_avoids hb hissue⟩
  · exact avoids_pure

theorem Responder.finish_avoids (hissue : ¬bad (.issue (pskIDOf C (r.keys C h2).resumptionPSK)
      (r.keys C h2).resumptionPSK caller.initIdentity.idValue)) : Avoids bad (rs.finish caller r h2) := by
  refine (issueFor_avoids hb hissue).bind fun _ => ?_
  refine (id_avoids hb _).bind fun _ => ?_
  exact (call_avoids hb.now).bind fun _ => newSession_avoids hb _ _ _ _ _

theorem authenticate_avoids
    (hsign : ∀ sk ∈ me.privateKey, ¬bad (.sign sk (signInput h2 roleResponder caller.hello.suite) signCtx))
    (hverify : ∀ pk ∈ caller.initIdentity.publicKey, ∀ msg sig ctx, ¬bad (.verify pk msg sig ctx))
    (hissue : ¬bad (.issue (pskIDOf C (r.keys C h2).resumptionPSK) (r.keys C h2).resumptionPSK
      caller.initIdentity.idValue)) : Avoids bad (rs.authenticate me caller r h2) := by
  refine (sendAuth_avoids hb _ _ _ _ hsign).bind fun _ => ?_
  refine (readAuth_avoids hb _ hverify ..).bind fun _ => ?_
  exact Responder.finish_avoids hb hissue

theorem redeemPSK_avoids (hredeem : ¬bad (.redeem id)) : Avoids bad (rs.redeemPSK id) := by
  unfold Responder.redeemPSK
  split
  · exact writeAlertFor_avoids hb _
  · exact (call_avoids hredeem).bind fun _ => orAlert_avoids hb _

theorem finishResume_avoids (hello : HelloPSKFrame) (helloBody : Bytes) (psk : Arr pskKeyLen)
    (hissue : ∀ k, ¬bad (.issue (pskIDOf C k) k clientID)) :
    Avoids bad (finishResume hello helloBody psk clientID : M C _) := by
  refine (orFail_avoids (call_avoids hb.genX25519)).bind fun _ => ?_
  refine (orAlert_avoids hb _).bind fun _ => ?_
  refine (writeFrame_avoids hb _ _).bind fun _ => ?_
  refine (pskTranscript_avoids hb _ _ _).bind fun _ => ?_
  refine (issue_avoids hb (hissue _)).bind fun _ => ?_
  exact (call_avoids hb.now).bind fun _ => newSession_avoids hb _ _ _ _ _

theorem readMagic_avoids : Avoids bad (readMagic : M C Unit) := by
  refine (readFull_avoids hb.read _).bind fun got => ?_
  split
  · exact avoids_throw
  · exact avoids_pure

variable (hseen : ∀ t k, ¬bad (.seenOrAdd t k))

include hseen

theorem checkReplay_avoids (hkey : Avoids bad key) : Avoids bad (rs.checkReplay timestampNS key) := by
  unfold Responder.checkReplay
  split
  · refine (orAlertWith_avoids hb (checkTimestamp_avoids hb _)).bind fun _ => ?_
    refine hkey.bind fun k => ?_
    refine .bind ?_ fun _ => refuseIf_avoids hb _ _
    exact (call_avoids hb.now).bind fun t => call_avoids (hseen t k)
  · exact avoids_pure

theorem admitHello_avoids (helloBody : Bytes) : Avoids bad (rs.admitHello helloBody) := by
  refine (orAlert_avoids hb _).bind fun _ => ?_
  refine (refuseIf_avoids hb _ _).bind fun _ => ?_
  refine (checkDowngrade_avoids hb _ _).bind fun _ => ?_
  refine (checkReplay_avoids hb hseen avoids_pure).bind fun _ => ?_
  refine (sum256_avoids hb _).bind fun _ => ?_
  refine (refuseIf_avoids hb _ _).bind fun _ => ?_
  exact (orAlert_avoids hb _).bind fun _ => avoids_pure

theorem Responder.runFull_avoids (hsign : ∀ sk msg ctx, ¬bad (.sign sk msg ctx))
    (hverify : ∀ pk msg sig ctx, ¬bad (.verify pk msg sig ctx))
    (hissue : ∀ id psk clientID, ¬bad (.issue id psk clientID)) (me : Identity C) (helloBody : Bytes) :
    Avoids bad (rs.runFull me helloBody) := by
  refine (admitHello_avoids hb hseen _).bind fun caller => ?_
  refine (replyKEM_avoids hb _).bind fun r => ?_
  refine (fullTranscript_avoids hb ..).bind fun h2 => ?_
  exact authenticate_avoids hb (fun _ _ => hsign _ _ _) (fun pk _ => hverify pk) (hissue _ _ _)

theorem admitPSK_avoids (helloBody : Bytes) : Avoids bad (rs.admitPSK helloBody) := by
  refine (orAlert_avoids hb _).bind fun _ => ?_
  refine (refuseIf_avoids hb _ _).bind fun _ => ?_
  refine (checkDowngrade_avoids hb _ _).bind fun _ => ?_
  refine (checkReplay_avoids hb hseen ?_).bind fun _ => avoids_pure
  exact (sum256_avoids hb _).bind fun _ => avoids_pure

theorem Responder.runResume_avoids (hredeem : ∀ id, ¬bad (.redeem id))
    (hissue : ∀ id psk clientID, ¬bad (.issue id psk clientID)) (helloBody : Bytes) :
    Avoids bad (rs.runResume helloBody) := by
  refine (admitPSK_avoids hb hseen _).bind fun hello => ?_
  refine (redeemPSK_avoids hb (hredeem _)).bind fun entry => ?_
  exact finishResume_avoids hb _ _ _ fun _ => hissue _ _ _

end Avoids

/-! ## Partial runs -/

section Past

variable {rs : Responder C} {bad : Req C → Prop} {evs : List (Event C)}
  {q : Prog (pkg C) (Except Err Session)}

def greetingEvs (t : FrameType) (body : Bytes) : List (Event C) := gotBytes magic :: frameReads t body

/-- **Where a responder run is** once it is beyond the plain requests: the magic was read, and the first
frame was a HELLO or a HELLO_PSK. -/
theorem Responder.run_past (hb : Special bad) (hreach : Prog.Reach rs.run.run evs q)
    (hq : Beyond bad evs q) : ∃ me t body tr, signer rs.localIdentity = some me ∧
      (rs.profile.strict = true → rs.hasReplayCache = true) ∧ body.length ≤ maxFrameBody ∧
      evs = greetingEvs t body ++ tr ∧ (∀ e ∈ evs, bad e.req → e ∈ tr) ∧
      (t = frameHello ∧ Prog.Reach (rs.runFull me body).run tr q ∨
        t = frameHelloPSK ∧ Prog.Reach (rs.runResume body).run tr q) := by
  unfold Responder.run at hreach
  cases hme : signer rs.localIdentity with
  | none =>
    rw [hme] at hreach
    exact absurd hq (not_beyond hreach avoids_throw fun _ _ => yields_throw)
  | some me =>
    rw [hme] at hreach
    dsimp only at hreach
    split at hreach
    · exact absurd hq (not_beyond hreach avoids_throw fun _ _ => yields_throw)
    rename_i hcache
    have hcache : rs.profile.strict = true → rs.hasReplayCache = true := by
      intro hstrict
      exact not_not.mp fun hnone => hcache ⟨hstrict, hnone⟩
    obtain ⟨_, _, u, rfl, hmagic, h1, hq1, k1⟩ := reach_past hreach (readMagic_avoids hb) hq
    obtain ⟨_, tr, ⟨t, body⟩, rfl, hframe, h2, hq2, k2⟩ := reach_past h1 (readFrame_avoids hb.read) hq1
    obtain rfl := readMagic_yields.mp hmagic
    obtain ⟨hfit, rfl⟩ := readFrame_yields.mp hframe
    refine ⟨me, t, body, tr, rfl, hcache, hfit, by simp [greetingEvs],
      fun e he hbad => k2 e (k1 e he hbad) hbad, ?_⟩
    change Prog.Reach (rs.dispatch me t body).run tr q at h2
    unfold Responder.dispatch at h2
    -- the two last branches answer with an error, so the run cannot be beyond them
    split at h2
    · rename_i ht
      exact .inl ⟨ht, h2⟩
    split at h2
    · rename_i ht
      exact .inr ⟨ht, h2⟩
    · split at h2
      · exact absurd hq2 (not_beyond h2 avoids_throw fun _ _ => yields_throw)
      · exact absurd hq2 (not_beyond h2 (writeAlertFor_avoids hb _) fun _ _ => writeAlertFor_yields)

variable {tr : List (Event C)}

theorem Responder.run_intro (hme : signer rs.localIdentity = some me)
    (hcache : rs.profile.strict = true → rs.hasReplayCache = true) (hbody : body.length ≤ maxFrameBody)
    (h : Prog.Reach (rs.dispatch me t body).run tr q) : Prog.Reach rs.run.run (greetingEvs t body ++ tr) q := by
  unfold Responder.run
  rw [hme]
  dsimp only
  rw [if_neg fun hno => hno.2 (hcache hno.1)]
  have hsplit : greetingEvs t body ++ tr = [gotBytes magic] ++ (frameReads t body ++ tr) := rfl
  rw [hsplit]
  refine reach_bind (a := ()) (readMagic_yields.mpr rfl) ?_
  exact reach_bind (a := (t, body)) (readFrame_yields.mpr ⟨hbody, rfl⟩) h

variable {helloBody : Bytes} (hb : Special bad) (hseen : ∀ t k, ¬bad (.seenOrAdd t k))

include hb hseen

/-- **The full handshake up to the signature**: the HELLO is admitted, KEM_REPLY is out, the transcript
is hashed. -/
theorem Responder.runFull_past (hreach : Prog.Reach (rs.runFull me helloBody).run tr q) (hq : Beyond bad tr q) :
    ∃ caller r tr1 tr2 tail, Yields (rs.admitHello helloBody) tr1 caller ∧ Yields (replyKEM me) tr2 r ∧
      let x := caller.input helloBody r me
      tr = tr1 ++ (tr2 ++ ((x.hashed C).map hashEv ++ tail)) ∧
      Prog.Reach (rs.authenticate me caller r (x.h2 C)).run tail q ∧
      ∀ e ∈ tr, bad e.req → e ∈ tail := by
  unfold Responder.runFull at hreach
  obtain ⟨tr1, _, caller, rfl, hadmit, h1, hq1, k1⟩ := reach_past hreach (admitHello_avoids hb hseen _) hq
  obtain ⟨tr2, _, r, rfl, hreply, hr, hq2, k2⟩ := reach_past h1 (replyKEM_avoids hb _) hq1
  obtain ⟨_, tail, h2, rfl, hhash, h3, -, k3⟩ := reach_past hr (fullTranscript_avoids hb ..) hq2
  obtain ⟨rfl, rfl⟩ := (fullTranscript_yields (x := caller.input helloBody r me)).mp hhash
  refine ⟨caller, r, tr1, tr2, tail, hadmit, hreply, rfl, h3, ?_⟩
  intro e he hbad
  exact k3 e (k2 e (k1 e he hbad) hbad) hbad

/-- **The resumed handshake up to its reply**: the HELLO_PSK is let through and its PSK redeemed. -/
theorem Responder.runResume_past (hredeem : ∀ id, ¬bad (.redeem id))
    (hreach : Prog.Reach (rs.runResume helloBody).run tr q) (hq : Beyond bad tr q) :
    ∃ hello psk clientID tr1 tail, Yields (rs.admitPSK helloBody) tr1 hello ∧
      rs.hasPSKStore = true ∧ tr = tr1 ++ (redeemEv hello.pskID psk clientID :: tail) ∧
      Prog.Reach (finishResume hello helloBody psk clientID : M C _).run tail q ∧
      ∀ e ∈ tr, bad e.req → e ∈ tail := by
  unfold Responder.runResume at hreach
  obtain ⟨tr1, _, hello, rfl, hadmit, h1, hq1, k1⟩ := reach_past hreach (admitPSK_avoids hb hseen _) hq
  obtain ⟨_, tail, ⟨psk, clientID⟩, rfl, hfound, h2, -, k2⟩ := reach_past h1 (redeemPSK_avoids hb (hredeem _)) hq1
  obtain ⟨hstore, rfl⟩ := redeemPSK_yields.mp hfound
  exact ⟨hello, psk, clientID, tr1, tail, hadmit, hstore, rfl, h2, fun e he hbad => k2 e (k1 e he hbad) hbad⟩

end Past

/-! ## What goes over the wire -/

theorem admit_wire {rs : Responder C} {helloBody : Bytes} (h : Yields (rs.admitHello helloBody) tr caller) :
    inBytes tr = [] ∧ outBytes tr = [] := by
  obtain ⟨fresh, pk, -, -, -, hfresh, -, -, -, rfl⟩ := admitHello_yields.mp h
  unfold Responder.FreshEvs at hfresh
  split at hfresh
  · obtain ⟨t, tk, k, t', -, hkey, rfl⟩ := hfresh
    obtain ⟨rfl, -⟩ := yields_pure.mp hkey
    exact ⟨rfl, rfl⟩
  · subst hfresh
    exact ⟨rfl, rfl⟩

theorem reply_wire (h : Yields (replyKEM me) tr r) : inBytes tr = envelope frameKEMInit r.kemInitBody ∧
      outBytes tr = envelope frameKEMReply r.replyBody := by
  obtain ⟨kemInit, xEphSK, mlkemPub, coins, hinit, -, -, -, -, -, rfl⟩ := replyKEM_yields.mp h
  have hfit : r.kemInitBody.length ≤ maxFrameBody := by
    rw [decodeKEMInit_length hinit]
    decide
  rw [inBytes_append, outBytes_append, inBytes_frameReads hfit, outBytes_frameReads]
  exact ⟨List.append_nil _, List.append_nil _⟩

theorem greeting_wire (h : body.length ≤ maxFrameBody) :
    inBytes (greetingEvs t body : List (Event C)) = magic.bytes ++ envelope t body ∧
      outBytes (greetingEvs t body : List (Event C)) = [] := by
  unfold greetingEvs
  rw [inBytes_cons, outBytes_cons, inBytes_frameReads h, outBytes_frameReads]
  exact ⟨rfl, rfl⟩

end Zap.Handshake
