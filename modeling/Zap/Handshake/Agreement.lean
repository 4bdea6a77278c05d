/-
# Zap.Handshake.Agreement — what the two ends of a full handshake agree on.

The attacker owns the wire, so each honest run is taken by itself: any trace its program can have, whatever
bytes it was handed. What ties two runs together is a signature. A run that signs has fixed its view of
the handshake (`Saw`) and hashed it, and a run that verifies has done the same; equal signed messages are
equal transcripts, and equal transcripts are equal views.

Assumed of the cryptography, and only for the runs at hand: no two strings hashed in the execution have the
same digest (`CollisionFree`), and a message that verifies under an honest key was signed with it in the
execution (`Unforged`).
-/
import Zap.Handshake.Meeting
import Zap.Handshake.SessionRuns
import Mathlib.Data.List.Dedup

namespace Zap.Handshake

open Zap.Lib Zap.Lib.Proc

variable {C : Prims}

/-! ## Executions -/

/-- Runs of honest parties, each as far as it got. -/
structure Execution (C : Prims) where
  initiators : Set (Initiator C × List (Event C))
  responders : Set (Responder C × List (Event C))
  initiator_reaches : ∀ p ∈ initiators, ∃ q, Prog.Reach p.1.run.run p.2 q
  responder_reaches : ∀ p ∈ responders, ∃ q, Prog.Reach p.1.run.run p.2 q

namespace Execution

def Happened (X : Execution C) (e : Event C) : Prop :=
  (∃ i evs, (i, evs) ∈ X.initiators ∧ e ∈ evs) ∨ ∃ rs evs, (rs, evs) ∈ X.responders ∧ e ∈ evs

/-- SHA3-256 does not collide on the strings hashed. -/
def CollisionFree (X : Execution C) : Prop :=
  ∀ a b, X.Happened (hashEv a) → X.Happened (hashEv b) → C.sha3 a = C.sha3 b → a = b

/-- Whatever verifies under `pk` was signed by an honest run with the private key of `pk`. -/
def Unforged (X : Execution C) (pk : C.SigPub) : Prop :=
  ∀ msg sig, X.Happened (verifyEv pk msg sig) →
    ∃ sk sig', C.sigPub sk = pk ∧ X.Happened (signEv sk msg sig')

end Execution

/-! ## Views -/

/-- What a run takes a full handshake to be. -/
structure View where
  suite : SuiteID
  schemes : List SuiteID
  pqMode : PQMode
  hello : Bytes
  kemInit : Bytes
  kemReply : Bytes
  initiatorPK : Bytes
  responderPK : Bytes

/-- What is hashed of a view: all but the mode, which is in the HELLO. -/
def View.input (v : View) : FullInput :=
  ⟨v.suite, v.hello, v.kemInit, v.kemReply, v.initiatorPK, v.responderPK, v.schemes⟩

def View.signed (C : Prims) (v : View) (role : AuthRole) : Bytes := signInput (v.input.h2 C) role v.suite

/-- The initiator's view: its configuration, the bytes it sent and the reply it read. -/
structure Initiator.Saw (i : Initiator C) (evs : List (Event C)) (v : View) : Prop where
  suite : v.suite = i.suiteOrDefault
  schemes : v.schemes = i.schemesOrDefault
  pqMode : v.pqMode = i.pqModeOrDefault
  identity : ∃ me, i.localIdentity = some me ∧ v.initiatorPK = me.publicBytes
  peer : ∃ reply, decodeKEMReply v.kemReply = .ok reply ∧ v.responderPK = reply.staticPKResponder
  sent : magic.bytes ++ (envelope frameHello v.hello ++ envelope frameKEMInit v.kemInit) <+: outBytes evs
  received : envelope frameKEMReply v.kemReply <+: inBytes evs

/-- The responder's view: the HELLO it decoded, the bytes it read and the reply it sent. -/
structure Responder.Saw (rs : Responder C) (evs : List (Event C)) (v : View) : Prop where
  offer : ∃ hello, decodeHello v.hello = .ok hello ∧ v.suite = hello.suite ∧
    v.schemes = hello.offeredSchemes ∧ v.pqMode = hello.pqMode ∧
    v.initiatorPK = hello.staticPKInitiator ∧ C.sha3 v.initiatorPK = hello.clientID
  identity : ∃ me, rs.localIdentity = some me ∧ v.responderPK = me.publicBytes
  received : magic.bytes ++ (envelope frameHello v.hello ++ envelope frameKEMInit v.kemInit) <+: inBytes evs
  sent : envelope frameKEMReply v.kemReply <+: outBytes evs

/-- Each end receives under what the other sends under. -/
structure Mirrored (s s' : Session) : Prop where
  keys : s.sendKey = s'.recvKey ∧ s.recvKey = s'.sendKey
  salts : s.sendSalt = s'.recvSalt ∧ s.recvSalt = s'.sendSalt
  dirs : s.sendDir = s'.recvDir ∧ s.recvDir = s'.sendDir
  aeads : s.sendAEAD = s'.recvAEAD ∧ s.recvAEAD = s'.sendAEAD
  suite : s.suite = s'.suite

theorem sessions_mirrored (C : Prims) (p p' : Arr idLen) (suite : SuiteID) (keys : SessionKeys) (t t' : Int) :
    Mirrored (initiatorSession C p suite keys t) (responderSession p' suite keys t') :=
  ⟨⟨rfl, rfl⟩, ⟨rfl, rfl⟩, ⟨rfl, rfl⟩, ⟨rfl, rfl⟩, rfl⟩

/-! ## The two secrets -/

def InitiatorSecrets (C : Prims) (v : View) (xShared : Arr x25519SharedLen)
    (mlkemShared : Arr mlkem768SharedLen) : Prop :=
  ∃ (xEphSK : C.XSec) (mlkemPriv : C.KemSec) (reply : KEMReplyFrame) (shared : Bytes),
    v.kemInit = (kemInitOf xEphSK mlkemPriv).encode ∧ decodeKEMReply v.kemReply = .ok reply ∧
    C.ecdh xEphSK reply.x25519EphPub = .ok xShared ∧
    C.decaps mlkemPriv reply.mlkemCiphertext.bytes = .ok shared ∧ mlkemShared = .copy _ shared

def ResponderSecrets (C : Prims) (v : View) (xShared : Arr x25519SharedLen)
    (mlkemShared : Arr mlkem768SharedLen) : Prop :=
  ∃ (me : Identity C) (kemInit : KEMInitFrame) (xEphSK : C.XSec) (mlkemPub : C.KemPub) (coins : C.Coins),
    decodeKEMInit v.kemInit = .ok kemInit ∧ C.ecdh xEphSK kemInit.x25519EphPub = .ok xShared ∧
    C.kemPubOfBytes kemInit.mlkemEphPub.bytes = .ok mlkemPub ∧
    (C.encaps mlkemPub coins).1.length = mlkem768CTLen ∧
    mlkemShared = .copy _ (C.encaps mlkemPub coins).2 ∧
    (kemReplyOf me xEphSK (C.encaps mlkemPub coins).1).encode = .ok v.kemReply

variable {v : View} {i : Initiator C} {rs : Responder C} {evs evs' : List (Event C)} {me : Identity C}
  {r : Accepted C} {pk pk' : C.SigPub} {caller : Caller C} {r' : Replied}

/-- **One view, one pair of secrets**: both key exchanges are correct on unmodified messages. -/
theorem secrets_agree (hC : C.Lawful) {x x' : Arr x25519SharedLen} {m m' : Arr mlkem768SharedLen}
    (hi : InitiatorSecrets C v x m) (hr : ResponderSecrets C v x' m') : x = x' ∧ m = m' := by
  obtain ⟨xI, ksk, reply, shared, hinit, hreply, hx, hk, rfl⟩ := hi
  obtain ⟨me, kemInit, xR, pk, coins, hinit', hx', hpk, hct, rfl, henc⟩ := hr
  -- each side decodes what the other encoded
  obtain rfl : kemInitOf xI ksk = kemInit := by
    rw [hinit, decodeKEMInit_encode] at hinit'
    exact Except.ok.inj hinit'
  obtain rfl : kemReplyOf me xR (C.encaps pk coins).1 = reply := by
    rw [(decodeKEMReply_encode henc).2] at hreply
    exact Except.ok.inj hreply
  have hpub : (kemInitOf xI ksk).mlkemEphPub.bytes = C.kemPubBytes (C.kemPub ksk) :=
    Arr.copy_bytes (hC.kemPubBytes_length _)
  obtain rfl : C.kemPub ksk = pk := by
    rw [hpub, hC.kemPubOfBytes_bytes] at hpk
    exact Except.ok.inj hpk
  have hcipher : (kemReplyOf me xR (C.encaps (C.kemPub ksk) coins).1).mlkemCiphertext.bytes =
      (C.encaps (C.kemPub ksk) coins).1 := Arr.copy_bytes hct
  constructor
  · have hsame : C.ecdh xI (C.xPub xR) = C.ecdh xR (C.xPub xI) := hC.ecdh_comm xI xR
    exact Except.ok.inj (hx.symm.trans (hsame.trans hx'))
  · rw [hcipher, hC.decaps_encaps] at hk
    rw [Except.ok.inj hk]

/-! ## What a run has established when it signs -/

/-- An initiator that is about to sign, or has: the view `v` is fixed and hashed, the responder's signature
under `pk` is verified, the pin holds. -/
structure Initiator.Ready (i : Initiator C) (evs : List (Event C)) (me : Identity C) (r : Accepted C)
    (pk : C.SigPub) (v : View) : Prop where
  saw : i.Saw evs v
  sized : v.input.Sized
  hashed : ∀ a ∈ v.input.hashed C, hashEv a ∈ evs
  own : v.initiatorPK = me.publicBytes
  hello : ∃ now rand, v.hello = (helloOf me v.suite v.pqMode v.schemes now rand).bytes
  schemes_ne : v.schemes ≠ []
  fits : v.hello.length ≤ maxFrameBody
  secrets : InitiatorSecrets C v r.xShared r.mlkemShared
  peer : r.respIdentity = ⟨some pk, none⟩
  key : C.sigPubBytes pk = v.responderPK
  verified : ∃ sig, verifyEv pk (v.signed C roleResponder) sig ∈ evs
  pinned : ∀ e ∈ i.expected, e.idValue = C.sha3 v.responderPK ∧ ∀ ev ∈ e.idEvs ++ [hashEv v.responderPK], ev ∈ evs

section Ready

variable {bad : Req C → Prop} {evs : List (Event C)} {q : Prog (pkg C) (Except Err Session)}

theorem Initiator.ready (hC : C.Lawful) (hb : Special bad) (hverify : ∀ pk msg sig ctx, ¬bad (.verify pk msg sig ctx))
    (hreach : Prog.Reach i.run.run evs q) (hq : Beyond bad evs q) (hfull : i.resume = none ∨ ∃ e ∈ evs, bad e.req) :
    ∃ me r pk v tail, i.Ready evs me r pk v ∧
      Prog.Reach (Initiator.finish me v.suite r (v.input.h2 C)).run tail q ∧
      ∀ e ∈ evs, bad e.req → e ∈ tail := by
  obtain ⟨me, now, tr, hme, -, hevs, hkeep, hrest⟩ := Initiator.run_past hb hreach hq
  -- the resumed handshake is ruled out: there is no PSK, or it makes no request in `bad`
  have hnone : i.livePSK now = none := by
    rcases hfull with hres | ⟨e, he, hbad⟩
    · rw [Initiator.livePSK, hres]
      rfl
    cases hlive : i.livePSK now with
    | none => rfl
    | some psk =>
      rw [hlive] at hrest
      exact absurd hbad ((Initiator.runResume_avoids hb _ _ _ _).reach hrest e (hkeep e he hbad))
  rw [hnone] at hrest
  obtain ⟨o, r, tr1, tr2, tr3, tail, hoffer, hreply, hauth, htr, hfin, hlate⟩ :=
    Initiator.runFull_past hb hverify hrest (hq.later hkeep)
  obtain ⟨rand, hpk, hne, hfit, hhello, hinit, rfl⟩ := offer_yields.mp hoffer
  obtain ⟨shared, pk, hdec, hx, hk, hshared, hkey, hpeer, hpin, rfl⟩ := readReply_yields.mp hreply
  obtain ⟨pk', sig, hpk', -, rfl⟩ := (readAuth_yields (.inr rfl)).mp hauth
  obtain rfl : pk = pk' := by
    rw [hpeer] at hpk'
    exact Option.some.inj hpk'
  let v : View := ⟨i.suiteOrDefault, i.schemesOrDefault, i.pqModeOrDefault, o.helloBody, o.kemInitBody,
    r.replyBody, me.publicBytes, r.reply.staticPKResponder⟩
  obtain ⟨hin, hout⟩ := offer_wire me rand o
  have hreplyFit : r.replyBody.length ≤ maxFrameBody := by
    rw [(decodeKEMReply_length hdec).1]
    decide
  refine ⟨me, r, pk, v, tail, ?_, hfin, fun e he hbad => hlate e (hkeep e he hbad) hbad⟩
  rw [hevs, htr]
  exact
    { saw :=
        { suite := rfl
          schemes := rfl
          pqMode := rfl
          identity := ⟨me, (signer_eq_some.mp hme).1, rfl⟩
          peer := ⟨r.reply, hdec, rfl⟩
          sent := by
            rw [outBytes_append, outBytes_append, (opening_wire now).2, hout, ← List.append_assoc]
            exact List.prefix_append _ _
          received := by
            rw [inBytes_append, inBytes_append, (opening_wire now).1, hin, inBytes_append, inBytes_append,
              inBytes_frameReads hreplyFit, List.append_assoc]
            exact List.prefix_append _ _ }
      sized := ⟨by rw [← KEMInitFrame.encode_length (kemInitOf o.xEphSK o.mlkemPriv), ← hinit]; rfl, hpk,
        (decodeKEMReply_length hdec).2⟩
      hashed := by
        intro a ha
        have hmem : hashEv a ∈ (v.input.hashed C).map (hashEv (C := C)) := List.mem_map_of_mem ha
        simp only [List.mem_append]
        exact .inr (.inr (.inr (.inl hmem)))
      own := rfl
      hello := ⟨now, rand, hhello⟩
      schemes_ne := hne
      fits := hfit
      secrets := ⟨o.xEphSK, o.mlkemPriv, r.reply, shared, hinit, hdec, hx, hk, hshared⟩
      peer := hpeer
      key := hC.sigPubBytes_ofBytes _ _ hkey
      verified := ⟨sig, by simp [v, View.signed, View.input]⟩
      pinned := by
        intro e he
        refine ⟨hpin e he, fun ev hev => ?_⟩
        have hmem : ev ∈ pinEvs i.expected r.reply.staticPKResponder := by
          rw [Option.mem_def.mp he]
          exact hev
        simp only [List.mem_append]
        exact .inr (.inr (.inl (.inr hmem))) }

/-- A responder that is about to sign, or has: the HELLO is admitted and answered, the view `v` is fixed
and hashed, and `pk` is the key it will verify the initiator under. -/
structure Responder.Ready (rs : Responder C) (evs : List (Event C)) (caller : Caller C) (r : Replied)
    (pk : C.SigPub) (v : View) : Prop where
  saw : rs.Saw evs v
  sized : v.input.Sized
  hashed : ∀ a ∈ v.input.hashed C, hashEv a ∈ evs
  secrets : ResponderSecrets C v r.xShared r.mlkemShared
  suite : caller.hello.suite = v.suite
  peer : caller.initIdentity = ⟨some pk, none⟩
  key : C.sigPubBytes pk = v.initiatorPK

theorem Responder.ready (hC : C.Lawful) (hb : Special bad) (hseen : ∀ t k, ¬bad (.seenOrAdd t k))
    (hredeem : ∀ id, ¬bad (.redeem id)) (hissue : ∀ id psk clientID, ¬bad (.issue id psk clientID))
    (hreach : Prog.Reach rs.run.run evs q) (hq : ∃ e ∈ evs, bad e.req) :
    ∃ me caller r pk v tail, rs.Ready evs caller r pk v ∧
      Prog.Reach (rs.authenticate me caller r (v.input.h2 C)).run tail q ∧
      (∀ e ∈ tail, e ∈ evs) ∧ ∀ e ∈ evs, bad e.req → e ∈ tail := by
  obtain ⟨me, t, body, tr, hme, -, hbody, hevs, hkeep, hpath⟩ := Responder.run_past hb hreach (.inl hq)
  obtain ⟨e, he, hbad⟩ := hq
  rcases hpath with ⟨rfl, hfull⟩ | ⟨-, hresume⟩
  · obtain ⟨caller, r, tr1, tr2, tail, hadmit, hreply, htr, hrest, hlate⟩ :=
      Responder.runFull_past hb hseen hfull (.inl ⟨e, hkeep e he hbad, hbad⟩)
    obtain ⟨hin, hout⟩ := admit_wire hadmit
    obtain ⟨fresh, pk, hdec, -, -, -, hbound, hkey, hpeer, -⟩ := admitHello_yields.mp hadmit
    obtain ⟨hin', hout'⟩ := reply_wire hreply
    obtain ⟨kemInit, xEphSK, mlkemPub, coins, hinit, hx, hpub, hct, hshared, henc, -⟩ := replyKEM_yields.mp hreply
    let v : View := ⟨caller.hello.suite, caller.hello.offeredSchemes, caller.hello.pqMode, body,
      r.kemInitBody, r.replyBody, caller.hello.staticPKInitiator, me.publicBytes⟩
    refine ⟨me, caller, r, pk, v, tail, ?_, hrest, ?_, fun e he hbad => hlate e (hkeep e he hbad) hbad⟩
    · rw [hevs, htr]
      exact
        { saw :=
            { offer := ⟨caller.hello, hdec, rfl, rfl, rfl, rfl, hbound⟩
              identity := ⟨me, (signer_eq_some.mp hme).1, rfl⟩
              received := by
                rw [inBytes_append, inBytes_append, inBytes_append, (greeting_wire hbody).1, hin, hin']
                exact ⟨_, by simp only [List.append_assoc, List.nil_append]; rfl⟩
              sent := by
                rw [outBytes_append, outBytes_append, outBytes_append, (greeting_wire hbody).2, hout, hout']
                exact List.prefix_append _ _ }
          sized := ⟨decodeKEMInit_length hinit, decodeHello_length hdec, (encode_reply_ok.mp henc).1⟩
          hashed := by
            intro a ha
            have hmem : hashEv a ∈ (v.input.hashed C).map (hashEv (C := C)) := List.mem_map_of_mem ha
            simp only [List.mem_append]
            exact .inr (.inr (.inr (.inl hmem)))
          secrets := ⟨me, kemInit, xEphSK, mlkemPub, coins, hinit, hx, hpub, hct, hshared, henc⟩
          suite := rfl
          peer := hpeer
          key := hC.sigPubBytes_ofBytes _ _ hkey }
    · intro e he
      rw [hevs, htr]
      simp only [List.mem_append]
      exact .inr (.inr (.inr (.inr he)))
  · exact absurd hbad
      ((Responder.runResume_avoids hb hseen hredeem hissue _).reach hresume e (hkeep e he hbad))

/-- **Equal digests, equal views.** -/
theorem views_agree {X : Execution C} (hcf : X.CollisionFree) {v' : View} (hi : (i, evs) ∈ X.initiators)
    (hr : (rs, evs') ∈ X.responders) (hready : i.Ready evs me r pk v) (hready' : rs.Ready evs' caller r' pk' v')
    (h : v.input.h2 C = v'.input.h2 C) : v = v' := by
  have hinput : v.input = v'.input := by
    refine FullInput.h2_inj (H := fun a => X.Happened (hashEv a)) hcf ?_ ?_ hready.sized hready'.sized h
    · exact fun a ha => .inl ⟨i, evs, hi, hready.hashed a ha⟩
    · exact fun a ha => .inr ⟨rs, evs', hr, hready'.hashed a ha⟩
  obtain ⟨suite, schemes, pqMode, hello, kemInit, kemReply, pkI, pkR⟩ := v
  obtain ⟨suite', schemes', pqMode', hello', kemInit', kemReply', pkI', pkR'⟩ := v'
  simp only [View.input, FullInput.mk.injEq] at hinput
  obtain ⟨rfl, rfl, rfl, rfl, rfl, rfl, rfl⟩ := hinput
  -- the mode is not hashed by itself, but the responder decoded it from the HELLO that is
  obtain ⟨now, rand, hbytes⟩ := hready.hello
  obtain ⟨got, hdec, -, -, hmode, -⟩ := hready'.saw.offer
  have hpk : me.publicBytes.length = mldsa65PubLen := by
    rw [← hready.own]
    exact hready.sized.pkI
  have hfit := hready.fits
  dsimp only at hbytes hdec hmode hfit
  rw [hbytes] at hdec hfit
  rw [decodeHello_bytes hpk hready.schemes_ne ((HelloFrame.schemes_le _).trans hfit)] at hdec
  split at hdec
  · cases hdec
    rw [hmode]
    rfl
  · cases hdec

end Ready

/-! ## Signatures identify views -/

section Signed

variable {evs : List (Event C)} {q : Prog (pkg C) (Except Err Session)} {sk : C.SigSec} {msg sig : Bytes}

theorem Initiator.signed_view (hC : C.Lawful) (hreach : Prog.Reach i.run.run evs q) (he : signEv sk msg sig ∈ evs) :
    ∃ me r pk v tail, i.Ready evs me r pk v ∧
      msg = v.signed C roleInitiator ∧
      Prog.Reach (Initiator.finish me v.suite r (v.input.h2 C)).run tail q := by
  have hb := special_sign sk msg signCtx
  obtain ⟨me, r, pk, v, tail, hready, hfin, hkeep⟩ :=
    Initiator.ready hC hb (by simp) hreach (.inl ⟨_, he, rfl⟩) (.inr ⟨_, he, rfl⟩)
  refine ⟨me, r, pk, v, tail, hready, ?_, hfin⟩
  by_contra hne
  -- otherwise the request that was made is one the rest of the run avoids
  have havoid := Initiator.finish_avoids hb me v.suite r (v.input.h2 C) fun sk' _ hreq => by
    simp only [Req.sign.injEq] at hreq
    exact hne hreq.2.1.symm
  exact havoid.reach hfin _ (hkeep _ he rfl) rfl

theorem Responder.signed_view (hC : C.Lawful) (hreach : Prog.Reach rs.run.run evs q) (he : signEv sk msg sig ∈ evs) :
    ∃ me caller r pk v tail, rs.Ready evs caller r pk v ∧
      msg = v.signed C roleResponder ∧
      Prog.Reach (rs.authenticate me caller r (v.input.h2 C)).run tail q := by
  have hb := special_sign sk msg signCtx
  obtain ⟨me, caller, r, pk, v, tail, hready, hrest, -, hkeep⟩ :=
    Responder.ready hC hb (by simp) (by simp) (by simp) hreach ⟨_, he, rfl⟩
  refine ⟨me, caller, r, pk, v, tail, hready, ?_, hrest⟩
  by_contra hne
  have havoid := @authenticate_avoids _ caller me r (v.input.h2 C) rs _ hb
    (fun sk' _ hreq => by
      simp only [Req.sign.injEq, hready.suite] at hreq
      exact hne hreq.2.1.symm) (by simp) (by simp)
  exact havoid.reach hrest _ (hkeep _ he rfl) rfl

end Signed

section Done

variable {rs : Responder C} {me : Identity C} {caller : Caller C} {r : Replied} {h2 : Arr transcriptLen}
  {tail : List (Event C)} {s : Session}

/-- The end of a completed full run of a responder: one verification, then the session. -/
theorem Responder.done (h : Yields (rs.authenticate me caller r h2) tail s) :
    (∃ t, s = responderSession caller.initIdentity.idValue caller.hello.suite (r.keys C h2) t) ∧
      ∀ pk msg sig, verifyEv pk msg sig ∈ tail →
        caller.initIdentity.publicKey = some pk ∧ msg = signInput h2 roleInitiator caller.hello.suite := by
  obtain ⟨_, _, u1, rfl, hsend, h1⟩ := yields_bind.mp h
  obtain ⟨_, tr, u2, rfl, hread, hfin⟩ := yields_bind.mp h1
  obtain ⟨sk, sig1, -, -, rfl⟩ := (sendAuth_yields (.inr rfl)).mp hsend
  obtain ⟨pk0, sig0, hpk, -, rfl⟩ := (readAuth_yields (.inl rfl)).mp hread
  obtain ⟨t, hs, -⟩ := Responder.finish_yields.mp hfin
  refine ⟨⟨t, hs⟩, fun pk msg sig hmem => ?_⟩
  have hlate : verifyEv pk msg sig ∉ tr := fun hin =>
    (Responder.finish_avoids (special_verify pk msg sig signCtx) (by simp)).reach hfin _ hin rfl
  simp only [List.mem_append, List.mem_cons, List.not_mem_nil, or_false] at hmem
  rcases hmem with (hsign | hwrite) | (hreads | hver) | hin
  · simp [verifyEv, signEv] at hsign
  · simp [verifyEv, wrote] at hwrite
  · obtain ⟨n, x, heq⟩ := frameReads_read hreads
    simp [verifyEv] at heq
  · simp only [verifyEv, Ev.mk.injEq, Req.verify.injEq] at hver
    obtain ⟨⟨rfl, rfl, -⟩, -⟩ := hver
    exact ⟨hpk, rfl⟩
  · exact absurd hin hlate

end Done

/-! ## Agreement -/

/-- The sessions of two ready ends with one view have the same keys, mirrored. -/
theorem ready_sessions (hC : C.Lawful) (hready : i.Ready evs me r pk v) (hready' : rs.Ready evs' caller r' pk' v)
    (p p' : Arr idLen) (t t' : Int) :
    let s := initiatorSession C p v.suite (r.keys (v.input.h2 C)) t
    let s' := responderSession p' caller.hello.suite (r'.keys C (v.input.h2 C)) t'
    Mirrored s s' ∧ ∃ keys, IsNew C roleInitiator keys s ∧ IsNew C roleResponder keys s' := by
  obtain ⟨hx, hm⟩ := secrets_agree hC hready.secrets hready'.secrets
  have hkeys : r'.keys C (v.input.h2 C) = r.keys (v.input.h2 C) := by
    rw [Replied.keys, Accepted.keys, hx, hm]
  rw [hkeys, hready'.suite]
  refine ⟨sessions_mirrored C p p' _ _ t t', r.keys (v.input.h2 C), ?_, ?_⟩
  · exact ⟨p, v.suite, t, _, newSession_initiator_yields.mpr ⟨rfl, rfl⟩⟩
  · exact ⟨p', v.suite, t', _, newSession_responder_yields.mpr ⟨rfl, rfl⟩⟩

/-- **Full-handshake agreement.**  In every execution, whatever the attacker did on the wire:

* if an initiator that pins `e` and does not resume returns a session, and the key of `e` is honest, then
  an honest responder run signed the very transcript the initiator verified; both runs have one view of the
  handshake, its responder is `e`, and if that responder run completes, the two sessions have the same
  keys, mirrored;
* if a responder returns a session after verifying a client under an honest key, then an honest initiator
  run signed that very transcript, with one view, and if it completes, the sessions are mirrored. -/
theorem handshake_agreement (hC : C.Lawful) {X : Execution C} (hcf : X.CollisionFree) :
    (∀ i evs s e pk, (i, evs) ∈ X.initiators → Yields i.run evs s → i.resume = none →
      i.expected = some e → e.publicKey = some pk → X.Unforged pk →
      ∃ rs evs' v, (rs, evs') ∈ X.responders ∧ i.Saw evs v ∧ rs.Saw evs' v ∧
        (∃ sk sig sig', C.sigPub sk = pk ∧ verifyEv pk (v.signed C roleResponder) sig ∈ evs ∧
          signEv sk (v.signed C roleResponder) sig' ∈ evs') ∧
        v.responderPK = e.publicBytes ∧ s.peerID = e.idValue ∧
        ∀ s', Yields rs.run evs' s' → s'.peerID = C.sha3 v.initiatorPK ∧ Mirrored s s' ∧
          ∃ keys, IsNew C roleInitiator keys s ∧ IsNew C roleResponder keys s') ∧
    (∀ rs evs s pk msg sig, (rs, evs) ∈ X.responders → Yields rs.run evs s →
      verifyEv pk msg sig ∈ evs → X.Unforged pk →
      ∃ i evs' v, (i, evs') ∈ X.initiators ∧ i.Saw evs' v ∧ rs.Saw evs v ∧
        msg = v.signed C roleInitiator ∧
        (∃ sk sig', C.sigPub sk = pk ∧ signEv sk msg sig' ∈ evs') ∧
        v.initiatorPK = C.sigPubBytes pk ∧ s.peerID = C.sha3 v.initiatorPK ∧
        ∀ s', Yields i.run evs' s' → s'.peerID = C.sha3 v.responderPK ∧ Mirrored s' s ∧
          ∃ keys, IsNew C roleInitiator keys s' ∧ IsNew C roleResponder keys s) := by
  constructor
  · intro i evs s e pk hi hdone hresume hexp hepk hunf
    obtain ⟨me, r, pk', v, tail, hready, hfin, -⟩ := Initiator.ready hC special_empty (by simp) hdone
      (.inr ⟨s, rfl⟩) (.inl hresume)
    -- the pin: the verified key is the expected one
    obtain ⟨hid, hpinEvs⟩ := hready.pinned e hexp
    have hkey : C.sigPubBytes pk = v.responderPK := by
      refine hcf _ _ (.inl ⟨i, evs, hi, hpinEvs _ ?_⟩) (.inl ⟨i, evs, hi, hpinEvs _ (by simp)⟩) ?_
      · simp [Identity.idEvs, hepk]
      · simpa [Identity.idValue, hepk] using hid
    obtain rfl : pk = pk' := by
      have hsame := hC.sigPubOfBytes_bytes pk'
      rw [hready.key, ← hkey, hC.sigPubOfBytes_bytes] at hsame
      exact Except.ok.inj hsame
    obtain ⟨sig, hver⟩ := hready.verified
    obtain ⟨sk, sig', hsk, ⟨j, evs', hj, hsign⟩ | ⟨rs, evs', hrs, hsign⟩⟩ :=
      hunf _ _ (.inl ⟨i, evs, hi, hver⟩)
    · -- an initiator signs under the other label
      obtain ⟨q, hq⟩ := X.initiator_reaches _ hj
      obtain ⟨_, _, _, v', _, -, hmsg, -⟩ := Initiator.signed_view hC hq hsign
      exact absurd (signInput_inj hmsg).2.1 role_labels_ne.symm
    · obtain ⟨q, hq⟩ := X.responder_reaches _ hrs
      obtain ⟨me', caller, r', pk'', v', tail', hready', hmsg, hrest⟩ :=
        Responder.signed_view hC hq hsign
      obtain rfl := views_agree hcf hi hrs hready hready' (signInput_inj hmsg).1
      obtain ⟨_, _, t, -, -, rfl, -⟩ := Initiator.finish_yields.mp hfin
      have hpub : e.publicBytes = C.sigPubBytes pk := by rw [Identity.publicBytes, hepk]
      refine ⟨rs, evs', v, hrs, hready.saw, hready'.saw, ⟨sk, sig, sig', hsk, hver, hsign⟩,
        (hpub.trans hkey).symm, ?_, ?_⟩
      · show r.respIdentity.idValue = e.idValue
        rw [hready.peer, Identity.idValue_some, hid, hkey]
      intro s' hdone'
      obtain rfl := Prog.Reach.det hq hdone'
      obtain ⟨⟨t', rfl⟩, -⟩ := Responder.done hrest
      refine ⟨?_, ready_sessions hC hready hready' _ _ t t'⟩
      show caller.initIdentity.idValue = C.sha3 v.initiatorPK
      rw [hready'.peer, Identity.idValue_some, hready'.key]
  · intro rs evs s pk msg sig hrs hdone hver hunf
    have hb := special_verify pk msg sig signCtx
    obtain ⟨me, caller, r, pk', v, tail, hready, hrest, -, hkeep⟩ :=
      Responder.ready hC hb (by simp) (by simp) (by simp) hdone ⟨_, hver, rfl⟩
    obtain ⟨⟨t, rfl⟩, honce⟩ := Responder.done hrest
    obtain ⟨hpk, hmsg⟩ := honce _ _ _ (hkeep _ hver rfl)
    rw [hready.suite] at hmsg
    obtain rfl : pk' = pk := by
      rw [hready.peer] at hpk
      exact Option.some.inj hpk
    obtain ⟨sk, sig', hsk, ⟨i, evs', hi, hsign⟩ | ⟨rs', evs', hrs', hsign⟩⟩ :=
      hunf _ _ (.inr ⟨rs, evs, hrs, hver⟩)
    · obtain ⟨q, hq⟩ := X.initiator_reaches _ hi
      obtain ⟨me', r', pk'', v', tail', hready', hmsg', hfin⟩ := Initiator.signed_view hC hq hsign
      obtain rfl := views_agree hcf hi hrs hready' hready (signInput_inj (hmsg'.symm.trans hmsg)).1
      refine ⟨i, evs', v', hi, hready'.saw, hready.saw, hmsg, ⟨sk, sig', hsk, hsign⟩, hready.key.symm,
        ?_, ?_⟩
      · show caller.initIdentity.idValue = C.sha3 v'.initiatorPK
        rw [hready.peer, Identity.idValue_some, hready.key]
      intro s' hdone'
      obtain rfl := Prog.Reach.det hq hdone'
      obtain ⟨_, _, t', -, -, rfl, -⟩ := Initiator.finish_yields.mp hfin
      refine ⟨?_, ready_sessions hC hready' hready _ _ t' t⟩
      show r'.respIdentity.idValue = C.sha3 v'.responderPK
      rw [hready'.peer, Identity.idValue_some, hready'.key]
    · obtain ⟨q, hq⟩ := X.responder_reaches _ hrs'
      obtain ⟨_, _, _, _, v', _, -, hmsg', -⟩ := Responder.signed_view hC hq hsign
      exact absurd (signInput_inj (hmsg.symm.trans hmsg')).2.1 role_labels_ne

/-! ### Two honest parties -/

namespace Meeting

variable {m : Meeting C}

def execution (hC : C.Lawful) (h : m.Undisturbed) : Execution C where
  initiators := {(m.i, m.initiatorEvs)}
  responders := {(m.rs, m.responderEvs)}
  initiator_reaches := by
    rintro _ rfl
    exact ⟨_, initiator_completes hC h⟩
  responder_reaches := by
    rintro _ rfl
    exact ⟨_, responder_completes hC h⟩

theorem execution_happened {hC : C.Lawful} {h : m.Undisturbed} {e : Event C}
    (he : (execution hC h).Happened e) : e ∈ m.initiatorEvs ∨ e ∈ m.responderEvs := by
  rcases he with ⟨i, evs, hmem, hin⟩ | ⟨rs, evs, hmem, hin⟩
  · cases hmem
    exact .inl hin
  · cases hmem
    exact .inr hin

def verifyInput : Event C → List (C.SigPub × Bytes)
  | ⟨.verify pk msg _ _, _⟩ => [(pk, msg)]
  | _ => []

end Meeting

theorem sampleMeeting_collisionFree :
    (Meeting.execution samplePrims_lawful sampleMeeting_undisturbed).CollisionFree := by
  have hhashed : ∀ {a}, (Meeting.execution samplePrims_lawful sampleMeeting_undisturbed).Happened (hashEv a) →
      a ∈ (sampleMeeting.initiatorEvs ++ sampleMeeting.responderEvs).flatMap Meeting.hashInput :=
    fun ha => Meeting.mem_hashInput (List.mem_append.mpr (Meeting.execution_happened ha))
  have hdigests : (((sampleMeeting.initiatorEvs ++ sampleMeeting.responderEvs).flatMap Meeting.hashInput).dedup.map
      samplePrims.sha3).Nodup := by
    decide +kernel
  exact fun a b ha hb h =>
    List.inj_on_of_nodup_map hdigests (List.mem_dedup.mpr (hhashed ha)) (List.mem_dedup.mpr (hhashed hb)) h

theorem sampleMeeting_unforged : (Meeting.execution samplePrims_lawful sampleMeeting_undisturbed).Unforged
    (samplePrims.sigPub sampleMeeting.skR) := by
  intro msg sig hver
  have hone : ∀ p ∈ (sampleMeeting.initiatorEvs ++ sampleMeeting.responderEvs).flatMap Meeting.verifyInput,
      p.1 = samplePrims.sigPub sampleMeeting.skR → p.2 = sampleMeeting.signed roleResponder := by
    decide +kernel
  have hhappened := List.mem_append.mpr (Meeting.execution_happened hver)
  obtain rfl := hone (_, msg) (List.mem_flatMap.mpr ⟨_, hhappened, List.mem_singleton_self _⟩) rfl
  exact ⟨sampleMeeting.skR, sampleMeeting.sigR, rfl,
    .inr ⟨sampleMeeting.rs, sampleMeeting.responderEvs, rfl, by simp [Meeting.responderEvs, Meeting.authEvs]⟩⟩

theorem handshake_agreement_sample : ∃ s s' : Session,
    Yields sampleMeeting.i.run sampleMeeting.initiatorEvs s ∧
    Yields sampleMeeting.rs.run sampleMeeting.responderEvs s' ∧
    sampleMeeting.i.resume = none ∧ Mirrored s s' ∧
    ∃ v, sampleMeeting.i.Saw sampleMeeting.initiatorEvs v ∧
      sampleMeeting.rs.Saw sampleMeeting.responderEvs v := by
  have hdone := Meeting.initiator_completes samplePrims_lawful sampleMeeting_undisturbed
  have hdone' := Meeting.responder_completes samplePrims_lawful sampleMeeting_undisturbed
  refine ⟨_, _, hdone, hdone', rfl, ?_⟩
  obtain ⟨rs, evs', v, hrs, hi, hr, -, -, -, hkeys⟩ :=
    (handshake_agreement samplePrims_lawful sampleMeeting_collisionFree).1 _ _ _ (sampleIdentity 2) _ rfl
      hdone rfl rfl rfl sampleMeeting_unforged
  cases hrs
  exact ⟨(hkeys _ hdone').2.1, v, hi, hr⟩

end Zap.Handshake
