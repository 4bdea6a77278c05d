/-
# Zap.Handshake.Admission — what a responder has checked by the time it returns a session.

A session of a responder with a replay cache comes from one of two paths, and on both every gate held on the
bytes of this very connection (`admission`). What the peer sent is the concatenation of its frames, byte for
byte; the gates of the replay cache and the PSK store are lines of the server's log, at which the shared state
gave the answer that let the connection through.
-/
import Zap.Handshake.Server

namespace Zap.Handshake

open Zap.Lib Zap.Lib.Proc

variable {C : Prims} {ι : Type} [DecidableEq ι]

/-! ## The gates -/

/-- The suite, the profile and the replay gate, passed by connection `c` of the run. -/
structure Gates (rs : Responder C) (w₀ : World) (log : Log ι C) (c : ι) (suite : SuiteID) (pqMode : PQMode)
    (schemes : List SuiteID) (timestampNS : UInt64) (key : ReplayKey) : Prop where
  accepts : rs.acceptsSuite suite = true
  undowngraded : rs.Undowngraded pqMode schemes
  /-- `CheckTimestamp` read a clock that is in the window, and `SeenOrAdd` after it saw the key first. -/
  fresh : ∃ t pre w t', checkTimestampAt t timestampNS = .ok () ∧ clock t ∈ traceOf c pre ∧
    Path.Occurs ServerStep w₀ log pre (.proc c (seenEv t' key false)) w ∧
    (w.cache.seenOrAdd t' key).1 = false

/-- A full handshake whose frames are `helloBody`, `kemInitBody` and an AUTH with `sig`. -/
structure AdmittedFull (rs : Responder C) (w₀ : World) (log : Log ι C) (c : ι) (s : Session)
    (me : Identity C) (hello : HelloFrame) (helloBody kemInitBody replyBody sig : Bytes) : Prop where
  received : inBytes (traceOf c log) = magic.bytes ++ (envelope frameHello helloBody ++
    (envelope frameKEMInit kemInitBody ++ envelope frameAuth (roleInitiator.byte :: sig)))
  sent : ∃ mySig, outBytes (traceOf c log) = envelope frameKEMReply replyBody ++
    envelope frameAuth (roleResponder.byte :: mySig)
  identity : rs.localIdentity = some me
  decoded : decodeHello helloBody = .ok hello
  gates : Gates rs w₀ log c hello.suite hello.pqMode hello.offeredSchemes hello.timestampNS
    ⟨hello.clientID, hello.clientRandom⟩
  /-- The AUTH signature verifies under a key with the id of the HELLO, over the transcript of these bytes. -/
  verified : ∃ pk, C.sha3 (C.sigPubBytes pk) = hello.clientID ∧
    let x : FullInput := ⟨hello.suite, helloBody, kemInitBody, replyBody, hello.staticPKInitiator,
      me.publicBytes, hello.offeredSchemes⟩
    verifyEv pk (signInput (x.h2 C) roleInitiator hello.suite) sig ∈ traceOf c log
  peer : s.peerID = hello.clientID

/-- A resumed handshake whose only frame is `helloBody`. -/
structure AdmittedResumed (rs : Responder C) (w₀ : World) (log : Log ι C) (c : ι) (s : Session)
    (hello : HelloPSKFrame) (helloBody : Bytes) : Prop where
  received : inBytes (traceOf c log) = magic.bytes ++ envelope frameHelloPSK helloBody
  decoded : decodeHelloPSK helloBody = .ok hello
  gates : Gates rs w₀ log c hello.suite hello.pqMode [] hello.timestampNS
    ⟨C.sha3 hello.pskID.bytes, hello.clientRandom⟩
  /-- The PSK was live in the store and this connection removed it. -/
  redeemed : ∃ pre w w' psk expires,
    Path.Occurs ServerStep w₀ log pre (.proc c (redeemEv hello.pskID psk s.peerID)) w ∧
    ServerStep w (.proc c (redeemEv hello.pskID psk s.peerID) : Line ι Chore (pkg C)) w' ∧
    w.store.entries hello.pskID = some ⟨psk, s.peerID, expires, false⟩ ∧ w.clock ≤ expires ∧
    w'.store.entries hello.pskID = none

/-! ## Completed runs -/

variable {rs : Responder C} {tr : List (Event C)} {s : Session} {helloBody : Bytes}

/-- **A completed full handshake**, event by event. -/
theorem runFull_done {me : Identity C} (h : Yields (rs.runFull me helloBody) tr s) :
    ∃ caller r tr1 tr2 sk pk mySig sig t, Yields (rs.admitHello helloBody) tr1 caller ∧
      Yields (replyKEM me) tr2 r ∧ caller.initIdentity.publicKey = some pk ∧
      sig.length = mldsa65SigLen ∧ s.peerID = caller.initIdentity.idValue ∧
      let x := caller.input helloBody r me
      tr = tr1 ++ (tr2 ++ ((x.hashed C).map hashEv ++
        ([signEv sk (signInput (x.h2 C) roleResponder caller.hello.suite) mySig,
          wrote frameAuth (roleResponder.byte :: mySig) none] ++
        ((frameReads frameAuth (roleInitiator.byte :: sig) ++
          [verifyEv pk (signInput (x.h2 C) roleInitiator caller.hello.suite) sig]) ++
        (rs.issueEvs caller.initIdentity (r.keys C (x.h2 C)).resumptionPSK ++
          (caller.initIdentity.idEvs ++ [clock t])))))) := by
  obtain ⟨caller, r, tr1, tr2, tail, yadmit, yreply, rfl, hrest, -⟩ :=
    Responder.runFull_past special_empty (by simp) h (.inr ⟨s, rfl⟩)
  obtain ⟨_, _, u1, rfl, ysend, h1⟩ := yields_bind.mp hrest
  obtain ⟨_, _, u2, rfl, yread, yfin⟩ := yields_bind.mp h1
  obtain ⟨sk, mySig, -, -, rfl⟩ := (sendAuth_yields (.inr rfl)).mp ysend
  obtain ⟨pk, sig, hpk, hlen, rfl⟩ := (readAuth_yields (.inl rfl)).mp yread
  obtain ⟨t, rfl, rfl⟩ := Responder.finish_yields.mp yfin
  exact ⟨caller, r, tr1, tr2, sk, pk, mySig, sig, t, yadmit, yreply, hpk, hlen, rfl, rfl⟩

/-- **A completed resumed handshake**: gates, redemption, and what follows it. -/
theorem runResume_done (h : Yields (rs.runResume helloBody) tr s) :
    ∃ hello psk tr1 tail, Yields (rs.admitPSK helloBody) tr1 hello ∧
      tr = tr1 ++ (redeemEv hello.pskID psk s.peerID :: tail) ∧ inBytes tail = [] := by
  obtain ⟨hello, psk, clientID, tr1, tail, yadmit, -, rfl, yfin, -⟩ :=
    Responder.runResume_past special_empty (by simp) (by simp) h (.inr ⟨s, rfl⟩)
  obtain ⟨_, _, _, -, rfl, rfl⟩ := finishResume_yields.mp yfin
  exact ⟨hello, psk, tr1, _, yadmit, rfl, rfl⟩

/-! ## Admission -/

variable {rss : ι → Responder C} {w₀ w : World} {log : Log ι C} {c : ι}

theorem fresh_occurs (hrun : ServerRun rss w₀ log w) {timestampNS : UInt64} {key : M C ReplayKey}
    {k : ReplayKey} (hkey : ∀ tk k', Yields key tk k' → k' = k) (hcache : rs.hasReplayCache = true)
    {greet fresh rest : List (Event C)} (hfresh : rs.FreshEvs timestampNS key fresh)
    (htrace : traceOf c log = greet ++ (fresh ++ rest)) :
    ∃ t pre w t', checkTimestampAt t timestampNS = .ok () ∧ clock t ∈ traceOf c pre ∧
      Path.Occurs ServerStep w₀ log pre (.proc c (seenEv t' k false)) w ∧
      (w.cache.seenOrAdd t' k).1 = false := by
  unfold Responder.FreshEvs at hfresh
  rw [if_pos hcache] at hfresh
  obtain ⟨t, tk, k', t', hwindow, ykey, rfl⟩ := hfresh
  obtain rfl := hkey tk k' ykey
  have hplace : traceOf c log = (greet ++ (clock t :: (tk ++ [clock t']))) ++ (seenEv t' k' false :: rest) := by
    rw [htrace]
    simp
  obtain ⟨pre, w1, w2, hocc, hserve, hpre⟩ := hrun.occurs hplace
  refine ⟨t, pre, w1, t', hwindow, ?_, hocc, (serves_seen hserve).1.symm⟩
  rw [hpre]
  simp

theorem admitted_full (hC : C.Lawful) (hrun : ServerRun rss w₀ log w) (hcache : rs.hasReplayCache = true)
    {me : Identity C} (hme : signer rs.localIdentity = some me)
    (hfit : helloBody.length ≤ maxFrameBody) (htrace : traceOf c log = greetingEvs frameHello helloBody ++ tr)
    (h : Yields (rs.runFull me helloBody) tr s) :
    ∃ hello kemInitBody replyBody sig, AdmittedFull rs w₀ log c s me hello helloBody kemInitBody replyBody sig := by
  obtain ⟨caller, r, tr1, tr2, sk, pk, mySig, sig, t, yadmit, yreply, hpk, hlen, hpeer, rfl⟩ := runFull_done h
  obtain ⟨fresh, pk', hdec, haccepts, hdown, hfresh, hbound, hkey, hcaller, rfl⟩ := admitHello_yields.mp yadmit
  have hpk' : pk' = pk := by
    rw [hcaller] at hpk
    exact Option.some.inj hpk
  have hid : C.sha3 (C.sigPubBytes pk) = caller.hello.clientID := by
    rw [← hpk', hC.sigPubBytes_ofBytes _ _ hkey, hbound]
  have hauth := inBytes_frameReads (C := C) (t := frameAuth) (Meeting.auth_fits roleInitiator hlen)
  obtain ⟨hadmitIn, hadmitOut⟩ := admit_wire yadmit
  refine ⟨caller.hello, r.kemInitBody, r.replyBody, sig, ?_, ⟨mySig, ?_⟩,
    (signer_eq_some.mp hme).1, hdec, ⟨haccepts, hdown, ?_⟩, ⟨pk, hid, ?_⟩, ?_⟩
  · rw [htrace, inBytes_append, (greeting_wire hfit).1, inBytes_append, hadmitIn, inBytes_append,
      (reply_wire yreply).1]
    simp [hauth, Meeting.issue_wire, readBytes, wrote, clock, signEv, verifyEv]
  · rw [htrace, outBytes_append, (greeting_wire hfit).2, outBytes_append, hadmitOut, outBytes_append,
      (reply_wire yreply).2]
    simp [outBytes_frameReads, Meeting.issue_wire, sentBytes, wrote, clock, signEv, verifyEv]
  · have hfirst := htrace
    rw [List.append_assoc fresh] at hfirst
    refine fresh_occurs hrun ?_ hcache hfresh hfirst
    intro tk k' ykey
    exact (yields_pure.mp ykey).2.symm
  · rw [htrace]
    simp [Caller.input]
  · rw [hpeer, hcaller, Identity.idValue_some, hpk', hid]

theorem admitted_resumed (hrun : ServerRun rss w₀ log w) (hcache : rs.hasReplayCache = true)
    (hfit : helloBody.length ≤ maxFrameBody)
    (htrace : traceOf c log = greetingEvs frameHelloPSK helloBody ++ tr)
    (h : Yields (rs.runResume helloBody) tr s) :
    ∃ hello, AdmittedResumed rs w₀ log c s hello helloBody := by
  obtain ⟨hello, psk, tr1, tail, yadmit, rfl, htail⟩ := runResume_done h
  obtain ⟨hdec, haccepts, hdown, hfresh⟩ := admitPSK_yields.mp yadmit
  have hin : inBytes tr1 = [] := by
    have hevs := hfresh
    unfold Responder.FreshEvs at hevs
    rw [if_pos hcache] at hevs
    obtain ⟨t, tk, k, t', -, ykey, rfl⟩ := hevs
    obtain ⟨rfl, -⟩ := pskReplayKey_yields.mp ykey
    rfl
  have hplace : traceOf c log = (greetingEvs frameHelloPSK helloBody ++ tr1) ++
      (redeemEv hello.pskID psk s.peerID :: tail) := by
    rw [htrace, List.append_assoc]
  obtain ⟨pre, w1, w2, hocc, hserve, -⟩ := hrun.occurs hplace
  obtain ⟨hfound, rfl⟩ := serves_redeem hserve
  obtain ⟨expires, hentry, hlive⟩ := redeem_eq_some.mp hfound.symm
  refine ⟨hello, ?_, hdec, ⟨haccepts, hdown, ?_⟩, ⟨pre, w1, _, psk, expires, hocc, hserve, hentry, hlive, ?_⟩⟩
  · rw [htrace, inBytes_append, (greeting_wire hfit).1, inBytes_append, hin, inBytes_cons, htail]
    exact List.append_nil _
  · refine fresh_occurs hrun ?_ hcache hfresh htrace
    intro tk k' ykey
    exact (pskReplayKey_yields.mp ykey).2
  · rw [redeem_entries, if_pos rfl]

/-- **Responder admission.**  A responder with a replay cache returns a session only over a connection on
whose very bytes every gate held: those of a full handshake, or those of a resumed one. -/
theorem admission (hC : C.Lawful) (hrun : ServerRun rss w₀ log w) (hcache : (rss c).hasReplayCache = true)
    (hdone : Yields (rss c).run (traceOf c log) s) :
    (∃ me hello helloBody kemInitBody replyBody sig,
      AdmittedFull (rss c) w₀ log c s me hello helloBody kemInitBody replyBody sig) ∨
    ∃ hello helloBody, AdmittedResumed (rss c) w₀ log c s hello helloBody := by
  obtain ⟨me, t, body, tr, hme, -, hfit, htrace, -, hpath⟩ := Responder.run_past special_empty hdone (.inr ⟨s, rfl⟩)
  rcases hpath with ⟨rfl, hfull⟩ | ⟨rfl, hresumed⟩
  · obtain ⟨hello, kemInitBody, replyBody, sig, hadm⟩ :=
      admitted_full hC hrun hcache hme hfit htrace hfull
    exact .inl ⟨me, hello, body, kemInitBody, replyBody, sig, hadm⟩
  · obtain ⟨hello, hadm⟩ := admitted_resumed hrun hcache hfit htrace hresumed
    exact .inr ⟨hello, body, hadm⟩

theorem admission_sample : ∃ log w s, ServerRun (fun _ : Unit => sampleMeeting.rs) sampleWorld log w ∧
    Yields sampleMeeting.rs.run (traceOf () log) s ∧
    ((∃ me hello helloBody kemInitBody replyBody sig,
      AdmittedFull sampleMeeting.rs sampleWorld log () s me hello helloBody kemInitBody replyBody sig) ∨
    ∃ hello helloBody, AdmittedResumed sampleMeeting.rs sampleWorld log () s hello helloBody) := by
  have hdone := Meeting.responder_completes samplePrims_lawful sampleMeeting_undisturbed
  rw [← traceOf_map_proc (τ := Chore) () sampleMeeting.responderEvs] at hdone
  obtain ⟨w, hw⟩ := Option.isSome_iff_exists.mp (by decide :
    ((sampleMeeting.responderEvs.map (Line.proc (τ := Chore) ())).foldlM World.line sampleWorld).isSome)
  have hrun : ServerRun (fun _ : Unit => sampleMeeting.rs) sampleWorld _ w := ⟨path_of_lines hw, fun _ => ⟨_, hdone⟩⟩
  exact ⟨_, _, _, hrun, hdone, admission samplePrims_lawful hrun rfl hdone⟩

end Zap.Handshake
