/-
# Zap.Dex.Track — which intent a flow tracks (`session.go`, `watch.go`, `v4session.go`).

A flow prepares an intent, notifies D of it and then polls. What it polls for is the watch that the notify
returned, and the id of that watch is read from the server's reply, not from the intent.
`ReadStream` is given a watch by its caller and labels what it reads with the session's own id, so there
the question is whether the watch has that id.
-/
import Zap.Dex.Pipeline

namespace Zap.Dex

open Zap.Lib Zap.Wire Proc

/-- Among the requests in `made` is a poll under `id` that returned `ref`; the label of the ref apart, which the
client sets. -/
def Polled (made : Ev dexSig → Prop) (id : ID) (ref : DExportRef) : Prop :=
  ∃ poll bytes m st, made ⟨.call poll, some bytes⟩ ∧ msgType poll = msgWatchPoll ∧ readIntentID poll = .ok id ∧
    parse bytes = .ok m ∧ readIntentStatus m = .ok st ∧ st.phase = phaseCommitted ∧
    ref = { st.ref with intentID := ref.intentID }

variable {id : ID} {msg : Message}

theorem watchPollRequest_read (h : buildWatchPollRequest id = .ok (.ok msg)) :
    msgType msg = msgWatchPoll ∧ readIntentID msg = .ok id := by
  obtain ⟨m, hm, -, -, hread⟩ := watchPollRequest_carries id
  obtain rfl : m = msg := Except.ok.inj (Except.ok.inj (hm.symm.trans h))
  exact ⟨watchPollRequest_tagged _ _ h, hread⟩

/-! ## Streams -/

section Stream

variable {s : Session} {wt : IntentWatch} {rounds : Nat} {tr : List (Ev dexSig)} {x : Option (List UInt8)}
  {ev : V4Event} {sent : Bool}

theorem Session.streamUntilCommitted_calls {q : Prog dexSig (Except DexError DExportRef)}
    (h : Prog.Reach (s.streamUntilCommitted wt rounds).run tr q) (hmem : ⟨DexReq.call msg, x⟩ ∈ tr) :
    buildWatchPollRequest wt.intentID = .ok (.ok msg) := by
  by_contra hne
  have hspares : Spares (fun _ => True) (fun r => r = DexReq.call msg) (s.streamUntilCommitted wt rounds) := by
    refine spares_pollUntil nofun (spares_poll wt fun _ msg' hmsg' heq => ?_) rounds
    cases heq
    exact hne hmsg'
  exact hspares.avoids.reach h _ hmem rfl

/-- An event of a stream that is not the report of an error comes from something that was read. -/
theorem stream_emits {α β : Type} {read : Op (Option α)} {onError : DexError → V4Event}
    {next : β → α → List V4Event × Option β} (hread : Avoids (fun r => r = DexReq.emit ev) read)
    (herror : ∀ e, ev ≠ onError e) {n : Nat} {b : β} {q : Prog dexSig (Except DexError Unit)}
    (h : Prog.Reach (stream read onError next n b).run tr q) (hmem : ⟨.emit ev, sent⟩ ∈ tr) :
    ∃ b a tr0, ev ∈ (next b a).1 ∧ Yields read tr0 (some a) ∧ ∀ e ∈ tr0, e ∈ tr := by
  induction n generalizing b tr with
  | zero =>
    have hend : Prog.Reach (.ret (.error .polling) : Prog dexSig (Except DexError Unit)) tr q := h
    cases hend
    cases hmem
  | succ n ih =>
    obtain ⟨tr1, tr2, r, rfl, hr, h1, -, hkeep⟩ := reach_past h (avoids_lift hread) (.inl ⟨_, hmem, rfl⟩)
    have hmem1 := hkeep _ hmem rfl
    -- an end without a further read emits nothing but the report
    have hends : ∀ {p : Op Unit}, Avoids (fun r => r = DexReq.emit ev) p → Prog.Reach p.run tr2 q → False :=
      fun hp hreach => hp.reach hreach _ hmem1 rfl
    rcases r with e | _ | a
    · cases e with
      | panicked f => exact (hends avoids_throw h1).elim
      | _ =>
        refine (hends ((avoids_request fun heq => ?_).bind fun _ => avoids_pure) h1).elim
        cases heq
        exact herror _ rfl
    · exact (hends avoids_pure h1).elim
    · by_cases hev : ev ∈ (next b a).1
      · exact ⟨b, a, tr1, hev, yields_lift.mp hr, fun e he => List.mem_append_left _ he⟩
      have hemit : Avoids (fun r => r = DexReq.emit ev) (stream.emitAll (next b a).1) := by
        refine Spares.avoids (spares_emitAll fun ev' hev' heq => ?_)
        cases heq
        exact hev hev'
      obtain ⟨tr3, tr4, more, rfl, -, h2, -, hkeep2⟩ := reach_past h1 hemit (.inl ⟨_, hmem1, rfl⟩)
      have hmem2 := hkeep2 _ hmem1 rfl
      cases more with
      | false => exact absurd rfl (avoids_pure.reach h2 _ hmem2)
      | true =>
        cases hb' : (next b a).2 with
        | none =>
          simp only [hb'] at h2
          exact absurd rfl (avoids_pure.reach h2 _ hmem2)
        | some b' =>
          simp only [hb'] at h2
          obtain ⟨tr5, tr6, done, rfl, -, h3, -, hkeep3⟩ :=
            reach_past h2 (avoids_request nofun) (.inl ⟨_, hmem2, rfl⟩)
          have hmem3 := hkeep3 _ hmem2 rfl
          cases done with
          | true => exact absurd rfl (avoids_pure.reach h3 _ hmem3)
          | false =>
            obtain ⟨b1, a1, tr0, hev1, hyields, hsub⟩ := ih h3 hmem3
            refine ⟨b1, a1, tr0, hev1, hyields, fun e he => ?_⟩
            simp only [List.mem_append]
            exact .inr (.inr (.inr (hsub e he)))

variable {sha256 : List UInt8 → ID} {v : V4SwapSession} {q : Prog dexSig (Except DexError Unit)}

theorem V4SwapSession.readStream_calls (h : Prog.Reach (v.readStream sha256 s wt rounds).run tr q)
    (hmem : ⟨DexReq.call msg, x⟩ ∈ tr) : buildWatchPollRequest wt.intentID = .ok (.ok msg) := by
  by_contra hne
  have hpoll : Spares (fun _ => True) (fun r => r = DexReq.call msg) (s.poll wt) := by
    refine spares_poll wt fun _ msg' hmsg' heq => ?_
    cases heq
    exact hne hmsg'
  have hspares : Spares (fun _ => True) (fun r => r = DexReq.call msg) (v.readStream sha256 s wt rounds) :=
    spares_orReport (spares_authorizeSelf nofun) nofun
      (spares_stream nofun (spares_unlessDone nofun hpoll) nofun (fun _ _ _ _ => nofun) rounds false)
  exact hspares.avoids.reach h _ hmem rfl

theorem V4SwapSession.readStream_polled (h : Prog.Reach (v.readStream sha256 s wt rounds).run tr q)
    (hmem : ⟨.emit ev, sent⟩ ∈ tr) (htype : ev.type = .swapDExportReady) : Polled (· ∈ tr) wt.intentID ev.ref := by
  have herror : ∀ e, ev ≠ v.errorEvent e := by
    rintro e rfl
    cases htype
  have hcheck : Avoids (fun r => r = DexReq.emit ev) (promise (v.cap.authorizeSelf sha256 authWatch)) :=
    Spares.avoids (spares_promise (spares_authorizeSelf nofun))
  obtain ⟨tr1, tr2, r, rfl, -, h1, -, hkeep⟩ := reach_past h hcheck (.inl ⟨_, hmem, rfl⟩)
  have hmem1 := hkeep _ hmem rfl
  cases r with
  | error e =>
    have hreport : Avoids (fun r => r = DexReq.emit ev) (do
        let _ ← ask (.emit (v.errorEvent e))
        return () : Op Unit) := by
      refine (avoids_request fun heq => ?_).bind fun _ => avoids_pure
      cases heq
      exact herror e rfl
    exact absurd rfl (hreport.reach h1 _ hmem1)
  | ok _ =>
    have hread : Avoids (fun r => r = DexReq.emit ev) (unlessDone (s.poll wt)) :=
      Spares.avoids (spares_unlessDone nofun (spares_poll wt fun _ _ _ => nofun))
    obtain ⟨imported, st, tr0, hev, hyields, hsub⟩ := stream_emits hread herror h1 hmem1
    obtain ⟨tr3, tr4, done, rfl, -, hrest⟩ := yields_bind.mp hyields
    cases done with
    | true => cases (yields_pure.mp hrest).2
    | false =>
      obtain ⟨tr5, tr6, st', rfl, hpoll, hret⟩ := yields_bind.mp hrest
      obtain ⟨rfl, hst⟩ := yields_pure.mp hret
      cases hst
      obtain ⟨-, msg, bytes, m, hbuild, rfl, hp, hstatus⟩ := Session.yields_poll.mp hpoll
      obtain ⟨hphase, href⟩ := V4SwapSession.events_ref hev htype
      obtain ⟨hpolltype, hid⟩ := watchPollRequest_read hbuild
      refine ⟨msg, bytes, m, _, ?_, hpolltype, hid, hp, hstatus, hphase, by rw [href]; rfl⟩
      exact List.mem_append_right _ (hsub _ (by simp))

end Stream

/-! ## Flows -/

def IsFlow (sha256 : List UInt8 → ID) (plan : Plan) : Prop :=
  (∃ req, plan = swapFlow req) ∨ (∃ req given, plan = swapFlowWithSender req given) ∨
    ∃ v : V4SwapSession, plan = v.run sha256

theorem IsFlow.plain {sha256 : List UInt8 → ID} {plan : Plan} (h : IsFlow sha256 plan) : plan.Plain := by
  rcases h with ⟨req, rfl⟩ | ⟨req, given, rfl⟩ | ⟨v, rfl⟩
  · exact swapFlow_plain req
  · exact swapFlowWithSender_plain req given
  · exact V4SwapSession.run_plain sha256 v

section Flows

variable {ο : Type} [DecidableEq ο] {sha256 : List UInt8 → ID} {s : Session} {plan : Plan} {rounds : Nat}
  {others : ο → Prog flowSig Unit} {log : List (Line (Stage ⊕ ο) Empty flowSig)}
  {w : Promises DexError Stage.Value Stage.Arg}

def NamedByServer (log : List (Line (Stage ⊕ ο) Empty flowSig)) (id : ID) : Prop :=
  ∃ msg bytes m, .proc (.inl .watch) ⟨.base (.call msg), some bytes⟩ ∈ log ∧ parse bytes = .ok m ∧
    readIntentID m = .ok id

variable (hplan : plan.Plain) (hothers : ∀ o, Prog.Never Meddles (others o)) {wt : IntentWatch}
  (h : FlowRun sha256 s plan rounds others log w)

include hplan hothers h

/-- **Where the id of a watch comes from**: D is notified once, of the prepared intent, and the reply names it. -/
theorem FlowRun.watch_run (hval : w.val .watch = some (.ok wt)) :
    (∃ pi, w.val .intent = some (.ok pi)) ∧ ∀ id, NamedByServer log id ↔ id = wt.intentID := by
  obtain ⟨_, tr, ⟨⟩, htrace, hrun, hin⟩ := h.came_to hplan hothers hval
  obtain ⟨tr1, tr2, u, rfl, hcheck, h1⟩ := yields_bind.mp hrun
  obtain ⟨tr3, tr4, pi, rfl, hhanded, h2⟩ := yields_bind.mp h1
  obtain ⟨tr0, rfl, hnotify⟩ := yields_base.mp h2
  obtain ⟨-, msg, bytes, m, -, rfl, hp, hread⟩ := Session.yields_notify.mp hnotify
  have hpi := h.handed_intent hplan hothers hhanded fun e he => hin e (by simp [he])
  refine ⟨⟨pi, hpi⟩, fun id => ⟨?_, ?_⟩⟩
  · rintro ⟨msg', bytes', m', hmem, hp', hread'⟩
    -- neither the check nor the promise before it makes a call
    have hfirst : ∀ e ∈ tr1, e.req ≠ .base (.call msg') := by
      have hsilent : Avoids (S := flowSig) (fun r => r = .base (.call msg')) (base (plan.check authIntent)) := by
        refine avoids_base ((hplan.check authIntent).avoids.mono fun r hr => ?_)
        cases hr
        trivial
      exact hsilent.reach hcheck
    have hsecond : ∀ e ∈ tr3, e.req ≠ .base (.call msg') := by
      unfold Plan.handed at hhanded
      intro e he heq
      split at hhanded <;>
      · obtain rfl := yields_awaitFor.mp hhanded
        cases List.mem_singleton.mp he
        cases heq
    have hcall := mem_traceOf.mpr hmem
    rw [htrace] at hcall
    simp only [List.mem_append, List.map_cons, List.map_nil, List.mem_singleton] at hcall
    rcases hcall with (hfirst' | hsecond' | hlast) | hfulfil
    · exact absurd rfl (hfirst _ hfirst')
    · exact absurd rfl (hsecond _ hsecond')
    · cases hlast
      cases hp.symm.trans hp'
      exact Except.ok.inj (hread'.symm.trans hread)
    · cases hfulfil
  · rintro rfl
    exact ⟨msg, bytes, m, hin _ (by simp [Ev.base]), hp, hread⟩

theorem FlowRun.stream_started (hmem : .proc (.inl .stream) ⟨.started .stream, wt⟩ ∈ log) :
    w.val .watch = some (.ok wt) := by
  obtain ⟨c, hspawn⟩ := h.started hmem
  obtain ⟨k, rfl, hk⟩ := h.spawned_by hplan hothers hspawn
  cases hk
  obtain ⟨p, tr, p', hp, hreach, hin, htr⟩ := h.stage_event hspawn not_false
  cases hp
  have hawait : Avoids (S := flowSig) (fun r => r = .spawn .stream wt) (awaitStage .watch) := avoids_awaitFor nofun
  obtain ⟨tr1, tr2, wt', rfl, hwt', h1, -, hkeep⟩ := reach_past hreach hawait (.inl ⟨_, hin, rfl⟩)
  obtain rfl := yields_awaitFor.mp hwt'
  have hval : w.val .watch = some (.ok wt') := h.awaited (mem_traceOf.mp (htr.subset (by simp)))
  -- the one goroutine that is started from here is started with what was awaited
  by_contra hne
  have havoids : Avoids (S := flowSig) (fun r => r = .spawn .stream wt) (plan.commit s wt') := by
    refine (avoids_base_of nofun _).bind fun r => ?_
    cases r with
    | error e => exact avoids_base_of nofun _
    | ok _ =>
      refine (avoids_request fun heq => ?_).bind fun _ => avoids_awaitFor nofun
      cases heq
      exact hne hval
  exact havoids.reach h1 _ (hkeep _ hin rfl) rfl

/-- **A flow tracks what the server named.**  The ref it surfaces was returned by a poll under the prepared id
exactly if the reply to the notify named that id. -/
theorem FlowRun.polled_iff {pi : PreparedIntent} {ref : DExportRef}
    (hcommitted : w.val .committed = some (.ok ref)) :
    Polled (fun e => ∃ k, .proc (.inl k) e.base ∈ log) pi.intentID ref ↔ NamedByServer log pi.intentID := by
  obtain ⟨hstream, wt, hwt, -⟩ := h.committed_run hplan hothers hcommitted
  rw [(h.watch_run hplan hothers hwt).2]
  constructor
  · rintro ⟨poll, bytes, m, st, ⟨k, hmem⟩, htype, hid, -⟩
    obtain rfl : k = .stream := by
      have hcall := h.call_type hplan hmem
      rw [htype] at hcall
      revert hcall
      cases k <;> decide
    obtain ⟨p, tr, p', hp, hreach, hin, htr⟩ := h.stage_event hmem not_false
    cases hp
    rcases reach_request hreach with rfl | ⟨wt', tr', rfl, hrest⟩
    · cases hin
    have hwt' := h.stream_started hplan hothers (mem_traceOf.mp (htr.subset List.mem_cons_self))
    obtain rfl : wt' = wt := Except.ok.inj (Option.some.inj (hwt'.symm.trans hwt))
    obtain ⟨tr0, q0, rfl, hop, -⟩ := Prog.reach_embed hrest
    rcases List.mem_cons.mp hin with heq | hin
    · cases heq
    obtain ⟨⟨r, y⟩, he, heq⟩ := List.mem_map.mp hin
    cases heq
    obtain ⟨-, hread⟩ := watchPollRequest_read (Session.streamUntilCommitted_calls hop he)
    exact Except.ok.inj (hid.symm.trans hread)
  · intro hid
    obtain ⟨wt', tr, hstarted, hyields, hin⟩ := h.stream_run hplan hothers hstream
    have hwt' := h.stream_started hplan hothers hstarted
    obtain rfl : wt' = wt := Except.ok.inj (Option.some.inj (hwt'.symm.trans hwt))
    obtain ⟨poll, bytes, m, st, hbuild, hpoll, hp, hread, hphase, href⟩ := Session.yields_streamUntilCommitted hyields
    obtain ⟨htype, hpid⟩ := watchPollRequest_read hbuild
    rw [← hid] at hpid
    exact ⟨poll, bytes, m, st, ⟨_, hin _ hpoll⟩, htype, hpid, hp, hread, hphase, by rw [href]⟩

end Flows

/-- **Which intent is tracked**, exactly. In every run of a flow, beside any other programs and with any server, the
ref that the flow surfaces was returned by a poll that carried the prepared id iff the server's reply to the notify
named that id. A ref in the events of a swap session was returned by a poll that carried the session's id iff
the stream was given a watch of that id. -/
theorem tracks_iff {ο : Type} [DecidableEq ο] (sha256 : List UInt8 → ID) (s : Session) :
    (∀ (plan : Plan) (rounds : Nat) (others : ο → Prog flowSig Unit) (log : List (Line (Stage ⊕ ο) Empty flowSig))
      (w : Promises DexError Stage.Value Stage.Arg), IsFlow sha256 plan → (∀ o, Prog.Never Meddles (others o)) →
      FlowRun sha256 s plan rounds others log w → ∀ pi ref, w.val .intent = some (.ok pi) →
      w.val .committed = some (.ok ref) →
        (Polled (fun e => ∃ k, .proc (.inl k) e.base ∈ log) pi.intentID ref ↔ NamedByServer log pi.intentID)) ∧
    ∀ (v : V4SwapSession) (wt : IntentWatch) (rounds : Nat) (tr : List (Ev dexSig))
      (q : Prog dexSig (Except DexError Unit)), Prog.Reach (v.readStream sha256 s wt rounds).run tr q →
      ∀ ev sent, ⟨.emit ev, sent⟩ ∈ tr → ev.type = .swapDExportReady →
        (Polled (· ∈ tr) v.intentID ev.ref ↔ wt.intentID = v.intentID) := by
  constructor
  · intro plan rounds others log w hplan hothers h pi ref _ href
    exact h.polled_iff hplan.plain hothers href
  intro v wt rounds tr q h ev sent hmem htype
  constructor
  · rintro ⟨poll, bytes, m, st, hpoll, -, hid, -⟩
    obtain ⟨-, hread⟩ := watchPollRequest_read (V4SwapSession.readStream_calls h hpoll)
    exact Except.ok.inj (hread.symm.trans hid)
  · intro hid
    rw [← hid]
    exact V4SwapSession.readStream_polled h hmem htype

/-! ## A sale that is answered -/

/-- An intent is prepared without a quote, D is notified and answers, and the first poll reports the commit. -/
def answered (pi : PreparedIntent) (mq mn mp : Message) (note status : List UInt8) (wt : IntentWatch)
    (ref : DExportRef) : List (Line (Stage ⊕ Empty) Empty flowSig) :=
  [.proc (.inl .intent) ⟨.spawn .inner (), ()⟩, .proc (.inl .inner) ⟨.started .inner, ()⟩,
    .proc (.inl .inner) ⟨.base (.call mq), none⟩, .proc (.inl .inner) ⟨.fulfil .inner (.error .callFailed), ()⟩,
    .proc (.inl .intent) ⟨.await .inner, some (.error .callFailed)⟩,
    .proc (.inl .intent) ⟨.fulfil .intent (.ok pi), ()⟩, .proc (.inl .watch) ⟨.await .intent, some (.ok pi)⟩,
    .proc (.inl .watch) ⟨.base (.call mn), some note⟩, .proc (.inl .watch) ⟨.fulfil .watch (.ok wt), ()⟩,
    .proc (.inl .committed) ⟨.await .watch, some (.ok wt)⟩, .proc (.inl .committed) ⟨.spawn .stream wt, ()⟩,
    .proc (.inl .stream) ⟨.started .stream, wt⟩, .proc (.inl .stream) ⟨.base .cancelled, false⟩,
    .proc (.inl .stream) ⟨.base (.call mp), some status⟩, .proc (.inl .stream) ⟨.fulfil .stream (.ok ref), ()⟩,
    .proc (.inl .committed) ⟨.await .stream, some (.ok ref)⟩,
    .proc (.inl .committed) ⟨.fulfil .committed (.ok ref), ()⟩]

theorem answered_steps (pi : PreparedIntent) (mq mn mp : Message) (note status : List UInt8) (wt : IntentWatch)
    (ref : DExportRef) : ∃ w, Path (PoolStep Promises.Serves fun _ _ _ => False) Promises.new
      (answered pi mq mn mp note status wt ref) w ∧ w.val .intent = some (.ok pi) ∧
      w.val .committed = some (.ok ref) ∧ w.val .watch = some (.ok wt) := by
  refine ⟨_, .cons rfl (.cons ⟨rfl, rfl⟩ (.cons rfl (.cons rfl (.cons ⟨fun _ h => h, rfl⟩ (.cons rfl
    (.cons ⟨fun _ h => h, rfl⟩ (.cons rfl (.cons rfl (.cons ⟨fun _ h => h, rfl⟩ (.cons rfl (.cons ⟨rfl, rfl⟩
    (.cons rfl (.cons rfl (.cons rfl (.cons ⟨fun _ h => h, rfl⟩ (.cons rfl (.nil _))))))))))))))))), rfl, rfl, rfl⟩

def commitment : IntentStatus Str := ⟨.zero 32, phaseCommitted, ⟨fill 1, fill 2, 3, .zero 32⟩, [], 0⟩

def saleAnswered (id : ID) : List (Line (Stage ⊕ Empty) Empty flowSig) :=
  answered saleIntent saleQuote saleNotice (made (buildWatchPollRequest id)) (made (buildIntentWatchRef id)).data
    (made (buildIntentStatus commitment)).data ⟨id⟩ { commitment.ref with intentID := id }

theorem sale_answered (hid : id = saleIntent.intentID ∨ id = fill 9) : ∃ w,
    FlowRun lastByte trader (swapFlow (sellNonce 1)) 1 (nofun : Empty → Prog flowSig Unit) (saleAnswered id) w ∧
    w.val .intent = some (.ok saleIntent) ∧ w.val .committed = some (.ok { commitment.ref with intentID := id }) ∧
    w.val .watch = some (.ok ⟨id⟩) := by
  have hprocs : ∀ k : Stage, ((crew Delivers ((swapFlow (sellNonce 1)).body lastByte trader 1)
      (nofun : Empty → Prog flowSig Unit) (.inl k)).follow (traceOf (.inl k) (saleAnswered id))).isSome := by
    intro k
    rcases hid with rfl | rfl <;> cases k <;> decide +kernel
  obtain ⟨w, hsteps, hvals⟩ := answered_steps saleIntent saleQuote saleNotice (made (buildWatchPollRequest id)) _ _
    ⟨id⟩ { commitment.ref with intentID := id }
  exact ⟨w, ⟨hsteps, Sum.rec (fun k => Prog.reach_of_follow (hprocs k)) nofun⟩, hvals⟩

/-- With a server that names the prepared id, the ref was polled for under it. -/
theorem sale_tracked : ∃ log w ref,
    FlowRun lastByte trader (swapFlow (sellNonce 1)) 1 (nofun : Empty → Prog flowSig Unit) log w ∧
    w.val .intent = some (.ok saleIntent) ∧ w.val .committed = some (.ok ref) ∧
    Polled (fun e => ∃ k, .proc (.inl k) e.base ∈ log) saleIntent.intentID ref := by
  obtain ⟨w, hrun, hpi, href, hwt⟩ := sale_answered (.inl rfl)
  have hflow : IsFlow lastByte (swapFlow (sellNonce 1)) := .inl ⟨_, rfl⟩
  have hnamed : NamedByServer (saleAnswered saleIntent.intentID) saleIntent.intentID :=
    ((hrun.watch_run hflow.plain nofun hwt).2 _).mpr rfl
  refine ⟨_, w, _, hrun, hpi, href, ?_⟩
  exact ((tracks_iff (ο := Empty) lastByte trader).1 _ 1 nofun _ w hflow nofun hrun _ _ hpi href).mpr hnamed

/-- With a server that names another id, the flow surfaces a ref that no poll under the prepared id returned. -/
theorem sale_tracks_another : ∃ log w ref,
    FlowRun lastByte trader (swapFlow (sellNonce 1)) 1 (nofun : Empty → Prog flowSig Unit) log w ∧
    w.val .intent = some (.ok saleIntent) ∧ w.val .committed = some (.ok ref) ∧
    ¬Polled (fun e => ∃ k, .proc (.inl k) e.base ∈ log) saleIntent.intentID ref := by
  have hid : saleIntent.intentID ≠ fill 9 := by decide
  obtain ⟨w, hrun, hpi, href, hwt⟩ := sale_answered (.inr rfl)
  have hplan := swapFlow_plain (sellNonce 1)
  refine ⟨_, w, _, hrun, hpi, href, fun hpolled => ?_⟩
  have hnamed := (hrun.polled_iff hplan nofun href).mp hpolled
  exact hid (((hrun.watch_run hplan nofun hwt).2 _).mp hnamed)

end Zap.Dex
