/-
# Zap.Dex.Pipeline — the order of a managed swap.

`pipeline_order` is about every schedule of `SwapFlowWithSender`, every server, every sender and any programs
that use its promises from outside. The stages are those that wait for each other, from the intent to the
settlement. The quote of a flow is a promise of its own that nothing waits for.
-/
import Zap.Dex.Flow

namespace Zap.Dex

open Zap.Lib Zap.Wire Proc Relation

inductive Follows : Stage → Stage → Prop
  | intent : Follows .intent .passed
  | passed : Follows .passed .watch
  | watch : Follows .watch .committed
  | committed : Follows .committed .settle

section Order

variable {ο : Type} [DecidableEq ο] {sha256 : List UInt8 → ID} {s : Session} {req : SwapIntentRequest} {given : Bool}
  {rounds : Nat} {others : ο → Prog flowSig Unit} {log pre post : List (Line (Stage ⊕ ο) Empty flowSig)}
  {w : Promises DexError Stage.Value Stage.Arg} {j k : Stage}

theorem Follows.feeds (h : Follows j k) :
    Feeds .contextDone ((swapFlowWithSender req given).body sha256 s rounds) j k := by
  cases h <;> exact ⟨_, rfl⟩

theorem later_feeds (h : TransGen Follows j k) :
    TransGen (Feeds .contextDone ((swapFlowWithSender req given).body sha256 s rounds)) j k :=
  TransGen.mono (fun _ _ => Follows.feeds) _ _ h

omit [DecidableEq ο] in
theorem before_call {c : Stage ⊕ ο} {e : Ev flowSig} {msg : Message} {x : Option (List UInt8)}
    (hmem : .proc c e ∈ pre ++ [.proc (.inl k) ⟨.base (.call msg), x⟩]) (he : ∀ r, e.req ≠ .base r) :
    .proc c e ∈ pre := by
  rcases List.mem_append.mp hmem with hpre | hlast
  · exact hpre
  · cases List.mem_singleton.mp hlast
    exact absurd rfl (he _)

theorem FlowRun.cut {plan : Plan} {l : Line (Stage ⊕ ο) Empty flowSig}
    (h : FlowRun sha256 s plan rounds others (pre ++ l :: post) w) :
    (∃ w1, FlowRun sha256 s plan rounds others (pre ++ [l]) w1) ∧ ∃ w0, FlowRun sha256 s plan rounds others pre w0 := by
  rw [← List.singleton_append, ← List.append_assoc] at h
  obtain ⟨w1, h1, -⟩ := h.upto
  obtain ⟨w0, h0, -⟩ := h1.upto
  exact ⟨⟨w1, h1⟩, w0, h0⟩

variable (hothers : ∀ o, Prog.Never Meddles (others o)) {msg : Message} {x : Option (List UInt8)}

include hothers

/-- **D is notified after the sender has returned** for the prepared intent. -/
theorem notify_after_send
    (h : FlowRun sha256 s (swapFlowWithSender req given) rounds others
      (pre ++ .proc (.inl k) ⟨.base (.call msg), x⟩ :: post) w)
    (hmsg : msgType msg = msgNotify) :
    ∃ pi, buildPreparedIntent pi msgNotify = .ok (.ok msg) ∧
      .proc (.inl .intent) ⟨.fulfil .intent (.ok pi), ()⟩ ∈ pre ∧
      .proc (.inl .passed) ⟨.base (.send pi.toAddr pi.calldata), true⟩ ∈ pre := by
  have hplan := swapFlowWithSender_plain req given
  obtain ⟨⟨w1, h1⟩, w0, h0⟩ := h.cut
  obtain rfl : k = .watch := by
    have htype := h1.call_type hplan (List.mem_append_right _ List.mem_cons_self)
    rw [hmsg] at htype
    revert htype
    cases k <;> decide
  obtain ⟨pi, tr, hhanded, hin, hbuild⟩ := h1.notify_call hplan (List.mem_append_right _ List.mem_cons_self)
  refine ⟨pi, hbuild, ?_⟩
  -- the stage was handed what the sender's stage let pass, before the call
  obtain rfl := yields_awaitFor.mp hhanded
  have hpassed := h0.awaited (before_call (hin _ List.mem_cons_self) nofun)
  obtain ⟨hintent, tr0, hsend, hin0⟩ := h0.passed_run hplan hothers rfl hpassed
  obtain ⟨-, rfl, -⟩ := yields_sendIntent.mp hsend
  obtain ⟨c, hc⟩ := h0.fulfilled hintent
  obtain ⟨rfl, -⟩ := h0.fulfils hplan.fulfils_nothing (fun o => fulfils_nothing (hothers o)) hc
  exact ⟨hc, hin0 _ List.mem_cons_self⟩

/-- **A settlement is asked for after a poll has reported the commit.** -/
theorem import_after_commit
    (h : FlowRun sha256 s (swapFlowWithSender req given) rounds others
      (pre ++ .proc (.inl k) ⟨.base (.call msg), x⟩ :: post) w)
    (hmsg : msgType msg = msgImport) :
    ∃ poll bytes m st, msgType poll = msgWatchPoll ∧
      .proc (.inl .stream) ⟨.base (.call poll), some bytes⟩ ∈ pre ∧ parse bytes = .ok m ∧
      readIntentStatus m = .ok st ∧ st.phase = phaseCommitted := by
  have hplan := swapFlowWithSender_plain req given
  obtain ⟨⟨w1, h1⟩, w0, h0⟩ := h.cut
  obtain rfl : k = .settle := by
    have htype := h1.call_type hplan (List.mem_append_right _ List.mem_cons_self)
    rw [hmsg] at htype
    revert htype
    cases k <;> decide
  obtain ⟨ref, tr, hclaimed, hin⟩ := h1.settle_call hplan (List.mem_append_right _ List.mem_cons_self)
  obtain rfl := yields_awaitFor.mp hclaimed
  have hcommitted := h0.awaited (before_call (hin _ List.mem_cons_self) nofun)
  obtain ⟨hstream, -⟩ := h0.committed_run hplan hothers hcommitted
  obtain ⟨wt, tr0, -, hyields, hin0⟩ := h0.stream_run hplan hothers hstream
  obtain ⟨poll, bytes, m, st, hbuild, hpoll, hp, hread, hphase, -⟩ := Session.yields_streamUntilCommitted hyields
  exact ⟨poll, bytes, m, st, watchPollRequest_tagged _ poll hbuild, hin0 _ hpoll, hp, hread, hphase⟩

/-- **A failure takes the stages behind it with it.** -/
theorem failure_passes_on (h : FlowRun sha256 s (swapFlowWithSender req given) rounds others log w) {e : DexError}
    (hlater : TransGen Follows j k) (hj : w.val j = some (.error e)) :
    (∀ c, c = k ∨ c.parent = some k → ∀ msg x, .proc (.inl c) ⟨.base (.call msg), x⟩ ∉ log) ∧
    (∀ v, w.val k ≠ some (.ok v)) ∧
    ∃ more w' e', FlowRun sha256 s (swapFlowWithSender req given) rounds others (log ++ more) w' ∧
      w'.val k = some (.error e') := by
  have hplan := swapFlowWithSender_plain req given
  have hfulfil : ∀ o, Prog.Never IsFulfil (others o) := fun o => fulfils_nothing (hothers o)
  have hnot : ∀ v, w.val j ≠ some (.ok v) := fun v hv => by
    rw [hj] at hv
    cases hv
  obtain ⟨hwaits, hfail⟩ := h.stalled_later hplan.fulfils_nothing hfulfil (later_feeds hlater) hnot
  have hdone : Delivers .contextDone := trivial
  refine ⟨?_, hfail, h.passes_on_later hplan.fulfils_nothing hfulfil hdone (later_feeds hlater) hj⟩
  rintro c (rfl | hparent) msg x hmem
  · exact hwaits _ hmem
  · -- a child makes a call only once it has been started, which is more than waiting
    obtain ⟨a, ha⟩ := h.child_spawned hplan hothers hparent hmem
    exact hwaits _ ha

end Order

/-- **The order of a managed swap**, in every run of its goroutines beside any others. D is notified after the
sender has returned without error for the prepared intent; a settlement is asked for after a poll has reported the
commit; of the stages that wait for each other, those behind one that has failed do not succeed, make no call and
can all come to their end, with an error; each promise is fulfilled once; and those who await a promise and are
not cancelled see the same. -/
theorem pipeline_order {ο : Type} [DecidableEq ο] (sha256 : List UInt8 → ID) (s : Session) (req : SwapIntentRequest)
    (given : Bool) (rounds : Nat) (others : ο → Prog flowSig Unit) (hothers : ∀ o, Prog.Never Meddles (others o))
    (log : List (Line (Stage ⊕ ο) Empty flowSig)) (w : Promises DexError Stage.Value Stage.Arg)
    (h : FlowRun sha256 s (swapFlowWithSender req given) rounds others log w) :
    (∀ pre post k msg x, log = pre ++ .proc (.inl k) ⟨.base (.call msg), x⟩ :: post →
      (msgType msg = msgNotify →
        ∃ pi, buildPreparedIntent pi msgNotify = .ok (.ok msg) ∧
          .proc (.inl .intent) ⟨.fulfil .intent (.ok pi), ()⟩ ∈ pre ∧
          .proc (.inl .passed) ⟨.base (.send pi.toAddr pi.calldata), true⟩ ∈ pre) ∧
      (msgType msg = msgImport →
        ∃ poll bytes m st, msgType poll = msgWatchPoll ∧
          .proc (.inl .stream) ⟨.base (.call poll), some bytes⟩ ∈ pre ∧ parse bytes = .ok m ∧
          readIntentStatus m = .ok st ∧ st.phase = phaseCommitted)) ∧
    (∀ j k e, TransGen Follows j k → w.val j = some (.error e) →
      (∀ c, c = k ∨ c.parent = some k → ∀ msg x, .proc (.inl c) ⟨.base (.call msg), x⟩ ∉ log) ∧
      (∀ v, w.val k ≠ some (.ok v)) ∧
      ∃ more w' e', FlowRun sha256 s (swapFlowWithSender req given) rounds others (log ++ more) w' ∧
        w'.val k = some (.error e')) ∧
    (∀ pre post c k r, log = pre ++ .proc c ⟨.fulfil k r, ()⟩ :: post →
      ∀ c' r', .proc c' ⟨.fulfil k r', ()⟩ ∉ pre ++ post) ∧
    ∀ c c' k r r', .proc c ⟨.await k, some r⟩ ∈ log → .proc c' ⟨.await k, some r'⟩ ∈ log → r = r' := by
  refine ⟨?_, ?_, ?_, fun c c' k r r' hr hr' => h.agree hr hr'⟩
  · rintro pre post k msg x rfl
    exact ⟨notify_after_send hothers h, import_after_commit hothers h⟩
  · exact fun j k e hlater hj => failure_passes_on hothers h hlater hj
  · rintro pre post c k r rfl c' r'
    exact h.once (swapFlowWithSender_plain req given).fulfils_nothing fun o => fulfils_nothing (hothers o)

/-! ## A sale without a quote -/

/-- The quote of a flow fails, and so does the one inside; the intent is prepared, sent and notified. -/
def unquoted (pi : PreparedIntent) (mq mn : Message) : List (Line (Stage ⊕ Empty) Empty flowSig) :=
  [.proc (.inl .quote) ⟨.base (.call mq), none⟩, .proc (.inl .quote) ⟨.fulfil .quote (.error .callFailed), ()⟩,
    .proc (.inl .intent) ⟨.spawn .inner (), ()⟩, .proc (.inl .inner) ⟨.started .inner, ()⟩,
    .proc (.inl .inner) ⟨.base (.call mq), none⟩, .proc (.inl .inner) ⟨.fulfil .inner (.error .callFailed), ()⟩,
    .proc (.inl .intent) ⟨.await .inner, some (.error .callFailed)⟩,
    .proc (.inl .intent) ⟨.fulfil .intent (.ok pi), ()⟩, .proc (.inl .passed) ⟨.await .intent, some (.ok pi)⟩,
    .proc (.inl .passed) ⟨.base (.send pi.toAddr pi.calldata), true⟩,
    .proc (.inl .passed) ⟨.fulfil .passed (.ok pi), ()⟩, .proc (.inl .watch) ⟨.await .passed, some (.ok pi)⟩,
    .proc (.inl .watch) ⟨.base (.call mn), none⟩, .proc (.inl .watch) ⟨.fulfil .watch (.error .callFailed), ()⟩]

theorem unquoted_steps (pi : PreparedIntent) (mq mn : Message) : ∃ w,
    Path (PoolStep Promises.Serves fun _ _ _ => False) Promises.new (unquoted pi mq mn) w ∧
      w.val .quote = some (.error .callFailed) := by
  refine ⟨_, .cons rfl (.cons rfl (.cons rfl (.cons ⟨rfl, rfl⟩ (.cons rfl (.cons rfl (.cons ⟨fun _ h => h, rfl⟩
    (.cons rfl (.cons ⟨fun _ h => h, rfl⟩ (.cons rfl (.cons rfl (.cons ⟨fun _ h => h, rfl⟩
    (.cons rfl (.cons rfl (.nil _)))))))))))))), rfl⟩

def saleIntent : PreparedIntent := prepared lastByte ⟨.zero 20, addr9999, 3000, 60, .zero 20⟩ 0 (sellNonce 1)

def saleQuote : Message := made (buildQuoteRequest (sellNonce 1).quote)

def saleNotice : Message := made (buildPreparedIntent saleIntent msgNotify)

theorem sale_unquoted : ∃ w, msgType saleNotice = msgNotify ∧
    FlowRun lastByte trader (swapFlowWithSender (sellNonce 1) true) 0 (nofun : Empty → Prog flowSig Unit)
      (unquoted saleIntent saleQuote saleNotice) w ∧ w.val .quote = some (.error .callFailed) := by
  have hprocs : ∀ k : Stage, ((crew Delivers ((swapFlowWithSender (sellNonce 1) true).body lastByte trader 0)
      (nofun : Empty → Prog flowSig Unit) (.inl k)).follow
      (traceOf (.inl k) (unquoted saleIntent saleQuote saleNotice))).isSome := by
    intro k
    cases k <;> decide +kernel
  obtain ⟨w, hsteps, hval⟩ := unquoted_steps saleIntent saleQuote saleNotice
  exact ⟨w, by decide +kernel, ⟨hsteps, Sum.rec (fun k => Prog.reach_of_follow (hprocs k)) nofun⟩, hval⟩

theorem sale_sent_first : ∃ pi mq mn w pre,
    FlowRun lastByte trader (swapFlowWithSender (sellNonce 1) true) 0 (nofun : Empty → Prog flowSig Unit)
      (unquoted pi mq mn) w ∧
    unquoted pi mq mn = pre ++ [.proc (.inl .watch) ⟨.base (.call mn), none⟩,
      .proc (.inl .watch) ⟨.fulfil .watch (.error .callFailed), ()⟩] ∧
    ∃ pi', buildPreparedIntent pi' msgNotify = .ok (.ok mn) ∧
      .proc (.inl .passed) ⟨.base (.send pi'.toAddr pi'.calldata), true⟩ ∈ pre := by
  obtain ⟨w, hmn, hrun, -⟩ := sale_unquoted
  refine ⟨_, _, _, w, (unquoted saleIntent saleQuote saleNotice).take 12, hrun, rfl, ?_⟩
  have horder := pipeline_order (ο := Empty) lastByte trader (sellNonce 1) true 0 nofun nofun _ w hrun
  obtain ⟨pi', hbuild, -, hsend⟩ :=
    (horder.1 ((unquoted saleIntent saleQuote saleNotice).take 12) _ .watch _ none rfl).1 hmn
  exact ⟨pi', hbuild, hsend⟩

/-- The quote has failed first, and D is notified all the same. -/
theorem notified_without_quote : ∃ log w mn,
    FlowRun lastByte trader (swapFlowWithSender (sellNonce 1) true) 0 (nofun : Empty → Prog flowSig Unit) log w ∧
    w.val .quote = some (.error .callFailed) ∧ msgType mn = msgNotify ∧
    .proc (.inl .watch) ⟨.base (.call mn), none⟩ ∈ log := by
  obtain ⟨w, hmn, hrun, hval⟩ := sale_unquoted
  exact ⟨_, w, _, hrun, hval, hmn, by simp [unquoted]⟩

end Zap.Dex
