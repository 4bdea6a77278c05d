/-
# Zap.Node.Correlation — a call gets the answer to its own request.

Both ends run `dispatchLoop`. A call that returns a message returns what the other end's handler produced
for the request of this very call, whatever else is on the connection: calls the other way under the same
numbers, one-way messages, calls that were given up while their answers were under way.

The invariant follows an answer from the request's frame to the channel. It holds as long as every
message handed over fits a frame; `writeCorrelated` does not check that, and a message of 2³² - 5 bytes is
all it takes to write the other end's answers oneself.
-/
import Zap.Node.Ledger

namespace Zap.Node

open Zap.Lib Zap.Wire

variable {H : Type}

/-! ## What a frame is taken for -/

theorem writeMessage_injective {a b : List UInt8} (h : writeMessage a = writeMessage b) : a = b := by
  have hdrop := congrArg (List.drop 4) h
  simpa [writeMessage] using hdrop

variable {m : Message} {q : Nat} {x : List UInt8}

theorem unwrap_flagged (h : m.flags ≠ 0) : unwrapCorrelated m.data = none := by
  have hhead := m.header
  have h16 : headerSize = 16 := rfl
  have hlen : ¬m.data.length < correlatedHeaderSize := by
    show ¬m.data.length < 8
    omega
  have hflag : m.version + 2 ^ 16 * m.flags ≠ reqFlagReq ∧ m.version + 2 ^ 16 * m.flags ≠ reqFlagResp := by
    have hreq : reqFlagReq = 1 := rfl
    have hresp : reqFlagResp = 2 := rfl
    omega
  simp only [unwrapCorrelated, if_neg hlen, flag_of_message, if_pos hflag]

theorem dispatch_request (handlers : Nat → Option H) (hq : q < 2 ^ 32) (m : Message) :
    dispatch handlers (wrapCorrelated q reqFlagReq m.data) = .drop ∨
    ∃ h msg, parse m.data = .ok msg ∧ handlers (msgType msg) = some h ∧
      dispatch handlers (wrapCorrelated q reqFlagReq m.data) = .serve h q msg := by
  simp only [dispatch, incoming, unwrapCorrelated_wrapCorrelated hq (.inl rfl)]
  cases hp : parse m.data with
  | error e => exact .inl rfl
  | ok msg =>
    dsimp only
    rw [if_neg (by decide)]
    dsimp only
    cases hh : handlers (msgType msg) with
    | none => exact .inl rfl
    | some h => exact .inr ⟨h, msg, rfl, hh, rfl⟩

theorem dispatch_response (handlers : Nat → Option H) (hq : q < 2 ^ 32) (m : Message) :
    dispatch handlers (wrapCorrelated q reqFlagResp m.data) = .drop ∨
    ∃ msg, parse m.data = .ok msg ∧ dispatch handlers (wrapCorrelated q reqFlagResp m.data) = .deliver q msg := by
  simp only [dispatch, incoming, unwrapCorrelated_wrapCorrelated hq (.inr rfl)]
  cases hp : parse m.data with
  | error e => exact .inl rfl
  | ok msg => exact .inr ⟨msg, rfl, rfl⟩

theorem dispatch_flagged (handlers : Nat → Option H) (h : m.flags ≠ 0) :
    dispatch handlers m.data = .drop ∨ ∃ hd msg, dispatch handlers m.data = .run hd msg := by
  simp only [dispatch, incoming, unwrap_flagged h]
  cases parse m.data with
  | error e => exact .inl rfl
  | ok msg =>
    dsimp only
    cases handlers (msgType msg) with
    | none => exact .inl rfl
    | some hd => exact .inr ⟨hd, msg, rfl⟩

/-! ## Answers -/

/-- The call `c` of the end `s` has the number `q` and asks `m`. -/
def Asked (σ : Link H) (s : Side) (c q : Nat) (m : Message) : Prop :=
  ∃ k : CallState, (σ.ends s).calls[c]? = some k ∧ k.reqID = q ∧ k.request = m

/-- The other end's handler was given `req`, off the request of that call, and produced `r`. -/
def Made (σ : Link H) (s : Side) (c : Nat) (req r : Message) : Prop :=
  (reqTag s c, req, Result.reply r) ∈ (σ.ends s.peer).produced

/-- The message is the answer to that call's own request, and the frame it came in was the call's. -/
def Answered (σ : Link H) (s : Side) (c : Nat) (tag : Tag) (msg : Message) : Prop :=
  tag = respTag s c ∧ ∃ q m req r, Asked σ s c q m ∧ parse m.data = .ok req ∧ Made σ s c req r ∧
    parse r.data = .ok msg

/-- What a frame on the stream of the end `s` can be. -/
inductive Honest (σ : Link H) (s : Side) : Chunk → Prop
  | request {c q : Nat} {m : Message} (hask : Asked σ s c q m) :
      Honest σ s ⟨reqTag s c, writeCorrelated q reqFlagReq m.data⟩
  | response {c q : Nat} {m req r : Message} (hask : Asked σ s.peer c q m) (hreq : parse m.data = .ok req)
      (hmade : Made σ s.peer c req r) :
      Honest σ s ⟨respTag s.peer c, writeCorrelated q reqFlagResp r.data⟩
  | plain {cause : Cause} {m : Message} (hflags : m.flags ≠ 0) : Honest σ s ⟨⟨.plain, cause⟩, writeMessage m.data⟩

structure Correlates (σ : Link H) : Prop where
  counter : ∀ t, (σ.ends t).reqID = (σ.ends t).calls.length % 2 ^ 32
  ids : ∀ (t : Side) (c : Nat) (k : CallState), (σ.ends t).calls[c]? = some k → k.reqID = (c + 1) % 2 ^ 32
  pending : ∀ t q c, (σ.ends t).pending q = some c → ∃ m, Asked σ t c q m
  inbox : ∀ (t : Side) (c : Nat) (k : CallState) tag msg, (σ.ends t).calls[c]? = some k →
    k.inbox = some (tag, msg) → Answered σ t c tag msg
  result : ∀ (t : Side) (c : Nat) (k : CallState) tag msg, (σ.ends t).calls[c]? = some k →
    k.phase = .leaving (.message tag msg) ∨ k.phase = .returned (.message tag msg) → Answered σ t c tag msg
  handling : ∀ t tag q h req, (σ.ends t).reader = .handling tag (some q) h req →
    ∃ c m, tag = reqTag t.peer c ∧ Asked σ t.peer c q m ∧ parse m.data = .ok req
  replying : ∀ t tag q r, (σ.ends t).reader = .replying tag (some q) r →
    ∃ c m req, tag = reqTag t.peer c ∧ Asked σ t.peer c q m ∧ parse m.data = .ok req ∧ Made σ t.peer c req r
  plain : ∀ t tag r, (σ.ends t).reader = .replying tag none r → r.flags ≠ 0
  wire : ∀ t, ∀ ch ∈ σ.wire t, Honest σ t ch

section Step

variable {p : Setup H} {σ σ' : Link H} {l : Label} {s t : Side} {c : Nat} {msg : Message} {tag : Tag}
  {k' : CallState}

theorem Asked.step (hstep : Step p σ l σ') (h : Asked σ s c q m) : Asked σ' s c q m := by
  obtain ⟨k, hk, hq, hm⟩ := h
  obtain ⟨k', hk', hmove⟩ := call_move hstep hk
  exact ⟨k', hk', hmove.request_eq.2.trans hq, hmove.request_eq.1.trans hm⟩

theorem Made.step (hstep : Step p σ l σ') {req r : Message} (h : Made σ s c req r) : Made σ' s c req r := by
  rcases produced_move hstep s.peer with heq | ⟨tag, q, hd, msg, res, -, -, -, heq⟩
  · rw [Made, heq]
    exact h
  · rw [Made, heq]
    exact List.mem_append_left _ h

theorem Answered.step (hstep : Step p σ l σ') (h : Answered σ s c tag msg) : Answered σ' s c tag msg := by
  obtain ⟨htag, q, m, req, r, hask, hreq, hmade, hmsg⟩ := h
  exact ⟨htag, q, m, req, r, hask.step hstep, hreq, hmade.step hstep, hmsg⟩

theorem Honest.step (hstep : Step p σ l σ') {ch : Chunk} (h : Honest σ s ch) : Honest σ' s ch := by
  cases h with
  | request hask => exact .request (hask.step hstep)
  | response hask hreq hmade => exact .response (hask.step hstep) hreq (hmade.step hstep)
  | plain hflags => exact .plain hflags

theorem Correlates.id_lt (h : Correlates σ) (hask : Asked σ s c q m) : q < 2 ^ 32 := by
  obtain ⟨k, hk, rfl, -⟩ := hask
  rw [h.ids s c k hk]
  exact Nat.mod_lt _ (by decide)

/-- **Numbers do not repeat** among fewer than 2³² calls. -/
theorem Correlates.id_unique (h : Correlates σ) (hcalls : (σ.ends s).calls.length < 2 ^ 32) {c' : Nat} {m' : Message}
    (hask : Asked σ s c q m) (hask' : Asked σ s c' q m') : c = c' := by
  obtain ⟨k, hk, hq, -⟩ := hask
  obtain ⟨k', hk', hq', -⟩ := hask'
  have hlt := (List.getElem?_eq_some_iff.mp hk).1
  have hlt' := (List.getElem?_eq_some_iff.mp hk').1
  rw [h.ids s c k hk, Nat.mod_eq_of_lt (by omega)] at hq
  rw [h.ids s c' k' hk', Nat.mod_eq_of_lt (by omega)] at hq'
  omega

/-- What a read comes to: a response of this end's own call, a request of the other's, or a one-way
message. -/
theorem Correlates.reads (h : Correlates σ) (hsized : Sized σ) (hmode : p.mode t = .tcp .dispatchLoop)
    {data rest : List UInt8} {a : Action H} (hreads : Reads p σ t data rest tag a) :
    match a with
    | .serve _ q req => ∃ c m, tag = reqTag t.peer c ∧ Asked σ t.peer c q m ∧ parse m.data = .ok req
    | .deliver q msg => ∃ c m, Asked σ t c q m ∧ Answered σ t c tag msg
    | _ => True := by
  obtain ⟨ch, rest', hwire, hbytes, htag, -⟩ := hsized.head hreads
  have haction := hreads.action
  rw [hmode] at haction
  have hch := h.wire t.peer ch (by rw [hwire]; exact List.mem_cons_self)
  cases hch with
  | @request c q m hask =>
    rw [writeCorrelated_eq] at hbytes
    cases writeMessage_injective hbytes
    rcases dispatch_request (p.handlers t) (h.id_lt hask) m with heq | ⟨hd, msg, hparse, -, heq⟩
    all_goals obtain rfl := haction.symm.trans heq
    · trivial
    · exact ⟨c, m, htag.symm, hask, hparse⟩
  | @response c q m req r hask hreq hmade =>
    rw [Side.peer_peer] at hask hmade htag
    rw [writeCorrelated_eq] at hbytes
    cases writeMessage_injective hbytes
    rcases dispatch_response (p.handlers t) (h.id_lt hask) r with heq | ⟨msg, hparse, heq⟩
    all_goals obtain rfl := haction.symm.trans heq
    · trivial
    · exact ⟨c, m, hask, htag.symm, q, m, req, r, hask, hreq, hmade, hparse⟩
  | @plain cause m hflags =>
    cases writeMessage_injective hbytes
    rcases dispatch_flagged (p.handlers t) hflags with heq | ⟨hd, msg, heq⟩
    all_goals
      obtain rfl := haction.symm.trans heq
      trivial

theorem Correlates.init : Correlates (Link.init : Link H) :=
  ⟨fun _ => rfl, (fun _ _ _ hk => nomatch hk), nofun, (fun _ _ _ _ _ hk => nomatch hk),
    (fun _ _ _ _ _ hk => nomatch hk), nofun, nofun, nofun, nofun⟩

theorem Correlates.pending_step (h : Correlates σ) (hstep : Step p σ l σ') (t : Side) (q c : Nat)
    (hc : (σ'.ends t).pending q = some c) : ∃ m, Asked σ' t c q m := by
  have hold : (σ.ends t).pending q = some c → ∃ m, Asked σ' t c q m := by
    intro hp
    obtain ⟨m, hask⟩ := h.pending t q c hp
    exact ⟨m, hask.step hstep⟩
  rcases pending_move hstep t with heq | ⟨c0, k, hk, ⟨-, -, heq⟩ | ⟨-, heq⟩⟩
  · rw [heq] at hc
    exact hold hc
  · rw [heq] at hc
    by_cases hq : q = k.reqID
    · subst hq
      rw [Function.update_self] at hc
      cases hc
      exact ⟨k.request, Asked.step hstep ⟨k, hk, rfl, rfl⟩⟩
    · rw [Function.update_of_ne hq] at hc
      exact hold hc
  · rw [heq] at hc
    by_cases hq : q = k.reqID
    · subst hq
      rw [Function.update_self] at hc
      cases hc
    · rw [Function.update_of_ne hq] at hc
      exact hold hc

/-- A response goes to the call it answers: its number is registered for no other. -/
theorem Correlates.inbox_step (h : Correlates σ) (hsized : Sized σ) (hstep : Step p σ l σ')
    (hmode : p.mode t = .tcp .dispatchLoop) (hcalls : (σ.ends t).calls.length < 2 ^ 32)
    (hk' : (σ'.ends t).calls[c]? = some k') (hinbox : k'.inbox = some (tag, msg)) : Answered σ' t c tag msg := by
  rcases call_new hstep hk' with ⟨k, hk, hmove⟩ | ⟨-, -, hnew⟩
  swap
  · rw [hnew] at hinbox
    cases hinbox
  cases hmove with
  | deliver hreads hpending _ =>
    cases hinbox
    obtain ⟨c', m, hask, hans⟩ := h.reads hsized hmode hreads
    obtain ⟨m', hask'⟩ := h.pending t _ c hpending
    cases h.id_unique hcalls hask hask'
    exact hans.step hstep
  | receive _ _ => cases hinbox
  | same => exact (h.inbox t c _ tag msg hk hinbox).step hstep
  | register _ | write _ | writeFail _ | cancel _ | finish _ => exact (h.inbox t c k tag msg hk hinbox).step hstep

theorem Correlates.result_step (h : Correlates σ) (hstep : Step p σ l σ') (hk' : (σ'.ends t).calls[c]? = some k')
    (hres : k'.phase = .leaving (.message tag msg) ∨ k'.phase = .returned (.message tag msg)) :
    Answered σ' t c tag msg := by
  rcases call_new hstep hk' with ⟨k, hk, hmove⟩ | ⟨-, -, hnew⟩
  swap
  · rw [hnew] at hres
    rcases hres with hres | hres <;> cases hres
  cases hmove with
  | same => exact (h.result t c _ tag msg hk hres).step hstep
  | deliver _ _ _ => exact (h.result t c k tag msg hk hres).step hstep
  | receive _ hinbox =>
    rcases hres with hres | hres
    · cases hres
      exact (h.inbox t c k tag msg hk hinbox).step hstep
    · cases hres
  | finish hphase =>
    rcases hres with hres | hres
    · cases hres
    · cases hres
      exact (h.result t c k tag msg hk (.inl hphase)).step hstep
  | register _ | write _ | writeFail _ | cancel _ => rcases hres with hres | hres <;> cases hres

theorem Correlates.step (h : Correlates σ) (hsized : Sized σ) (hstep : Step p σ l σ')
    (hmode : ∀ t, p.mode t = .tcp .dispatchLoop) (hcalls : ∀ t, (σ.ends t).calls.length < 2 ^ 32)
    (hflags : ∀ m, l.message = some m → m.flags ≠ 0) : Correlates σ' where
  counter t := by
    rcases number_move hstep t with ⟨hid, hlen⟩ | ⟨msg, -, heq⟩
    · rw [hid, hlen, h.counter]
    · simp [heq, End.number, h.counter]
  ids t c k' hk' := by
    rcases call_new hstep hk' with ⟨k, hk, hmove⟩ | ⟨-, rfl, hnew⟩
    · rw [hmove.request_eq.2, h.ids t c k hk]
    · rw [hnew, h.counter, Nat.mod_add_mod]
  pending := h.pending_step hstep
  inbox t c k' tag msg hk' hinbox := h.inbox_step hsized hstep (hmode t) (hcalls t) hk' hinbox
  result t c k' tag msg hk' hres := h.result_step hstep hk' hres
  handling t tag q hd req hrd := by
    have hmove := reader_move hstep t
    rw [hrd] at hmove
    generalize hold : (σ.ends t).reader = rd at hmove
    cases hmove with
    | same =>
      obtain ⟨c, m, htag, hask, hparse⟩ := h.handling t tag q hd req hold
      exact ⟨c, m, htag, hask.step hstep, hparse⟩
    | serve hreads =>
      obtain ⟨c, m, htag, hask, hparse⟩ := h.reads hsized (hmode t) hreads
      exact ⟨c, m, htag, hask.step hstep, hparse⟩
  replying t tag q r hrd := by
    have hmove := reader_move hstep t
    rw [hrd] at hmove
    generalize hold : (σ.ends t).reader = rd at hmove
    cases hmove with
    | same =>
      obtain ⟨c, m, req, htag, hask, hparse, hmade⟩ := h.replying t tag q r hold
      exact ⟨c, m, req, htag, hask.step hstep, hparse, hmade.step hstep⟩
    | give hrd hmay hans =>
      subst hrd
      obtain ⟨c, m, htag, hask, hparse⟩ := h.handling t tag q _ _ hold
      refine ⟨c, m, _, htag, hask.step hstep, hparse, ?_⟩
      rw [Made, Side.peer_peer, produced_give hstep hold, ← htag]
      exact List.mem_append_right _ List.mem_cons_self
  plain t tag r hrd := by
    have hmove := reader_move hstep t
    rw [hrd] at hmove
    generalize hold : (σ.ends t).reader = rd at hmove
    cases hmove with
    | same => exact h.plain t tag r hold
    | give _ _ _ => exact hflags _ rfl
  wire t := by
    refine wire_forall hsized hstep (fun ch hch => (h.wire t ch hch).step hstep) fun ch hch => ?_
    cases hch with
    | request hk _ => exact .request (Asked.step hstep ⟨_, hk, rfl, rfl⟩)
    | send => exact .plain (hflags _ rfl)
    | @answer tag q r hreader =>
      cases q with
      | none => exact .plain (h.plain t tag r hreader)
      | some q =>
        obtain ⟨c, m, req, rfl, hask, hparse, hmade⟩ := h.replying t tag q r hreader
        exact .response (hask.step hstep) hparse (hmade.step hstep)

end Step

/-! ## Whole runs -/

/-- Every call that has returned a message has returned the answer to its own request, which the other
end's handler has been given once; and the frame it took the message from was under the name of this call
and of no other. -/
def CallsCorrelated (σ : Link H) : Prop :=
  ∀ (s : Side) (c : Nat) (k : CallState) tag msg, (σ.ends s).calls[c]? = some k →
    k.phase = .returned (.message tag msg) →
    tag = respTag s c ∧ (σ.ends s.peer).invoked.count (reqTag s c) ≤ 1 ∧
      ∃ req r, parse k.request.data = .ok req ∧ (reqTag s c, req, Result.reply r) ∈ (σ.ends s.peer).produced ∧
        parse r.data = .ok msg

/-- The run so far meets the conditions: `dispatchLoop` at both ends, and every message with flags and
short enough. -/
theorem run_correlates {p : Setup H} (hmode : ∀ t, p.mode t = .tcp .dispatchLoop) {tr : List Label}
    {σ : Link H} (hrun : Run p tr σ) (hflags : ∀ l ∈ tr, ∀ m, l.message = some m → m.flags ≠ 0)
    (hfits : ∀ l ∈ tr, l.Fits)
    (hcalls : ∀ t, (σ.ends t).calls.length < 2 ^ 32) :
    Sized σ ∧ Correlates σ ∧ ∀ s c, Once σ s c := by
  induction hrun using Path.concat_induction with
  | init => exact ⟨.init, .init, Once.init⟩
  | @snoc tr σ l σ' _ hstep ih =>
    have hlen : ∀ t, (σ.ends t).calls.length < 2 ^ 32 := by
      intro t
      have := hcalls t
      rcases number_move hstep t with ⟨-, hlen⟩ | ⟨msg, -, heq⟩
      · omega
      · rw [heq, End.number, List.length_append] at this
        omega
    obtain ⟨hsized, hcorr, honce⟩ := ih (fun l hl => hflags l (List.mem_append_left _ hl))
      (fun l hl => hfits l (List.mem_append_left _ hl)) hlen
    have hlast : l ∈ tr ++ [l] := List.mem_append_right _ List.mem_cons_self
    exact ⟨hsized.step (hfits l hlast) hstep, hcorr.step hsized hstep hmode hlen (hflags l hlast),
      fun s c => (honce s c).step hstep⟩

/-- **Calls are correlated**, in every run of two nodes that serve the connection with `dispatchLoop`, with
fewer than 2³² calls a side and messages with flags, in which every message handed over fits a frame. -/
theorem calls_correlated {p : Setup H} (hmode : ∀ t, p.mode t = .tcp .dispatchLoop) {tr : List Label}
    {σ : Link H} (hrun : Run p tr σ) (hflags : ∀ l ∈ tr, ∀ m, l.message = some m → m.flags ≠ 0)
    (hcalls : ∀ t, (σ.ends t).calls.length < 2 ^ 32)
    (hfits : ∀ l ∈ tr, l.Fits) : CallsCorrelated σ := by
  obtain ⟨-, hcorr, honce⟩ := run_correlates hmode hrun hflags hfits hcalls
  intro s c k tag msg hk hphase
  obtain ⟨htag, q, m, req, r, ⟨k', hk', -, rfl⟩, hreq, hmade, hmsg⟩ := hcorr.result s c k tag msg hk (.inr hphase)
  rw [hk] at hk'
  cases hk'
  exact ⟨htag, (Nat.le_add_left ..).trans (honce s c).asked, req, r, hreq, hmade, hmsg⟩

/-! ## One call, and one too long -/

def oneCall (m r : Message) : List Label :=
  [.number .left m, .register .left 0, .write .left 0, .read .right, .give .right (.reply r), .reply .right,
    .read .left, .receive .left 0, .finish .left 0]

theorem oneCall_run :
    ∃ σ, Run anyHandlers (oneCall bare bare) σ ∧ (∀ t, (σ.ends t).calls.length < 2 ^ 32) ∧
      ∃ k : CallState, (σ.ends .left).calls[0]? = some k ∧
        k.phase = .returned (.message (respTag .left 0) bare) := by
  refine ⟨_, .cons .number (.cons (.register rfl rfl) (.cons (.write rfl rfl rfl)
    (.cons (.readFrame rfl rfl rfl (writeCorrelated_eq ..) (by decide) rfl)
    (.cons (.give rfl trivial) (.cons (.reply rfl rfl)
    (.cons (.readFrame rfl rfl rfl (writeCorrelated_eq ..) (by decide) rfl)
    (.cons (.receive rfl rfl rfl) (.cons (.finish rfl rfl) (.nil _))))))))), ?_, ?_⟩
  · intro t
    cases t with
    | left => exact (by decide : 1 < 2 ^ 32)
    | right => exact (by decide : 0 < 2 ^ 32)
  · exact ⟨_, rfl, rfl⟩

/-- A request of the bare header and an answer of the bare header. -/
theorem bare_call_correlated :
    ∃ m : Message, ∃ σ, Run anyHandlers (oneCall m m) σ ∧ CallsCorrelated σ ∧
      ∃ k : CallState, (σ.ends .left).calls[0]? = some k ∧
        k.phase = .returned (.message (respTag .left 0) m) := by
  obtain ⟨σ, hrun, hcalls, hret⟩ := oneCall_run
  refine ⟨bare, σ, hrun, calls_correlated (fun _ => rfl) hrun ?_ hcalls ?_, hret⟩
  · intro l hl m' hm'
    simp only [oneCall, List.mem_cons, List.not_mem_nil, or_false] at hl
    rcases hl with rfl | rfl | rfl | rfl | rfl | rfl | rfl | rfl | rfl <;> cases hm' <;> decide
  intro l hl
  have hfits : Fits bare := by
    rw [Fits]
    decide
  simp only [oneCall, List.mem_cons, List.not_mem_nil, or_false] at hl
  rcases hl with rfl | rfl | rfl | rfl | rfl | rfl | rfl | rfl | rfl <;> first | exact trivial | exact hfits

/-- The header of a message of 2³² - 5 bytes, of type 1. -/
def longHeader : List UInt8 := [0x5a, 0x41, 0x50, 0x00, 2, 0, 0, 1, 16, 0, 0, 0, 0xfb, 0xff, 0xff, 0xff]

def padding : List UInt8 := List.replicate 239 0

/-- A message with bytes of the caller's choice from byte 255 on. -/
def longMessage (x : List UInt8) : Message :=
  ⟨longHeader ++ (padding ++ x), by rw [List.length_append]; exact Nat.le_add_right ..⟩

theorem longMessage_length (hx : x.length = 2 ^ 32 - 260) : (longMessage x).data.length = 2 ^ 32 - 5 := by
  simp only [longMessage, List.length_append, padding, List.length_replicate, hx]
  decide

theorem second_frame_length : (0 :: (longHeader ++ padding)).length = 256 := by
  simp only [List.length_cons, List.length_append, padding, List.length_replicate]
  decide

/-- The length in front of its request wraps around to 3, and a loop that reads 3 bytes and then a frame of
256 comes out at the chosen bytes. -/
theorem longMessage_wraps (hx : x.length = 2 ^ 32 - 260) :
    writeCorrelated 1 reqFlagReq (longMessage x).data =
      writeMessage [1, 0, 0] ++ (writeMessage (0 :: (longHeader ++ padding)) ++ x) := by
  have h3 : le 4 (correlatedHeaderSize + (2 ^ 32 - 5)) = [3, 0, 0, 0] := by decide
  have h1 : le 4 1 = [1, 0, 0, 0] := by decide
  have h3' : le 4 3 = [3, 0, 0, 0] := by decide
  have h256 : le 4 256 = [0, 1, 0, 0] := by decide
  rw [writeCorrelated, longMessage_length hx, h3, writeMessage, writeMessage, second_frame_length, h256]
  simp [longMessage, h1, h3']

theorem second_frame_dropped (handlers : Nat → Option H) (pad : List UInt8) :
    dispatch handlers (0 :: (longHeader ++ pad)) = .drop := by
  have hflag : ofLE (window (0 :: (longHeader ++ pad)) 4 4) = 512 := rfl
  have hunwrap : unwrapCorrelated (0 :: (longHeader ++ pad)) = none := by
    simp only [unwrapCorrelated, hflag]
    rw [if_pos (show 512 ≠ reqFlagReq ∧ 512 ≠ reqFlagResp by decide), ite_self]
  have hlen : ¬(0 :: (longHeader ++ pad)).length < headerSize := by
    simp only [List.length_cons, List.length_append, longHeader, headerSize]
    omega
  have hmagic : window (0 :: (longHeader ++ pad)) 0 4 = [0, 0x5a, 0x41, 0x50] := rfl
  have hparse : parse (0 :: (longHeader ++ pad)) = .error .invalidMagic := by
    rw [parse, if_neg hlen, hmagic, if_pos (by decide)]
  simp only [dispatch, incoming, hunwrap, hparse]

theorem longMessage_parses (hx : x.length = 2 ^ 32 - 260) :
    parse (longMessage x).data = .ok (longMessage x) ∧ (longMessage x).flags = 256 := by
  have hlen := longMessage_length hx
  have hsize : declaredSize (longMessage x).data = 2 ^ 32 - 5 := by
    show ofLE [0xfb, 0xff, 0xff, 0xff] = 2 ^ 32 - 5
    decide
  refine ⟨parse_ok_iff.mpr ⟨by rw [hlen]; decide, rfl, .inr rfl, by rw [hsize]; decide,
    by rw [hsize, hlen], ?_⟩, rfl⟩
  rw [hsize, ← hlen, List.take_length]

/-- The right end calls, and the left end calls with a message that is too long. -/
def forgedCall (m : Message) (x : List UInt8) : List Label :=
  [.number .right m, .register .right 0, .write .right 0, .number .left (longMessage x), .register .left 0,
    .write .left 0, .read .right, .read .right, .read .right, .receive .right 0, .finish .right 0]

/-- **A call that answers the other end's call.**  Every message has flags and is one that `Parse` accepts;
no handler runs at either end; and yet the right end's call returns a message. -/
theorem long_message_forges_answer :
    ∃ (m : Message) (x : List UInt8) (σ : Link Unit), Run anyHandlers (forgedCall m x) σ ∧
      (∀ l ∈ forgedCall m x, ∀ m', l.message = some m' → parse m'.data = .ok m' ∧ m'.flags ≠ 0) ∧
      (∀ t, (σ.ends t).calls.length < 2 ^ 32) ∧ (∀ t, (σ.ends t).produced = []) ∧
      (∃ k : CallState, (σ.ends .right).calls[0]? = some k ∧ k.phase = .returned (.message .torn m)) ∧
      ¬CallsCorrelated σ := by
  set answer := writeMessage (wrapCorrelated 1 reqFlagResp bare.data) with hanswer
  have halen : answer.length = 28 := by decide
  obtain ⟨t, ht⟩ : ∃ t : List UInt8, t.length = 2 ^ 32 - 288 := ⟨List.replicate _ 0, List.length_replicate⟩
  have hne : t ≠ [] := by
    rintro rfl
    cases ht
  have hx : (answer ++ t).length = 2 ^ 32 - 260 := by
    rw [List.length_append, halen, ht]
    decide
  have hsecond := second_frame_dropped (anyHandlers.handlers .right) padding
  have hrun : ∃ σ, Run anyHandlers (forgedCall bare (answer ++ t)) σ ∧
      (∀ t, (σ.ends t).calls.length < 2 ^ 32) ∧ (∀ t, (σ.ends t).produced = []) ∧
      ∃ k : CallState, (σ.ends .right).calls[0]? = some k ∧ k.phase = .returned (.message .torn bare) := by
    refine ⟨_, .cons .number (.cons (.register rfl rfl) (.cons (.write rfl rfl rfl)
      (.cons .number (.cons (.register rfl rfl) (.cons (.write rfl rfl rfl)
      (.cons (.readTorn rfl rfl rfl (longMessage_wraps hx)
        (List.append_ne_nil_of_right_ne_nil _ (List.append_ne_nil_of_right_ne_nil _ hne)) (by decide) rfl)
      (.cons (.readTorn rfl rfl rfl rfl (List.append_ne_nil_of_right_ne_nil _ hne)
        (by rw [second_frame_length]; decide) hsecond)
      (.cons (.readTorn rfl rfl rfl rfl hne (by decide) rfl)
      (.cons (.receive rfl rfl rfl) (.cons (.finish rfl rfl) (.nil _))))))))))), ?_, ?_, ?_⟩
    · intro s
      cases s <;> exact (by decide : 1 < 2 ^ 32)
    · intro s
      cases s <;> rfl
    · exact ⟨_, rfl, rfl⟩
  obtain ⟨σ, hrun, hcalls, hproduced, k, hk, hphase⟩ := hrun
  refine ⟨bare, answer ++ t, σ, hrun, ?_, hcalls, hproduced, ⟨k, hk, hphase⟩, fun hcorr => ?_⟩
  · intro l hl m' hm'
    simp only [forgedCall, List.mem_cons, List.not_mem_nil, or_false] at hl
    rcases hl with rfl | rfl | rfl | rfl | rfl | rfl | rfl | rfl | rfl | rfl | rfl <;> cases hm'
    · exact ⟨rfl, by decide⟩
    · exact ⟨(longMessage_parses hx).1, by rw [(longMessage_parses hx).2]; decide⟩
  · obtain ⟨-, -, req, r, -, hmem, -⟩ := hcorr .right 0 k .torn bare hk hphase
    rw [hproduced] at hmem
    cases hmem

end Zap.Node
