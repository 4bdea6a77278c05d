/-
# Zap.Node.OneWay — how many handlers one `Send` runs.

`dispatchLoop` writes what a one-way handler returns back as a plain message, and the other end's loop
dispatches that like any message: a `Send` can run a handler here, one there, one here again. The loop of
`getOrConnect` and the control stream of a QUIC connection drop the return value, so there the first
handler is the last.
-/
import Zap.Node.Correlation

namespace Zap.Node

open Zap.Lib Zap.Wire

variable {H : Type}

/-! ## What a `Send` sets off -/

/-- The tag of the frame of the `n`-th `Send` of the end `s`. -/
def sendTag (s : Side) (n : Nat) : Tag := ⟨.plain, .send s n⟩

/-- How many handlers have been run, at both ends, on frames that go back to that `Send`. -/
def invocations (σ : Link H) (s : Side) (n : Nat) : Nat :=
  ((σ.ends s).invoked ++ (σ.ends s.peer).invoked).countP fun t => t.cause = .send s n

/-- Handlers come back with what `f` says. -/
def Deterministic (p : Setup H) (f : H → Message → Result) : Prop := ∀ h m r, p.may h m r ↔ r = f h m

/-- In every run whose messages fit their frames, a `Send` of `m` by the end `s` runs at most one handler. -/
def AtMostOnce (p : Setup H) (s : Side) (m : Message) : Prop :=
  ∀ tr σ, Run p tr σ → (∀ l ∈ tr, l.Fits) → ∀ n, (σ.ends s).sent[n]? = some m → invocations σ s n ≤ 1

def Runs (p : Setup H) (s : Side) (m : Message) (h : H) (msg : Message) : Prop :=
  m.data.length ≤ maxFrame ∧ (p.mode s.peer).body (p.handlers s.peer) m.data = .run h msg

def Answers (p : Setup H) (f : H → Message → Result) (s : Side) (m r : Message) : Prop :=
  ∃ h msg, Runs p s m h msg ∧ (p.mode s.peer).answers = true ∧ f h msg = .reply r

/-- What the other end writes back for the message, if anything, runs no handler here. -/
def Quiet (p : Setup H) (f : H → Message → Result) (s : Side) (m : Message) : Prop :=
  ∀ r, Answers p f s m r → r.data.length ≤ maxFrame →
    (∀ h msg, (p.mode s).body (p.handlers s) r.data ≠ .run h msg) ∧
    ∀ h q msg, (p.mode s).body (p.handlers s) r.data ≠ .serve h q msg

variable {f : H → Message → Result} {p : Setup H} {m : Message}

/-- Where the return value is dropped, every message is quiet: on a QUIC connection, for one. -/
theorem quiet_of_discarded {s : Side} (h : (p.mode s.peer).answers = false) : Quiet p f s m := by
  rintro r ⟨hd, msg, -, hans, -⟩
  rw [h] at hans
  cases hans

/-- A message with flags is nothing but a one-way message, to every loop. -/
theorem body_flagged (mode : Mode) (handlers : Nat → Option H) (h : m.flags ≠ 0) :
    mode.body handlers m.data = .drop ∨ ∃ hd msg, mode.body handlers m.data = .run hd msg := by
  have hquic : Mode.quic.body handlers m.data = .drop ∨ ∃ hd msg, Mode.quic.body handlers m.data = .run hd msg := by
    simp only [Mode.body]
    cases parse m.data with
    | error e => exact .inl rfl
    | ok msg =>
      dsimp only
      rw [handled]
      cases handlers (msgType msg) with
      | none => exact .inl rfl
      | some hd => exact .inr ⟨hd, msg, rfl⟩
  cases mode with
  | quic => exact hquic
  | tcp l =>
    cases l with
    | dispatchLoop => exact dispatch_flagged handlers h
    | getOrConnect =>
      have hflag : ¬(correlatedHeaderSize ≤ m.data.length ∧ ofLE (window m.data 4 4) = reqFlagResp) := by
        rintro ⟨-, hflag⟩
        have hresp : reqFlagResp = 2 := rfl
        rw [flag_of_message, hresp] at hflag
        omega
      have hbody : (Mode.tcp .getOrConnect).body handlers m.data = Mode.quic.body handlers m.data := by
        show dialerDispatch handlers m.data = _
        rw [dialerDispatch, if_neg hflag]
        rfl
      rw [hbody]
      exact hquic

theorem readMessageRaw_length {b data rest : List UInt8} (h : readMessageRaw b = .ok (data, rest)) :
    data.length ≤ maxFrame := by
  simp only [readMessageRaw] at h
  split_ifs at h with h1 h2 h3
  cases h
  rw [List.length_take]
  omega

/-! ## The chain of a quiet message -/

/-- The state of the `n`-th `Send` of the end `s`, which is of the message `m`. -/
structure Chain (p : Setup H) (f : H → Message → Result) (s : Side) (n : Nat) (m : Message) (σ : Link H) :
    Prop where
  fresh : (σ.ends s).sent.length ≤ n →
    Stream.count (sendTag s n) (σ.wire s) + (σ.ends s.peer).invoked.count (sendTag s n) = 0
  once : Stream.count (sendTag s n) (σ.wire s) + (σ.ends s.peer).invoked.count (sendTag s n) ≤ 1
  first : ∀ ch ∈ σ.wire s, ch.tag.cause = .send s n → ch.tag = sendTag s n ∧ ch.bytes = writeMessage m.data
  second : ∀ ch ∈ σ.wire s.peer, ch.tag.cause = .send s n → ∃ r, Answers p f s m r ∧ ch.bytes = writeMessage r.data
  peer : ∀ t ∈ (σ.ends s.peer).invoked, t.cause = .send s n → t = sendTag s n
  own : ∀ t ∈ (σ.ends s).invoked, t.cause ≠ .send s n
  handling : ∀ tag q h msg, (σ.ends s.peer).reader = .handling tag q h msg → tag.cause = .send s n →
    q = none ∧ Runs p s m h msg
  replying : ∀ tag q r, (σ.ends s.peer).reader = .replying tag q r → tag.cause = .send s n →
    q = none ∧ Answers p f s m r
  handling_own : ∀ tag q h msg, (σ.ends s).reader = .handling tag q h msg → tag.cause ≠ .send s n
  replying_own : ∀ tag q r, (σ.ends s).reader = .replying tag q r → tag.cause ≠ .send s n

section Chain

variable {p : Setup H} {f : H → Message → Result} {s : Side} {n : Nat} {m : Message} {σ σ' : Link H} {l : Label}

theorem Chain.init : Chain p f s n m (Link.init : Link H) :=
  ⟨fun _ => rfl, Nat.zero_le _, nofun, nofun, nofun, nofun, nofun, nofun, nofun, nofun⟩

variable {data rest : List UInt8}

theorem Chain.read_peer (h : Chain p f s n m σ) (hsized : Sized σ) (hflags : m.flags ≠ 0)
    {tag : Tag} {a : Action H} (hreads : Reads p σ s.peer data rest tag a)
    (hcause : tag.cause = .send s n) :
    tag = sendTag s n ∧ (a = .drop ∨ ∃ hd msg, a = .run hd msg ∧ Runs p s m hd msg) := by
  obtain ⟨ch, q, hwire, hbytes, htag, -⟩ := hsized.head hreads
  rw [Side.peer_peer] at hwire
  have hmem : ch ∈ σ.wire s := by rw [hwire]; exact List.mem_cons_self
  obtain ⟨htag', hbytes'⟩ := h.first ch hmem (by rw [htag]; exact hcause)
  have hdata : data = m.data := writeMessage_injective (hbytes.symm.trans hbytes')
  subst hdata
  refine ⟨htag.symm.trans htag', ?_⟩
  rcases body_flagged (p.mode s.peer) (p.handlers s.peer) hflags with hd | ⟨hd, msg, hrun⟩
  · exact .inl (hreads.action.symm.trans hd)
  · exact .inr ⟨hd, msg, hreads.action.symm.trans hrun, readMessageRaw_length hreads.read, hrun⟩

theorem Chain.read_own (h : Chain p f s n m σ) (hsized : Sized σ) (hquiet : Quiet p f s m)
    {tag : Tag} {a : Action H} (hreads : Reads p σ s data rest tag a)
    (hcause : tag.cause = .send s n) : (∀ hd msg, a ≠ .run hd msg) ∧ ∀ hd q msg, a ≠ .serve hd q msg := by
  obtain ⟨ch, q, hwire, hbytes, htag, -⟩ := hsized.head hreads
  have hmem : ch ∈ σ.wire s.peer := by rw [hwire]; exact List.mem_cons_self
  obtain ⟨r, hans, hbytes'⟩ := h.second ch hmem (by rw [htag]; exact hcause)
  have hdata : data = r.data := writeMessage_injective (hbytes.symm.trans hbytes')
  subst hdata
  rw [← hreads.action]
  exact hquiet r hans (readMessageRaw_length hreads.read)

theorem answer_cause (tag : Tag) (q : Option Nat) (r : Message) : (answer tag q r).tag.cause = tag.cause := by
  cases q <;> rfl

/-- The frames of the `Send` under way and those read: only the `Send` itself adds one. -/
theorem sent_step (h : Step p σ l σ') (s : Side) (n : Nat)
    (hown : ∀ tag q r, (σ.ends s).reader = .replying tag q r → tag.cause ≠ .send s n) :
    Stream.count (sendTag s n) (σ'.wire s) + (σ'.ends s.peer).invoked.count (sendTag s n) ≤
      Stream.count (sendTag s n) (σ.wire s) + (σ.ends s.peer).invoked.count (sendTag s n) +
        if l.sends s ≠ [] ∧ (σ.ends s).sent.length = n then 1 else 0 := by
  refine count_step (x := sendTag s n) h s nofun fun ch hch htag => ?_
  cases hch with
  | request => cases htag
  | send =>
    cases htag
    rw [if_pos ⟨by simp [Label.sends], rfl⟩]
  | answer hreader =>
    have hcause := congrArg Tag.cause htag
    rw [answer_cause] at hcause
    exact absurd hcause (hown _ _ _ hreader)

theorem Chain.step (h : Chain p f s n m σ) (hsized : Sized σ) (hflags : m.flags ≠ 0) (hquiet : Quiet p f s m)
    (hdet : Deterministic p f) (hstep : Step p σ l σ')
    (hsent : ∀ m', (σ'.ends s).sent[n]? = some m' → m' = m) : Chain p f s n m σ' where
  fresh hn := by
    have hmove := sent_move hstep s
    have hlen : (σ'.ends s).sent.length = (σ.ends s).sent.length + (l.sends s).length := by
      rw [hmove, List.length_append]
    have hzero := h.fresh (by omega)
    have hcount := sent_step hstep s n h.replying_own
    rw [if_neg] at hcount
    · omega
    · rintro ⟨hne, hn'⟩
      have := List.length_pos_iff.mpr hne
      omega
  once := by
    have hcount := sent_step hstep s n h.replying_own
    split_ifs at hcount with hnew
    · have hzero := h.fresh (Nat.le_of_eq hnew.2)
      omega
    · exact hcount.trans h.once
  first := by
    refine wire_forall hsized hstep h.first fun ch hch hcause => ?_
    cases hch with
    | request => cases hcause
    | @send msg =>
      cases hcause
      have hmsg : msg = m := by
        refine hsent msg ?_
        rw [sent_move hstep s, Label.sends, if_pos rfl]
        simp
      subst hmsg
      exact ⟨rfl, rfl⟩
    | answer hreader =>
      rw [answer_cause] at hcause
      exact absurd hcause (h.replying_own _ _ _ hreader)
  second := by
    refine wire_forall hsized hstep h.second fun ch hch hcause => ?_
    cases hch with
    | request => cases hcause
    | send =>
      have hside : s.peer = s := by
        injection hcause
      exact absurd hside (Side.peer_ne s)
    | @answer tag q r hreader =>
      rw [answer_cause] at hcause
      obtain ⟨rfl, hans⟩ := h.replying tag q r hreader hcause
      exact ⟨r, hans, rfl⟩
  peer := by
    rcases invoked_move hstep s.peer with heq | ⟨data, rest, tag, a, rfl, hreads, -, heq⟩
    · rw [heq]
      exact h.peer
    rw [heq]
    intro t ht hcause
    rcases List.mem_append.mp ht with hold | hnew
    · exact h.peer t hold hcause
    · rw [List.mem_singleton] at hnew
      subst hnew
      exact (h.read_peer hsized hflags hreads hcause).1
  own := by
    rcases invoked_move hstep s with heq | ⟨data, rest, tag, a, rfl, hreads, hrun, heq⟩
    · rw [heq]
      exact h.own
    rw [heq]
    intro t ht hcause
    rcases List.mem_append.mp ht with hold | hnew
    · exact h.own t hold hcause
    rw [List.mem_singleton] at hnew
    subst hnew
    obtain ⟨hnorun, hnoserve⟩ := h.read_own hsized hquiet hreads hcause
    rcases hrun with ⟨hd, msg, ha⟩ | ⟨hd, q, msg, ha⟩
    · exact hnorun hd msg ha
    · exact hnoserve hd q msg ha
  handling tag q hd msg hrd hcause := by
    have hmove := reader_move hstep s.peer
    rw [hrd] at hmove
    generalize hold : (σ.ends s.peer).reader = rd at hmove
    cases hmove with
    | same => exact h.handling tag q hd msg hold hcause
    | serve hreads =>
      rcases (h.read_peer hsized hflags hreads hcause).2 with ha | ⟨hd', msg', ha, -⟩ <;> cases ha
    | run hreads =>
      rcases (h.read_peer hsized hflags hreads hcause).2 with ha | ⟨hd', msg', ha, hruns⟩
      · cases ha
      · cases ha
        exact ⟨rfl, hruns⟩
  replying tag q r hrd hcause := by
    have hmove := reader_move hstep s.peer
    rw [hrd] at hmove
    generalize hold : (σ.ends s.peer).reader = rd at hmove
    cases hmove with
    | same => exact h.replying tag q r hold hcause
    | give hrd hmay hans =>
      subst hrd
      obtain ⟨rfl, hruns⟩ := h.handling _ _ _ _ hold hcause
      refine ⟨rfl, _, _, hruns, ?_, ((hdet _ _ _).mp hmay).symm⟩
      simpa using hans
  handling_own tag q hd msg hrd hcause := by
    have hmove := reader_move hstep s
    rw [hrd] at hmove
    generalize hold : (σ.ends s).reader = rd at hmove
    cases hmove with
    | same => exact h.handling_own tag q hd msg hold hcause
    | serve hreads => exact (h.read_own hsized hquiet hreads hcause).2 _ _ _ rfl
    | run hreads => exact (h.read_own hsized hquiet hreads hcause).1 _ _ rfl
  replying_own tag q r hrd hcause := by
    have hmove := reader_move hstep s
    rw [hrd] at hmove
    generalize hold : (σ.ends s).reader = rd at hmove
    cases hmove with
    | same => exact h.replying_own tag q r hold hcause
    | give hrd _ _ =>
      subst hrd
      exact h.handling_own _ _ _ _ hold hcause

theorem Chain.invocations_le (h : Chain p f s n m σ) : invocations σ s n ≤ 1 := by
  have hown : (σ.ends s).invoked.countP (fun t => t.cause = .send s n) = 0 := by
    rw [List.countP_eq_zero]
    intro t ht
    simpa using h.own t ht
  have hpeer : (σ.ends s.peer).invoked.countP (fun t => t.cause = .send s n) =
      (σ.ends s.peer).invoked.count (sendTag s n) := by
    rw [List.count]
    refine List.countP_congr fun t ht => ?_
    simp only [decide_eq_true_eq, beq_iff_eq]
    exact ⟨h.peer t ht, fun heq => by rw [heq]; rfl⟩
  have honce := h.once
  rw [invocations, List.countP_append, hown, hpeer]
  omega

end Chain

/-! ## Every run, and a run with two -/

theorem two_invocations (hdet : Deterministic p f) (s : Side)
    {m r : Message} (hans : Answers p f s m r) (hlen : r.data.length ≤ maxFrame)
    (hruns : ∃ a, (p.mode s).body (p.handlers s) r.data = a ∧
      ((∃ h msg, a = .run h msg) ∨ ∃ h q msg, a = .serve h q msg)) :
    ∃ σ, Run p [.send s m, .read s.peer, .give s.peer (.reply r), .reply s.peer, .read s] σ ∧
      (σ.ends s).sent[0]? = some m ∧ invocations σ s 0 = 2 := by
  obtain ⟨h, msg, ⟨hmlen, hrun⟩, hanswers, hf⟩ := hans
  have hmay : p.may h msg (.reply r) := (hdet h msg _).mpr hf.symm
  obtain ⟨a, ha, ⟨h', msg', rfl⟩ | ⟨h', q, msg', rfl⟩⟩ := hruns <;> cases s <;>
    exact ⟨_, .cons (.send rfl) (.cons (.readFrame rfl rfl rfl rfl hmlen hrun)
      (.cons (.giveReply rfl hmay hanswers) (.cons (.reply rfl rfl)
      (.cons (.readFrame rfl rfl rfl rfl hlen ha) (.nil _))))), rfl, rfl⟩

theorem at_most_once_of_quiet (hdet : Deterministic p f) {s : Side}
    (hflags : m.flags ≠ 0) (hquiet : Quiet p f s m) : AtMostOnce p s m := by
  intro tr σ hrun hfits n hsent
  have hall : ∀ m', (σ.ends s).sent[n]? = some m' → m' = m := by
    intro m' hm'
    rw [hsent] at hm'
    cases hm'
    rfl
  clear hsent
  have hchain : Sized σ ∧ Chain p f s n m σ := by
    induction hrun using Path.concat_induction with
    | init => exact ⟨.init, .init⟩
    | @snoc tr σ l σ' _ hstep ih =>
      -- what is the n-th message now was it before, if there was one
      have hbefore : ∀ m', (σ.ends s).sent[n]? = some m' → m' = m := by
        intro m' hm'
        refine hall m' ?_
        rw [sent_move hstep s, List.getElem?_append_left (List.getElem?_eq_some_iff.mp hm').1, hm']
      obtain ⟨hsized, hchain⟩ := ih (fun l hl => hfits l (List.mem_append_left _ hl)) hbefore
      exact ⟨hsized.step (hfits l (List.mem_append_right _ List.mem_cons_self)) hstep,
        hchain.step hsized hflags hquiet hdet hstep hall⟩
  exact hchain.2.invocations_le

/-- The run with two invocations has nothing in it but the `Send`, and its messages fit. -/
theorem quiet_of_at_most_once (hdet : Deterministic p f) {s : Side} (h : AtMostOnce p s m) : Quiet p f s m := by
  intro r hans hlen
  have hmlen : m.data.length ≤ maxFrame := by
    obtain ⟨hd, msg, hr, -⟩ := hans
    exact hr.1
  have hmax : correlatedHeaderSize + maxFrame < 2 ^ 32 := by decide
  have hno : ¬∃ a, (p.mode s).body (p.handlers s) r.data = a ∧
      ((∃ h msg, a = .run h msg) ∨ ∃ h q msg, a = .serve h q msg) := by
    intro hruns
    obtain ⟨σ, hrun, hsent, htwo⟩ := two_invocations hdet s hans hlen hruns
    have hle := h _ σ hrun (fun l hl => ?_) 0 hsent
    · omega
    simp only [List.mem_cons, List.not_mem_nil, or_false] at hl
    rcases hl with rfl | rfl | rfl | rfl | rfl
    · show m.data.length < 2 ^ 32
      omega
    · trivial
    · show correlatedHeaderSize + r.data.length < 2 ^ 32
      omega
    · trivial
    · trivial
  exact ⟨fun hd msg ha => hno ⟨_, ha, .inl ⟨hd, msg, rfl⟩⟩, fun hd q msg ha => hno ⟨_, ha, .inr ⟨hd, q, msg, rfl⟩⟩⟩

/-- **When one `Send` runs at most one handler**: exactly when what the other end writes back for the
message, if it writes anything back, runs no handler here. To a QUIC node it always does. -/
theorem send_at_most_once_iff {p : Setup H} {f : H → Message → Result} (hdet : Deterministic p f) (s : Side)
    {m : Message} (hflags : m.flags ≠ 0) :
    (AtMostOnce p s m ↔ Quiet p f s m) ∧ (p.mode s.peer = .quic → AtMostOnce p s m) := by
  refine ⟨⟨quiet_of_at_most_once hdet, at_most_once_of_quiet hdet hflags⟩, fun hquic => ?_⟩
  refine at_most_once_of_quiet hdet hflags (quiet_of_discarded ?_)
  rw [hquic]
  rfl

def echo (mode : Mode) : Setup Unit := ⟨fun _ => mode, fun _ _ => some (), fun _ m r => r = .reply m⟩

theorem echo_deterministic (mode : Mode) : Deterministic (echo mode) fun _ m => .reply m := fun _ _ _ => Iff.rfl

/-- A `Send` of a bare header of type 1 to an echoing node that echoes back: two handlers run. -/
theorem echo_invoked_twice :
    ∃ (m : Message) (tr : List Label) (σ : Link Unit), parse m.data = .ok m ∧ m.flags ≠ 0 ∧
      Run (echo (.tcp .dispatchLoop)) tr σ ∧ (∀ l ∈ tr, ∀ n, l ≠ .number .left n ∧ l ≠ .number .right n) ∧
      (σ.ends .left).sent = [m] ∧ (σ.ends .right).sent = [] ∧ invocations σ .left 0 = 2 := by
  refine ⟨bare, [.send .left bare, .read .right, .give .right (.reply bare), .reply .right, .read .left], _, rfl,
    by decide, .cons (.send rfl) (.cons (.readFrame rfl rfl rfl rfl (by decide) rfl)
      (.cons (.giveReply rfl rfl rfl) (.cons (.reply rfl rfl)
      (.cons (.readFrame rfl rfl rfl rfl (by decide) rfl) (.nil _))))), ?_, rfl, rfl, rfl⟩
  intro l hl n
  simp only [List.mem_cons, List.not_mem_nil, or_false] at hl
  rcases hl with rfl | rfl | rfl | rfl | rfl <;> simp

/-- The same message over QUIC runs one handler, over TCP it can run more. -/
theorem echo_once_over_quic :
    ∃ m : Message, parse m.data = .ok m ∧ AtMostOnce (echo .quic) .left m ∧
      ¬AtMostOnce (echo (.tcp .dispatchLoop)) .left m := by
  have hne : bare.flags ≠ 0 := by decide
  have hsize : bare.data.length ≤ maxFrame := by decide
  refine ⟨bare, rfl, (send_at_most_once_iff (echo_deterministic _) .left hne).2 rfl, fun honce => ?_⟩
  have hquiet := (send_at_most_once_iff (echo_deterministic _) .left hne).1.mp honce
  exact (hquiet bare ⟨(), bare, ⟨hsize, rfl⟩, rfl, rfl⟩ hsize).1 () bare rfl

end Zap.Node
