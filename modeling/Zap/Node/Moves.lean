/-
# Zap.Node.Moves — what a step of the link does to each of its parts.

An invariant of the link is about a call, a loop, a stream or a log. Each has its own list of moves here
(`CallMove`, `ReaderMove`, `WireMove`, and one lemma for each log), and the invariants are proved from
those: when `Step` changes, this is the module that follows it.
-/
import Zap.Node.Link

namespace Zap.Node

open Zap.Lib Zap.Wire

variable {H : Type}

namespace Link

variable {σ : Link H} {s : Side} {e : End H} {ch : Chunk} {p : Setup H} {data rest : List UInt8}

@[simp] theorem setEnd_self : (σ.setEnd s e).ends s = e := Function.update_self ..

@[simp] theorem setEnd_peer : (σ.setEnd s e).ends s.peer = σ.ends s.peer := Function.update_of_ne (Side.peer_ne s) ..

@[simp] theorem setEnd_wire : (σ.setEnd s e).wire = σ.wire := rfl

@[simp] theorem push_ends : (σ.push s ch).ends = σ.ends := rfl

@[simp] theorem push_self : (σ.push s ch).wire s = σ.wire s ++ [ch] := Function.update_self ..

@[simp] theorem push_peer : (σ.push s ch).wire s.peer = σ.wire s.peer := Function.update_of_ne (Side.peer_ne s) ..

@[simp] theorem take_self : (σ.take p s data rest).ends s =
    (σ.ends s).act (Stream.take writeMessage .torn (σ.wire s.peer) data rest).1
      ((p.mode s).body (p.handlers s) data) := Function.update_self ..

@[simp] theorem take_peer : (σ.take p s data rest).ends s.peer = σ.ends s.peer :=
  Function.update_of_ne (Side.peer_ne s) ..

@[simp] theorem take_wire_self : (σ.take p s data rest).wire s = σ.wire s :=
  Function.update_of_ne (Side.ne_peer s) ..

@[simp] theorem take_wire_peer : (σ.take p s data rest).wire s.peer =
    (Stream.take writeMessage .torn (σ.wire s.peer) data rest).2 := Function.update_self ..

end Link

/-- The frame the end `s` can read next, its tag, and what its loop makes of it. -/
structure Reads (p : Setup H) (σ : Link H) (s : Side) (data rest : List UInt8) (tag : Tag) (a : Action H) :
    Prop where
  idle : (σ.ends s).reader = .idle
  read : readMessageRaw (σ.stream s) = .ok (data, rest)
  tag_eq : (Stream.take writeMessage .torn (σ.wire s.peer) data rest).1 = tag
  action : (p.mode s).body (p.handlers s) data = a

inductive CallMove (p : Setup H) (σ : Link H) (t : Side) (c : Nat) (k : CallState) : Label → CallState → Prop
  | same {l : Label} : CallMove p σ t c k l k
  | register (h : k.phase = .numbered) : CallMove p σ t c k (.register t c) { k with phase := .registered }
  | write (h : k.phase = .registered) : CallMove p σ t c k (.write t c) { k with phase := .waiting }
  | writeFail (h : k.phase = .registered) :
      CallMove p σ t c k (.writeFail t c) { k with phase := .leaving .writeError }
  | receive {tag : Tag} {msg : Message} (h : k.phase = .waiting) (hinbox : k.inbox = some (tag, msg)) :
      CallMove p σ t c k (.receive t c) { k with phase := .leaving (.message tag msg), inbox := none }
  | cancel (h : k.phase = .waiting) : CallMove p σ t c k (.cancel t c) { k with phase := .leaving .cancelled }
  | finish {r : CallResult} (h : k.phase = .leaving r) :
      CallMove p σ t c k (.finish t c) { k with phase := .returned r }
  | deliver {data rest : List UInt8} {tag : Tag} {reqID : Nat} {msg : Message}
      (h : Reads p σ t data rest tag (.deliver reqID msg)) (hpending : (σ.ends t).pending reqID = some c)
      (hinbox : k.inbox = none) :
      CallMove p σ t c k (.read t) { k with inbox := some (tag, msg) }

variable {t : Side} {c : Nat} {k k' : CallState} {e : End H}

theorem setCall_move {p : Setup H} {σ : Link H} {k1 : CallState} {l : Label} (hk : e.calls[c]? = some k)
    (hmove : CallMove p σ t c k l k1) {c' : Nat} (hk' : e.calls[c']? = some k') :
    ∃ k'', (e.setCall c k1).calls[c']? = some k'' ∧ CallMove p σ t c' k' l k'' := by
  rw [End.setCall]
  by_cases hc : c = c'
  · subst hc
    rw [hk] at hk'
    cases hk'
    have hlt := (List.getElem?_eq_some_iff.mp hk).1
    exact ⟨k1, by simp [hlt], hmove⟩
  · exact ⟨k', by rw [List.getElem?_set_ne hc, hk'], .same⟩

theorem deliver_cases (e : End H) (tag : Tag) (reqID : Nat) (msg : Message) :
    e.deliver tag reqID msg = e ∨
    ∃ c k, e.pending reqID = some c ∧ e.calls[c]? = some k ∧ k.inbox = none ∧
      e.deliver tag reqID msg = e.setCall c { k with inbox := some (tag, msg) } := by
  rw [End.deliver]
  cases hp : e.pending reqID with
  | none => exact .inl rfl
  | some c =>
    dsimp only
    cases hk : e.calls[c]? with
    | none => exact .inl rfl
    | some k =>
      dsimp only
      cases hin : k.inbox with
      | some x => exact .inl rfl
      | none => exact .inr ⟨c, k, rfl, hk, hin, rfl⟩

/-- Acting on a frame: a response may fill one channel, a handler may start; nothing else changes. -/
theorem act_cases (e : End H) (tag : Tag) (a : Action H) :
    e.act tag a = e ∨
    (∃ reqID msg c k, a = .deliver reqID msg ∧ e.pending reqID = some c ∧ e.calls[c]? = some k ∧
      k.inbox = none ∧ e.act tag a = e.setCall c { k with inbox := some (tag, msg) }) ∨
    (∃ h reqID msg, a = .serve h reqID msg ∧ e.act tag a = e.invoke tag (some reqID) h msg) ∨
    (∃ h msg, a = .run h msg ∧ e.act tag a = e.invoke tag none h msg) := by
  cases a with
  | deliver reqID msg =>
    rcases deliver_cases e tag reqID msg with heq | ⟨c, k, hp, hk, hin, heq⟩
    · exact .inl heq
    · exact .inr (.inl ⟨reqID, msg, c, k, rfl, hp, hk, hin, heq⟩)
  | serve h reqID msg => exact .inr (.inr (.inl ⟨h, reqID, msg, rfl, rfl⟩))
  | run h msg => exact .inr (.inr (.inr ⟨h, msg, rfl, rfl⟩))
  | drop => exact .inl rfl

inductive ReaderMove (p : Setup H) (σ : Link H) (t : Side) (rd : Reader H) : Label → Reader H → Prop
  | same {l : Label} : ReaderMove p σ t rd l rd
  | serve {data rest : List UInt8} {tag : Tag} {h : H} {reqID : Nat} {msg : Message}
      (hreads : Reads p σ t data rest tag (.serve h reqID msg)) :
      ReaderMove p σ t rd (.read t) (.handling tag (some reqID) h msg)
  | run {data rest : List UInt8} {tag : Tag} {h : H} {msg : Message}
      (hreads : Reads p σ t data rest tag (.run h msg)) :
      ReaderMove p σ t rd (.read t) (.handling tag none h msg)
  | give {tag : Tag} {reqID : Option Nat} {h : H} {msg m : Message} (hrd : rd = .handling tag reqID h msg)
      (hmay : p.may h msg (.reply m)) (hanswers : reqID.isSome ∨ (p.mode t).answers) :
      ReaderMove p σ t rd (.give t (.reply m)) (.replying tag reqID m)
  | idle {tag : Tag} {reqID : Option Nat} {h : H} {msg : Message} {r : Result}
      (hrd : rd = .handling tag reqID h msg) (hmay : p.may h msg r)
      (hnone : ∀ m, r = .reply m → reqID = none ∧ (p.mode t).answers = false) :
      ReaderMove p σ t rd (.give t r) .idle
  | reply {tag : Tag} {reqID : Option Nat} {msg : Message} (hrd : rd = .replying tag reqID msg) :
      ReaderMove p σ t rd (.reply t) .idle
  | replyFail {tag : Tag} {reqID : Option Nat} {msg : Message} (hrd : rd = .replying tag reqID msg) :
      ReaderMove p σ t rd (.replyFail t) .stopped
  | stop (hrd : rd = .idle) : ReaderMove p σ t rd (.stop t) .stopped
  | oversize (hrd : rd = .idle) (hread : readMessageRaw (σ.stream t) = .error .tooLarge) :
      ReaderMove p σ t rd (.read t) .stopped

def Label.side : Label → Side
  | .number s _ | .register s _ | .write s _ | .writeFail s _ | .receive s _ | .cancel s _ | .finish s _
  | .send s _ | .read s | .give s _ | .reply s | .replyFail s | .stop s | .close s => s

section Moves

variable {p : Setup H} {σ σ' : Link H} {l : Label}

theorem ends_other (h : Step p σ l σ') (ht : l.side ≠ t) : σ'.ends t = σ.ends t := by
  rcases Side.eq_or_peer l.side t with rfl | rfl
  · exact absurd rfl ht
  · cases h <;> simp [Label.side]

/-- What a step does to the end `t`: one of its calls moves, or its loop does, or one of its logs grows. -/
inductive EndMove (p : Setup H) (σ : Link H) (t : Side) : Label → End H → Prop
  | same {l : Label} : EndMove p σ t l (σ.ends t)
  | number {msg : Message} : EndMove p σ t (.number t msg) ((σ.ends t).number msg)
  | register {c : Nat} {k : CallState} (hk : (σ.ends t).calls[c]? = some k) (h : k.phase = .numbered) :
      EndMove p σ t (.register t c) ((σ.ends t).register c k)
  | finish {c : Nat} {k : CallState} {r : CallResult} (hk : (σ.ends t).calls[c]? = some k)
      (h : k.phase = .leaving r) : EndMove p σ t (.finish t c) ((σ.ends t).finish c k r)
  | call {l : Label} {c : Nat} {k k' : CallState} (hk : (σ.ends t).calls[c]? = some k)
      (h : CallMove p σ t c k l k') : EndMove p σ t l ((σ.ends t).setCall c k')
  | send {msg : Message} : EndMove p σ t (.send t msg) { σ.ends t with sent := (σ.ends t).sent ++ [msg] }
  | serve {data rest : List UInt8} {tag : Tag} {h : H} {reqID : Nat} {msg : Message}
      (hreads : Reads p σ t data rest tag (.serve h reqID msg)) :
      EndMove p σ t (.read t) ((σ.ends t).invoke tag (some reqID) h msg)
  | run {data rest : List UInt8} {tag : Tag} {h : H} {msg : Message}
      (hreads : Reads p σ t data rest tag (.run h msg)) :
      EndMove p σ t (.read t) ((σ.ends t).invoke tag none h msg)
  | give {tag : Tag} {reqID : Option Nat} {h : H} {msg : Message} {r : Result}
      (hreader : (σ.ends t).reader = .handling tag reqID h msg) (hmay : p.may h msg r) :
      EndMove p σ t (.give t r) ((σ.ends t).give (p.mode t).answers tag reqID msg r)
  | loop {l : Label} {rd : Reader H} (h : ReaderMove p σ t (σ.ends t).reader l rd) :
      EndMove p σ t l { σ.ends t with reader := rd }
  | close : EndMove p σ t (.close t) { σ.ends t with closed := true }

theorem end_move (h : Step p σ l σ') (t : Side) : EndMove p σ t l (σ'.ends t) := by
  by_cases ht : l.side = t
  swap
  · rw [ends_other h ht]
    exact .same
  cases h <;> simp only [Label.side] at ht <;> subst ht <;>
    simp only [Link.push_ends, Link.setEnd_self, Link.take_self]
  case number => exact .number
  case register hk h => exact .register hk h
  case write hk h hconn => exact .call hk (.write h)
  case writeFail hk h => exact .call hk (.writeFail h)
  case receive hk h hinbox => exact .call hk (.receive h hinbox)
  case cancel hk h => exact .call hk (.cancel h)
  case finish hk h => exact .finish hk h
  case send => exact .send
  case read s data rest hidle hconn hread =>
    rcases act_cases (σ.ends s) (Stream.take writeMessage .torn (σ.wire s.peer) data rest).1
      ((p.mode s).body (p.handlers s) data) with heq | ⟨reqID, msg, c, k, ha, hp, hk, hin, heq⟩ |
        ⟨h, reqID, msg, ha, heq⟩ | ⟨h, msg, ha, heq⟩ <;> rw [heq]
    · exact .same
    · exact .call hk (.deliver ⟨hidle, hread, rfl, ha⟩ hp hin)
    · exact .serve ⟨hidle, hread, rfl, ha⟩
    · exact .run ⟨hidle, hread, rfl, ha⟩
  case oversize hidle hconn hread => exact .loop (.oversize hidle hread)
  case give hreader hmay => exact .give hreader hmay
  case reply hreader hconn => exact .loop (.reply hreader)
  case replyFail hreader => exact .loop (.replyFail hreader)
  case stop hidle => exact .loop (.stop hidle)
  case close => exact .close

theorem call_move (h : Step p σ l σ') (hk : (σ.ends t).calls[c]? = some k) :
    ∃ k', (σ'.ends t).calls[c]? = some k' ∧ CallMove p σ t c k l k' := by
  have hmove := end_move h t
  generalize σ'.ends t = e at hmove
  cases hmove with
  | number =>
    refine ⟨k, ?_, .same⟩
    rw [End.number, List.getElem?_append_left (List.getElem?_eq_some_iff.mp hk).1, hk]
  | register hk0 hphase => exact setCall_move hk0 (.register hphase) hk
  | finish hk0 hphase => exact setCall_move hk0 (.finish hphase) hk
  | call hk0 hcall => exact setCall_move hk0 hcall hk
  | _ => exact ⟨k, hk, .same⟩

theorem number_move (h : Step p σ l σ') (t : Side) :
    ((σ'.ends t).reqID = (σ.ends t).reqID ∧ (σ'.ends t).calls.length = (σ.ends t).calls.length) ∨
    (∃ msg, l = .number t msg ∧ σ'.ends t = (σ.ends t).number msg) := by
  have hmove := end_move h t
  generalize σ'.ends t = e at hmove
  cases hmove with
  | number => exact .inr ⟨_, rfl, rfl⟩
  | register => exact .inl ⟨rfl, List.length_set ..⟩
  | finish => exact .inl ⟨rfl, List.length_set ..⟩
  | call => exact .inl ⟨rfl, List.length_set ..⟩
  | _ => exact .inl ⟨rfl, rfl⟩

theorem call_new (h : Step p σ l σ') (hk' : (σ'.ends t).calls[c]? = some k') :
    (∃ k, (σ.ends t).calls[c]? = some k ∧ CallMove p σ t c k l k') ∨
    (l = .number t k'.request ∧ c = (σ.ends t).calls.length ∧
      k' = { request := k'.request, reqID := ((σ.ends t).reqID + 1) % 2 ^ 32 }) := by
  cases hk : (σ.ends t).calls[c]? with
  | some k =>
    obtain ⟨k'', hk'', hmove⟩ := call_move h hk
    rw [hk'] at hk''
    cases hk''
    exact .inl ⟨k, rfl, hmove⟩
  | none =>
    right
    have hlt := (List.getElem?_eq_some_iff.mp hk').1
    rw [List.getElem?_eq_none_iff] at hk
    rcases number_move h t with ⟨-, hlen⟩ | ⟨msg, rfl, heq⟩
    · omega
    rw [heq, End.number, List.length_append, List.length_singleton] at hlt
    obtain rfl : c = (σ.ends t).calls.length := by omega
    rw [heq, End.number, List.getElem?_concat_length] at hk'
    cases hk'
    exact ⟨rfl, rfl, rfl⟩

theorem reader_move (h : Step p σ l σ') (t : Side) :
    ReaderMove p σ t (σ.ends t).reader l (σ'.ends t).reader := by
  have hmove := end_move h t
  generalize σ'.ends t = e at hmove
  cases hmove with
  | serve hreads => exact .serve hreads
  | run hreads => exact .run hreads
  | @give _ reqID _ _ r hreader hmay =>
    cases r with
    | failed | nothing => exact .idle hreader hmay (by intro m hm; cases hm)
    | reply m =>
      simp only [End.give]
      split_ifs with hans
      · exact .give hreader hmay (by simpa using hans)
      · refine .idle hreader hmay fun _ _ => ?_
        cases reqID <;> simp_all
  | loop hloop => exact hloop
  | _ => exact .same

/-- What a step of the end `t` puts on its stream. -/
inductive Written (σ : Link H) (t : Side) : Label → Chunk → Prop
  | request {c : Nat} {k : CallState} (hk : (σ.ends t).calls[c]? = some k) (hphase : k.phase = .registered) :
      Written σ t (.write t c) ⟨⟨.request, .call t c⟩, writeCorrelated k.reqID reqFlagReq k.request.data⟩
  | send {msg : Message} :
      Written σ t (.send t msg) ⟨⟨.plain, .send t (σ.ends t).sent.length⟩, writeMessage msg.data⟩
  | answer {tag : Tag} {reqID : Option Nat} {msg : Message}
      (hreader : (σ.ends t).reader = .replying tag reqID msg) :
      Written σ t (.reply t) (answer tag reqID msg)

inductive WireMove (p : Setup H) (σ : Link H) (t : Side) : Label → List Chunk → Prop
  | same {l : Label} : WireMove p σ t l (σ.wire t)
  | wrote {l : Label} {ch : Chunk} (hch : Written σ t l ch) : WireMove p σ t l (σ.wire t ++ [ch])
  | taken {data rest : List UInt8} {tag : Tag} {a : Action H} (hreads : Reads p σ t.peer data rest tag a) :
      WireMove p σ t (.read t.peer) (Stream.take writeMessage .torn (σ.wire t) data rest).2

theorem wire_wrote {s : Side} {ch : Chunk} (hch : Written σ s l ch) (t : Side) :
    WireMove p σ t l (((σ.setEnd s e).push s ch).wire t) := by
  rcases Side.eq_or_peer s t with rfl | rfl
  · rw [Link.push_self]
    exact .wrote hch
  · rw [Link.push_peer]
    exact .same

theorem wire_move (h : Step p σ l σ') (t : Side) : WireMove p σ t l (σ'.wire t) := by
  cases h
  case write s c k hk hphase hconn => exact wire_wrote (.request hk hphase) t
  case send s msg hconn => exact wire_wrote .send t
  case reply s tag reqID msg hreader hconn => exact wire_wrote (.answer hreader) t
  case read s data rest hidle hconn hread =>
    rcases Side.eq_or_peer s t with rfl | rfl
    · rw [Link.take_wire_self]
      exact .same
    rw [Link.take_wire_peer]
    have hmove : WireMove p σ s.peer (.read s.peer.peer)
        (Stream.take writeMessage .torn (σ.wire s.peer) data rest).2 :=
      .taken (by rw [Side.peer_peer]; exact ⟨hidle, hread, rfl, rfl⟩)
    rwa [Side.peer_peer] at hmove
  all_goals exact .same

theorem produced_move (h : Step p σ l σ') (t : Side) :
    (σ'.ends t).produced = (σ.ends t).produced ∨
    ∃ tag reqID h msg r, (σ.ends t).reader = .handling tag reqID h msg ∧ l = .give t r ∧ p.may h msg r ∧
      (σ'.ends t).produced = (σ.ends t).produced ++ [(tag, msg, r)] := by
  have hmove := end_move h t
  generalize σ'.ends t = e at hmove
  cases hmove with
  | give hreader hmay => exact .inr ⟨_, _, _, _, _, hreader, rfl, hmay, rfl⟩
  | _ => exact .inl rfl

theorem produced_give {tag : Tag} {q : Option Nat} {hd : H} {msg : Message} {r : Result} (h : Step p σ (.give t r) σ')
    (hreader : (σ.ends t).reader = .handling tag q hd msg) :
    (σ'.ends t).produced = (σ.ends t).produced ++ [(tag, msg, r)] := by
  cases h with
  | give hreader' hmay =>
    rw [hreader] at hreader'
    cases hreader'
    rw [Link.setEnd_self]
    rfl

def Label.sends (t : Side) : Label → List Message
  | .send s msg => if s = t then [msg] else []
  | _ => []

theorem sent_move (h : Step p σ l σ') (t : Side) : (σ'.ends t).sent = (σ.ends t).sent ++ l.sends t := by
  cases l with
  | send s msg =>
    cases h
    rcases Side.eq_or_peer s t with rfl | rfl <;> simp [Label.sends, Side.ne_peer]
  | _ =>
    have hmove := end_move h t
    generalize σ'.ends t = e at hmove
    cases hmove <;> exact (List.append_nil _).symm

theorem invoked_move (h : Step p σ l σ') (t : Side) :
    (σ'.ends t).invoked = (σ.ends t).invoked ∨
    ∃ data rest tag a, l = .read t ∧ Reads p σ t data rest tag a ∧
      ((∃ h m, a = .run h m) ∨ ∃ h reqID m, a = .serve h reqID m) ∧
      (σ'.ends t).invoked = (σ.ends t).invoked ++ [tag] := by
  have hmove := end_move h t
  generalize σ'.ends t = e at hmove
  cases hmove with
  | serve hreads => exact .inr ⟨_, _, _, _, rfl, hreads, .inr ⟨_, _, _, rfl⟩, rfl⟩
  | run hreads => exact .inr ⟨_, _, _, _, rfl, hreads, .inl ⟨_, _, rfl⟩, rfl⟩
  | _ => exact .inl rfl

theorem pending_move (h : Step p σ l σ') (t : Side) :
    (σ'.ends t).pending = (σ.ends t).pending ∨
    ∃ c k, (σ.ends t).calls[c]? = some k ∧
      (l = .register t c ∧ k.phase = .numbered ∧
        (σ'.ends t).pending = Function.update (σ.ends t).pending k.reqID (some c) ∨
      (∃ r, l = .finish t c ∧ k.phase = .leaving r) ∧
        (σ'.ends t).pending = Function.update (σ.ends t).pending k.reqID none) := by
  have hmove := end_move h t
  generalize σ'.ends t = e at hmove
  cases hmove with
  | register hk hphase => exact .inr ⟨_, _, hk, .inl ⟨rfl, hphase, rfl⟩⟩
  | finish hk hphase => exact .inr ⟨_, _, hk, .inr ⟨⟨_, rfl, hphase⟩, rfl⟩⟩
  | _ => exact .inl rfl

end Moves

end Zap.Node
