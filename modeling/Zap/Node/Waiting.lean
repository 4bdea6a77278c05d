/-
# Zap.Node.Waiting — calls whose answer cannot come any more.

`Call` waits on its channel and on its context, and on nothing else. Whatever keeps the answer from being
written or delivered leaves it waiting: a handler that fails or has nothing to say, a type without a
handler, a frame that does not parse, and a read loop that returns, on either end, since nothing wakes the
calls that are still registered.
-/
import Zap.Node.Ledger

namespace Zap.Node

open Zap.Lib Zap.Wire

variable {H : Type}

/-! ## Answers that can come -/

/-- The call `c` of the end `s` has sent its request, is at its `select`, and its channel is empty. -/
def Waits (σ : Link H) (s : Side) (c : Nat) : Prop :=
  ∃ k : CallState, (σ.ends s).calls[c]? = some k ∧ k.phase = .waiting ∧ k.inbox = none

def InFlight (tag : Tag) (q : List Chunk) : Prop := ∃ ch ∈ q, ch.tag = tag

/-- The answer to that call can come: the call's own loop runs, and its request is under way to a loop that
runs, or the other end has it in its hands, or the response is under way. -/
def Coming (σ : Link H) (s : Side) (c : Nat) : Prop :=
  (σ.ends s).reader ≠ .stopped ∧
  (InFlight (reqTag s c) (σ.wire s) ∧ (σ.ends s.peer).reader ≠ .stopped ∨
    (σ.ends s.peer).reader.serves (reqTag s c) = true ∨ InFlight (respTag s c) (σ.wire s.peer))

/-- No call waits for an answer that cannot come. -/
def Answerable (σ : Link H) : Prop := ∀ s c, Waits σ s c → Coming σ s c

/-! ## The steps that leave a call waiting -/

/-- Nobody waits for anything the loop of the end `s` is still to do. -/
def Unneeded (σ : Link H) (s : Side) : Prop :=
  (∀ c, ¬Waits σ s c) ∧
  ∀ c, Waits σ s.peer c →
    ¬InFlight (reqTag s.peer c) (σ.wire s.peer) ∧ (σ.ends s).reader.serves (reqTag s.peer c) = false

/-- A frame as its writer wrote it. -/
def Whole (σ : Link H) (s : Side) (data : List UInt8) (tag : Tag) : Prop :=
  ∃ ch q, σ.wire s.peer = ch :: q ∧ ch.bytes = writeMessage data ∧ ch.tag = tag

/-- Reading the frame `data` costs no waiting call its answer: the frame is whole, a request that somebody
waits for is served, and a response that somebody waits for reaches its channel. -/
def ReadClean (p : Setup H) (σ : Link H) (s : Side) (data : List UInt8) : Prop :=
  (∀ c, Waits σ s.peer c → InFlight (reqTag s.peer c) (σ.wire s.peer) →
    ∃ tag, Whole σ s data tag ∧
      (tag = reqTag s.peer c → ∃ h q m, (p.mode s).body (p.handlers s) data = .serve h q m)) ∧
  ∀ c, Waits σ s c → InFlight (respTag s c) (σ.wire s.peer) →
    (∃ tag, Whole σ s data tag ∧ tag ≠ respTag s c) ∨
    ∃ q m, (p.mode s).body (p.handlers s) data = .deliver q m ∧ (σ.ends s).pending q = some c

def Clean (p : Setup H) (σ : Link H) : Label → Prop
  -- a request goes out while both loops run
  | .write s c => ∀ k : CallState, (σ.ends s).calls[c]? = some k → k.inbox = none →
      (σ.ends s).reader ≠ .stopped ∧ (σ.ends s.peer).reader ≠ .stopped
  | .read s =>
    (∀ data rest, readMessageRaw (σ.stream s) = .ok (data, rest) → ReadClean p σ s data) ∧
    (readMessageRaw (σ.stream s) = .error .tooLarge → Unneeded σ s)
  -- the handler of a request that somebody waits for comes back with a message
  | .give s r => ∀ c, (σ.ends s).reader.serves (reqTag s.peer c) = true → Waits σ s.peer c → ∃ m, r = .reply m
  | .replyFail s => Unneeded σ s
  | .stop s => Unneeded σ s
  | _ => True

/-! ## One step -/

section Step

variable {p : Setup H} {σ σ' : Link H} {l : Label} {tag : Tag} {q : List Chunk} {data rest : List UInt8}

theorem inFlight_iff : InFlight tag q ↔ 0 < Stream.count tag q := Stream.count_pos_iff.symm

variable {s : Side} {c : Nat}

/-- Of the request under way, the request being served and the response under way there is one at most. -/
theorem Once.exclusive (h : Once σ s c) :
    (InFlight (reqTag s c) (σ.wire s) → (σ.ends s.peer).reader.serves (reqTag s c) = false ∧
      ¬InFlight (respTag s c) (σ.wire s.peer)) ∧
    ((σ.ends s.peer).reader.serves (reqTag s c) = true → ¬InFlight (respTag s c) (σ.wire s.peer)) := by
  have hasked := h.asked
  have hserved := h.served
  simp only [inFlight_iff]
  cases hv : (σ.ends s.peer).reader.serves (reqTag s c) with
  | false =>
    simp only [hv, Bool.toNat_false] at hserved
    exact ⟨fun hr => ⟨rfl, by omega⟩, fun hs => by cases hs⟩
  | true =>
    simp only [hv, Bool.toNat_true] at hserved
    refine ⟨fun hr => ?_, fun _ => by omega⟩
    omega

theorem waits_back (hstep : Step p σ l σ') (hl : l ≠ .write s c) (h : Waits σ' s c) : Waits σ s c := by
  obtain ⟨k', hk', hphase, hinbox⟩ := h
  rcases call_new hstep hk' with ⟨k, hk, hmove⟩ | ⟨-, -, hnew⟩
  swap
  · rw [hnew] at hphase
    cases hphase
  cases hmove with
  | same => exact ⟨_, hk, hphase, hinbox⟩
  | register _ | writeFail _ | receive _ _ | cancel _ | finish _ => cases hphase
  | write _ => exact absurd rfl hl
  | deliver _ _ _ => cases hinbox

/-- A call stops waiting by taking its message, by giving up, or when a message is put on its channel. -/
theorem waits_forth (hstep : Step p σ l σ') (h : Waits σ s c) :
    Waits σ' s c ∨ l = .cancel s c ∨
    ∃ data rest tag q m, l = .read s ∧ Reads p σ s data rest tag (.deliver q m) ∧ (σ.ends s).pending q = some c := by
  obtain ⟨k, hk, hphase, hinbox⟩ := h
  obtain ⟨k', hk', hmove⟩ := call_move hstep hk
  cases hmove with
  | same => exact .inl ⟨_, hk', hphase, hinbox⟩
  | register h | write h | writeFail h | finish h => rw [hphase] at h; cases h
  | receive _ h => rw [hinbox] at h; cases h
  | cancel _ => exact .inr (.inl rfl)
  | deliver hreads hpending _ => exact .inr (.inr ⟨_, _, _, _, _, rfl, hreads, hpending⟩)

theorem Coming.mono (h : Coming σ s c)
    (hwire : ∀ t tag, InFlight tag (σ.wire t) → InFlight tag (σ'.wire t))
    (hreader : ∀ t, (σ'.ends t).reader = (σ.ends t).reader) : Coming σ' s c := by
  obtain ⟨hown, hcase⟩ := h
  rw [Coming, hreader, hreader]
  refine ⟨hown, ?_⟩
  rcases hcase with ⟨hreq, hpeer⟩ | hserves | hresp
  · exact .inl ⟨hwire _ _ hreq, hpeer⟩
  · exact .inr (.inl hserves)
  · exact .inr (.inr (hwire _ _ hresp))

theorem InFlight.concat (h : InFlight tag q) (ch : Chunk) : InFlight tag (q ++ [ch]) := by
  obtain ⟨ch', hmem, htag⟩ := h
  exact ⟨ch', List.mem_append_left _ hmem, htag⟩

theorem InFlight.push {t : Side} (h : InFlight tag (σ.wire t)) (s : Side) (ch : Chunk) :
    InFlight tag ((σ.push s ch).wire t) := by
  rcases Side.eq_or_peer s t with rfl | rfl
  · rw [Link.push_self]
    exact h.concat ch
  · rw [Link.push_peer]
    exact h

theorem setEnd_reader {e : End H} (h : e.reader = (σ.ends s).reader) (t : Side) :
    ((σ.setEnd s e).ends t).reader = (σ.ends t).reader := by
  rcases Side.eq_or_peer s t with rfl | rfl
  · rw [Link.setEnd_self, h]
  · rw [Link.setEnd_peer]

theorem act_running (e : End H) (tag : Tag) (a : Action H) (h : e.reader = .idle) :
    (e.act tag a).reader ≠ .stopped := by
  rcases act_cases e tag a with heq | ⟨reqID, msg, c, k, -, -, -, -, heq⟩ | ⟨hd, reqID, msg, -, heq⟩ |
    ⟨hd, msg, -, heq⟩ <;> rw [heq]
  · simp [h]
  · simp [End.setCall, h]
  all_goals simp [End.invoke]

theorem act_serves (e : End H) (tag t : Tag) (a : Action H) (h : e.reader = .idle) :
    (e.act tag a).reader.serves t = true ↔ tag = t ∧ ∃ hd q m, a = .serve hd q m := by
  rcases act_cases e tag a with heq | ⟨reqID, msg, c, k, ha, -, -, -, heq⟩ | ⟨hd, reqID, msg, ha, heq⟩ |
    ⟨hd, msg, ha, heq⟩
  · rw [heq, h]
    constructor
    · intro hs
      cases hs
    · rintro ⟨-, hd, q, m, rfl⟩
      have hreader := congrArg End.reader heq
      rw [h] at hreader
      cases hreader
  · rw [heq, End.setCall, h, ha]
    simp [Reader.serves]
  · rw [heq, ha]
    simp [End.invoke, Reader.serves]
  · rw [heq, ha]
    simp [End.invoke, Reader.serves]

theorem taken_tag (hne : tag ≠ .torn) :
    (Stream.take writeMessage .torn (σ.wire s.peer) data rest).1 = tag ↔ Whole σ s data tag := by
  constructor
  · intro h
    rcases Stream.take_cases writeMessage .torn (σ.wire s.peer) data rest with ⟨ch, q, hq, hbytes, htake⟩ | htake
    · exact ⟨ch, q, hq, hbytes, by rw [htake] at h; exact h⟩
    · rw [htake] at h
      exact absurd h.symm hne
  · rintro ⟨ch, q, hq, hbytes, rfl⟩
    rw [hq, Stream.take, if_pos hbytes]

theorem inFlight_taken (hne : tag ≠ .torn) (hone : Stream.count tag (σ.wire s.peer) ≤ 1) :
    InFlight tag (Stream.take writeMessage .torn (σ.wire s.peer) data rest).2 ↔
      InFlight tag (σ.wire s.peer) ∧ ∃ x, Whole σ s data x ∧ x ≠ tag := by
  simp only [inFlight_iff]
  constructor
  · intro hin
    rcases Stream.take_cases writeMessage .torn (σ.wire s.peer) data rest with ⟨ch, q, hq, hbytes, htake⟩ | htake
    · rw [htake] at hin
      dsimp only at hin
      rw [hq, Stream.count_cons] at hone ⊢
      refine ⟨by omega, ch.tag, ⟨ch, q, hq, hbytes, rfl⟩, fun htag => ?_⟩
      rw [if_pos htag] at hone
      omega
    · rw [htake] at hin
      simp [hne.symm, Stream.count] at hin
  · rintro ⟨hin, x, ⟨ch, q, hq, hbytes, rfl⟩, hx⟩
    rw [hq, Stream.count_cons, if_neg hx] at hin
    rw [hq, Stream.take, if_pos hbytes]
    exact hin

variable (h : Answerable σ) (honce : ∀ s c, Once σ s c)

include h honce

theorem answerable_stop (s : Side) :
    Answerable (σ.setEnd s { σ.ends s with reader := .stopped }) ↔ Unneeded σ s := by
  have hwaits : ∀ t c, Waits (σ.setEnd s { σ.ends s with reader := .stopped }) t c ↔ Waits σ t c := by
    intro t c
    rcases Side.eq_or_peer s t with rfl | rfl
    · rw [Waits, Link.setEnd_self]
      rfl
    · rw [Waits, Link.setEnd_peer]
      rfl
  constructor
  · intro h'
    refine ⟨fun c hw => ?_, fun c hw => ?_⟩
    · have hown := (h' s c ((hwaits s c).mpr hw)).1
      rw [Link.setEnd_self] at hown
      exact hown rfl
    obtain ⟨-, hcase⟩ := h' s.peer c ((hwaits _ c).mpr hw)
    rw [Side.peer_peer, Link.setEnd_self, Link.setEnd_wire] at hcase
    have hex := (honce s.peer c).exclusive
    rw [Side.peer_peer] at hex
    rcases hcase with ⟨-, hpeer⟩ | hserves | hresp
    · exact absurd rfl hpeer
    · cases hserves
    · refine ⟨fun hreq => (hex.1 hreq).2 hresp, ?_⟩
      cases hv : (σ.ends s).reader.serves (reqTag s.peer c) with
      | false => rfl
      | true => exact absurd hresp (hex.2 hv)
  · rintro ⟨hnone, hpeer⟩ t c hw
    rw [hwaits] at hw
    rcases Side.eq_or_peer s t with rfl | rfl
    · exact absurd hw (hnone c)
    obtain ⟨hown, hcase⟩ := h s.peer c hw
    obtain ⟨hreq, hserves⟩ := hpeer c hw
    refine ⟨by rw [Link.setEnd_peer]; exact hown, .inr (.inr ?_)⟩
    rw [Link.setEnd_wire]
    rcases hcase with ⟨hreq', -⟩ | hserves' | hresp
    · exact absurd hreq' hreq
    · rw [Side.peer_peer, hserves] at hserves'
      cases hserves'
    · exact hresp

theorem answerable_write (hstep : Step p σ (.write s c) σ') : Answerable σ' ↔ Clean p σ (.write s c) := by
  obtain ⟨k, hk, hk', hreq, hwire, hreader⟩ : ∃ k, (σ.ends s).calls[c]? = some k ∧
      (σ'.ends s).calls[c]? = some { k with phase := .waiting } ∧ InFlight (reqTag s c) (σ'.wire s) ∧
      (∀ t tag, InFlight tag (σ.wire t) → InFlight tag (σ'.wire t)) ∧
      ∀ t, (σ'.ends t).reader = (σ.ends t).reader := by
    cases hstep with
    | write hk _ _ =>
      refine ⟨_, hk, ?_, ?_, fun t tag hin => InFlight.push hin s _, setEnd_reader rfl⟩
      · simp [End.setCall, (List.getElem?_eq_some_iff.mp hk).1]
      · rw [Link.push_self]
        exact ⟨_, List.mem_append_right _ List.mem_cons_self, rfl⟩
  constructor
  · intro h' k0 hk0 hinbox
    cases hk.symm.trans hk0
    obtain ⟨hown, hcase⟩ := h' s c ⟨_, hk', rfl, hinbox⟩
    have hex := ((honce s c).step hstep).exclusive.1 hreq
    rw [hreader] at hown
    rcases hcase with ⟨-, hpeer⟩ | hserves | hresp
    · rw [hreader] at hpeer
      exact ⟨hown, hpeer⟩
    · rw [hex.1] at hserves
      cases hserves
    · exact absurd hresp hex.2
  · intro hrun t c' hw
    by_cases hc : Label.write s c = .write t c'
    · cases hc
      obtain ⟨k', hk'', -, hinbox⟩ := hw
      rw [hk'] at hk''
      cases hk''
      obtain ⟨hown, hpeer⟩ := hrun k hk hinbox
      exact ⟨by rw [hreader]; exact hown, .inl ⟨hreq, by rw [hreader]; exact hpeer⟩⟩
    · exact (h t c' (waits_back hstep hc hw)).mono hwire hreader

theorem answerable_give {r : Result} (hstep : Step p σ (.give s r) σ') :
    Answerable σ' ↔ Clean p σ (.give s r) := by
  have hpeer : σ'.ends s.peer = σ.ends s.peer := ends_other hstep s.ne_peer
  obtain ⟨hwire, hrunning, hserves⟩ : σ'.wire = σ.wire ∧ (σ'.ends s).reader ≠ .stopped ∧
      ∀ t : Tag, (σ'.ends s).reader.serves t = true ↔ (σ.ends s).reader.serves t = true ∧ ∃ m, r = .reply m := by
    cases hstep with
    | @give _ _ reqID _ _ _ hreader _ =>
      rw [Link.setEnd_self, hreader]
      refine ⟨rfl, ?_⟩
      cases r with
      | failed | nothing => exact ⟨by simp [End.give], fun t => by simp [End.give, Reader.serves]⟩
      | reply m =>
        simp only [End.give]
        cases reqID <;> split_ifs <;> exact ⟨by simp, fun t => by simp_all [Reader.serves]⟩
  constructor
  · intro h' c hs hw
    obtain ⟨-, hcase⟩ := h' s.peer c (by rw [Waits, hpeer]; exact hw)
    have hex := (honce s.peer c).exclusive
    rw [Side.peer_peer] at hcase hex
    rw [hwire] at hcase
    rcases hcase with ⟨hreq, -⟩ | hs' | hresp
    · rw [(hex.1 hreq).1] at hs
      cases hs
    · exact ((hserves _).mp hs').2
    · exact absurd hresp (hex.2 hs)
  · intro hclean t c hw
    have hw0 := waits_back hstep (by simp) hw
    obtain ⟨hown, hcase⟩ := h t c hw0
    rw [Coming, hwire]
    rcases Side.eq_or_peer s t with rfl | rfl
    · rw [hpeer]
      exact ⟨hrunning, hcase⟩
    rw [Side.peer_peer] at hcase ⊢
    rw [hpeer]
    refine ⟨hown, ?_⟩
    rcases hcase with ⟨hreq, -⟩ | hs | hresp
    · exact .inl ⟨hreq, hrunning⟩
    · exact .inr (.inl ((hserves _).mpr ⟨hs, hclean c hs hw0⟩))
    · exact .inr (.inr hresp)

omit honce in
theorem answerable_reply (hstep : Step p σ (.reply s) σ') : Answerable σ' := by
  have hpeer : σ'.ends s.peer = σ.ends s.peer := ends_other hstep s.ne_peer
  obtain ⟨hwire, hself, hserves⟩ : (∀ t tag, InFlight tag (σ.wire t) → InFlight tag (σ'.wire t)) ∧
      (σ'.ends s).reader = .idle ∧ ∀ c, (σ.ends s).reader.serves (reqTag s.peer c) = true →
        InFlight (respTag s.peer c) (σ'.wire s) := by
    cases hstep with
    | @reply _ tag reqID msg hreader _ =>
      refine ⟨fun t tag hin => InFlight.push hin s _, by rw [Link.push_ends, Link.setEnd_self], fun c hs => ?_⟩
      rw [hreader] at hs
      cases reqID with
      | none => cases hs
      | some q =>
        obtain rfl : tag = reqTag s.peer c := by simpa [Reader.serves] using hs
        rw [Link.push_self]
        exact ⟨_, List.mem_append_right _ List.mem_cons_self, rfl⟩
  have hrunning : (σ'.ends s).reader ≠ .stopped := by
    simp [hself]
  intro t c hw
  obtain ⟨hown, hcase⟩ := h t c (waits_back hstep (by simp) hw)
  rcases Side.eq_or_peer s t with rfl | rfl
  · rw [Coming, hpeer]
    exact ⟨hrunning, hcase.imp (And.imp_left (hwire _ _)) (Or.imp_right (hwire _ _))⟩
  rw [Coming, hpeer]
  refine ⟨hown, ?_⟩
  rw [Side.peer_peer] at hcase ⊢
  rcases hcase with ⟨hreq, -⟩ | hs | hresp
  · exact .inl ⟨hwire _ _ hreq, hrunning⟩
  · exact .inr (.inr (hserves c hs))
  · exact .inr (.inr (hwire _ _ hresp))

theorem answerable_read (hidle : (σ.ends s).reader = .idle) (hconn : (σ.ends s).closed = false)
    (hread : readMessageRaw (σ.stream s) = .ok (data, rest)) :
    Answerable (σ.take p s data rest) ↔ ReadClean p σ s data := by
  set σ' := σ.take p s data rest with hσ'
  have hstep : Step p σ (.read s) σ' := .read hidle hconn hread
  have hpeer : σ'.ends s.peer = σ.ends s.peer := Link.take_peer
  have hself : σ'.ends s = (σ.ends s).act (Stream.take writeMessage .torn (σ.wire s.peer) data rest).1
      ((p.mode s).body (p.handlers s) data) := Link.take_self
  have hrunning : (σ'.ends s).reader ≠ .stopped := by
    rw [hself]
    exact act_running _ _ _ hidle
  have hresp : ∀ c, InFlight (respTag s c) (σ'.wire s.peer) ↔
      InFlight (respTag s c) (σ.wire s.peer) ∧ ∃ x, Whole σ s data x ∧ x ≠ respTag s c := by
    intro c
    have hasked := (honce s c).asked
    have hserved := (honce s c).served
    rw [hσ', Link.take_wire_peer]
    exact inFlight_taken (by intro h; cases h) (by omega)
  have hreq : ∀ c, InFlight (reqTag s.peer c) (σ'.wire s.peer) ↔
      InFlight (reqTag s.peer c) (σ.wire s.peer) ∧ ∃ x, Whole σ s data x ∧ x ≠ reqTag s.peer c := by
    intro c
    have hasked := (honce s.peer c).asked
    rw [hσ', Link.take_wire_peer]
    exact inFlight_taken (by intro h; cases h) (by omega)
  have hserves : ∀ c, (σ'.ends s).reader.serves (reqTag s.peer c) = true ↔
      Whole σ s data (reqTag s.peer c) ∧ ∃ h q m, (p.mode s).body (p.handlers s) data = .serve h q m := by
    intro c
    rw [hself, act_serves _ _ _ _ hidle, taken_tag (by intro h; cases h)]
  constructor
  · intro h'
    refine ⟨fun c hw hin => ?_, fun c hw hin => ?_⟩
    · obtain ⟨-, hcase⟩ := h' s.peer c (by rw [Waits, hpeer]; exact hw)
      have hex := (honce s.peer c).exclusive
      rw [Side.peer_peer] at hcase hex
      rw [hreq, hserves, hσ', Link.take_wire_self] at hcase
      rcases hcase with ⟨⟨-, x, hwhole, hx⟩, -⟩ | ⟨hwhole, hserve⟩ | hin'
      · exact ⟨x, hwhole, fun htag => absurd htag hx⟩
      · exact ⟨_, hwhole, fun _ => hserve⟩
      · exact absurd hin' (hex.1 hin).2
    · rcases waits_forth hstep hw with hw' | hcancel | ⟨data', rest', tag, q, m, -, hreads, hpending⟩
      · obtain ⟨-, hcase⟩ := h' s c hw'
        have hex := (honce s c).exclusive
        rw [hpeer, hresp, hσ', Link.take_wire_self] at hcase
        rcases hcase with ⟨hin', -⟩ | hs | ⟨-, hwhole⟩
        · exact absurd hin (hex.1 hin').2
        · exact absurd hin (hex.2 hs)
        · exact .inl hwhole
      · cases hcancel
      · have hdata := hreads.read
        rw [hread] at hdata
        cases hdata
        exact .inr ⟨q, m, hreads.action, hpending⟩
  · rintro ⟨hrequests, hresponses⟩ t c hw
    have hw0 := waits_back hstep nofun hw
    obtain ⟨hown, hcase⟩ := h t c hw0
    rcases Side.eq_or_peer s t with rfl | rfl
    · refine ⟨hrunning, ?_⟩
      rw [hpeer, hresp, hσ', Link.take_wire_self]
      refine hcase.imp_right (Or.imp_right fun hin => ⟨hin, ?_⟩)
      rcases hresponses c hw0 hin with hwhole | ⟨q, m, hdeliver, hpending⟩
      · exact hwhole
      -- the response is on the call's channel, so the call does not wait
      obtain ⟨k, hk, -, hinbox⟩ := hw0
      obtain ⟨k', hk', -, hinbox'⟩ := hw
      rw [hself, hdeliver, End.act, End.deliver, hpending] at hk'
      simp only [hk, hinbox, Option.isNone_none, if_true, End.setCall] at hk'
      rw [List.getElem?_set_self (List.getElem?_eq_some_iff.mp hk).1] at hk'
      cases hk'
      cases hinbox'
    · refine ⟨by rw [hpeer]; exact hown, ?_⟩
      rw [Side.peer_peer] at hcase ⊢
      rw [hreq, hserves, hσ', Link.take_wire_self, ← hσ']
      rcases hcase with ⟨hin, -⟩ | hs | hin
      · obtain ⟨x, hwhole, hserve⟩ := hrequests c hw0 hin
        by_cases htag : x = reqTag s.peer c
        · subst htag
          exact .inr (.inl ⟨hwhole, hserve rfl⟩)
        · exact .inl ⟨⟨hin, x, hwhole, htag⟩, hrunning⟩
      · rw [hidle] at hs
        cases hs
      · exact .inr (.inr hin)

/-- **One step**: if no call waited in vain before it, none does after it exactly if the step is clean. -/
theorem answerable_step (hstep : Step p σ l σ') : Answerable σ' ↔ Clean p σ l := by
  have hquiet : (∀ s c, l ≠ .write s c) →
      (∀ t tag, InFlight tag (σ.wire t) → InFlight tag (σ'.wire t)) →
      (∀ t, (σ'.ends t).reader = (σ.ends t).reader) → Answerable σ' :=
    fun hl hwire hreader s c hw => (h s c (waits_back hstep (hl s c) hw)).mono hwire hreader
  have hstep' := hstep
  cases hstep with
  | number | register | writeFail | receive | cancel | finish | close =>
    exact iff_of_true (hquiet (by simp) (fun _ _ h => h) (setEnd_reader rfl)) trivial
  | send hconn =>
    exact iff_of_true (hquiet (by simp) (fun _ _ hin => InFlight.push hin _ _) (setEnd_reader rfl)) trivial
  | write => exact answerable_write h honce hstep'
  | read hidle hconn hread =>
    rw [answerable_read h honce hidle hconn hread]
    constructor
    · refine fun hclean => ⟨fun data rest hread' => ?_, fun hread' => ?_⟩
      · rw [hread] at hread'
        cases hread'
        exact hclean
      · rw [hread] at hread'
        cases hread'
    · exact fun hclean => hclean.1 _ _ hread
  | oversize hidle hconn hread =>
    rw [answerable_stop h honce]
    constructor
    · refine fun hclean => ⟨fun data rest hread' => ?_, fun _ => hclean⟩
      rw [hread] at hread'
      cases hread'
    · exact fun hclean => hclean.2 hread
  | give => exact answerable_give h honce hstep'
  | reply => exact iff_of_true (answerable_reply h hstep') trivial
  | replyFail hreader | stop hidle => exact answerable_stop h honce _

end Step

/-! ## Whole runs -/

variable {σ : Link H}

theorem run_once {p : Setup H} {tr : List Label} (hrun : Run p tr σ) : ∀ s c, Once σ s c :=
  fun s c => Path.invariant (I := (Once · s c)) (fun h hstep => h.step hstep) hrun (Once.init s c)

def AlwaysAnswerable (p : Setup H) (tr : List Label) : Prop := ∀ pre σ, pre <+: tr → Run p pre σ → Answerable σ

def AlwaysClean (p : Setup H) (tr : List Label) : Prop :=
  ∀ pre l σ, Path.Occurs (Step p) Link.init tr pre l σ → Clean p σ l

/-- **When no call waits for an answer that cannot come**: exactly in the runs whose steps are all clean. -/
theorem answerable_iff {p : Setup H} {tr : List Label} {σ : Link H} (hrun : Run p tr σ) :
    AlwaysAnswerable p tr ↔ AlwaysClean p tr := by
  constructor
  · intro h pre l τ hocc
    obtain ⟨τ', hstep, hnext⟩ := hocc.next hrun Step.det
    obtain ⟨⟨post, rfl⟩, hpre⟩ := hocc
    have hbefore := h pre τ (List.prefix_append ..) hpre
    have hafter := h (pre ++ [l]) τ' ⟨post, by simp⟩ hnext
    exact (answerable_step hbefore (run_once hpre) hstep).mp hafter
  · intro h pre τ hprefix hpre
    -- from the front of the run: what is answerable stays so over a clean step
    induction hpre using Path.concat_induction with
    | init =>
      rintro s c ⟨k, hk, -⟩
      cases hk
    | @snoc pre τ l τ' hpath hstep ih =>
      obtain ⟨post, hpost⟩ := hprefix
      have hocc : Path.Occurs (Step p) Link.init tr pre l τ := ⟨⟨post, by simpa using hpost.symm⟩, hpath⟩
      exact (answerable_step (ih ⟨l :: post, by simpa using hpost⟩) (run_once hpath) hstep).mpr
        (h pre l τ hocc)

/-! ## Calls that wait in vain -/

/-- Both ends run `dispatchLoop`, and neither has a handler. -/
def noHandlers : Setup Unit := ⟨fun _ => .tcp .dispatchLoop, fun _ _ => none, fun _ _ _ => True⟩

/-- The first call of the left end, up to its `select`. -/
def ask (m : Message) : List Label := [.number .left m, .register .left 0, .write .left 0]

def zeros : Message := ⟨List.replicate 16 0, by decide⟩

def Stuck (σ : Link H) : Prop := Waits σ .left 0 ∧ ¬Coming σ .left 0

/-- Nothing is under way and the other end reads: the answer cannot come. -/
theorem not_coming_of_quiet (hleft : σ.wire .left = []) (hright : σ.wire .right = [])
    (hidle : (σ.ends .right).reader = .idle) : ¬Coming σ .left 0 := by
  rintro ⟨-, ⟨⟨ch, hch, -⟩, -⟩ | hserves | ⟨ch, hch, -⟩⟩
  · rw [hleft] at hch
    cases hch
  · have hfalse : (σ.ends .right).reader.serves (reqTag .left 0) = true := hserves
    rw [hidle] at hfalse
    cases hfalse
  · have hmem : ch ∈ σ.wire .right := hch
    rw [hright] at hmem
    cases hmem

theorem stuck_own_loop (m : Message) : ∃ σ, Run anyHandlers (ask m ++ [.stop .left]) σ ∧ Stuck σ := by
  refine ⟨_, .cons .number (.cons (.register rfl rfl) (.cons (.write rfl rfl rfl)
    (.cons (.stop rfl) (.nil _)))), ⟨_, rfl, rfl, rfl⟩, ?_⟩
  rintro ⟨hown, -⟩
  exact hown rfl

/-- That run has an unclean step. -/
theorem own_loop_unclean : ∃ m : Message, parse m.data = .ok m ∧
    ¬AlwaysClean anyHandlers (ask m ++ [.stop .left]) := by
  obtain ⟨σ, hrun, hwaits, hnot⟩ := stuck_own_loop bare
  refine ⟨bare, rfl, fun hclean => hnot ?_⟩
  exact (answerable_iff hrun).mpr hclean _ σ (List.prefix_refl _) hrun .left 0 hwaits

/-- A handler that fails, one that has nothing to say, a type without a handler, a request that does not
parse, and a loop that returns at either end: each leaves the call waiting. -/
theorem calls_wait_in_vain :
    ∃ m : Message, parse m.data = .ok m ∧
      (∃ σ, Run anyHandlers (ask m ++ [.read .right, .give .right .failed]) σ ∧ Stuck σ) ∧
      (∃ σ, Run anyHandlers (ask m ++ [.read .right, .give .right .nothing]) σ ∧ Stuck σ) ∧
      (∃ σ, Run noHandlers (ask m ++ [.read .right]) σ ∧ Stuck σ) ∧
      (∃ σ, Run anyHandlers (ask zeros ++ [.read .right]) σ ∧ Stuck σ) ∧
      (∃ σ, Run anyHandlers (ask m ++ [.stop .left]) σ ∧ Stuck σ) ∧
      ∃ σ, Run anyHandlers (ask m ++ [.stop .right]) σ ∧ Stuck σ := by
  refine ⟨bare, rfl, ?_, ?_, ?_, ?_, stuck_own_loop bare, ?_⟩
  · exact ⟨_, .cons .number (.cons (.register rfl rfl) (.cons (.write rfl rfl rfl)
      (.cons (.readFrame rfl rfl rfl (writeCorrelated_eq ..) (by decide) rfl)
      (.cons (.give rfl trivial) (.nil _))))), ⟨_, rfl, rfl, rfl⟩, not_coming_of_quiet rfl rfl rfl⟩
  · exact ⟨_, .cons .number (.cons (.register rfl rfl) (.cons (.write rfl rfl rfl)
      (.cons (.readFrame rfl rfl rfl (writeCorrelated_eq ..) (by decide) rfl)
      (.cons (.give rfl trivial) (.nil _))))), ⟨_, rfl, rfl, rfl⟩, not_coming_of_quiet rfl rfl rfl⟩
  · exact ⟨_, .cons .number (.cons (.register rfl rfl) (.cons (.write rfl rfl rfl)
      (.cons (.readFrame rfl rfl rfl (writeCorrelated_eq ..) (by decide) rfl) (.nil _)))),
      ⟨_, rfl, rfl, rfl⟩, not_coming_of_quiet rfl rfl rfl⟩
  · exact ⟨_, .cons .number (.cons (.register rfl rfl) (.cons (.write rfl rfl rfl)
      (.cons (.readFrame rfl rfl rfl (writeCorrelated_eq ..) (by decide) rfl) (.nil _)))),
      ⟨_, rfl, rfl, rfl⟩, not_coming_of_quiet rfl rfl rfl⟩
  · refine ⟨_, .cons .number (.cons (.register rfl rfl) (.cons (.write rfl rfl rfl)
      (.cons (.stop rfl) (.nil _)))), ⟨_, rfl, rfl, rfl⟩, ?_⟩
    rintro ⟨-, ⟨-, hpeer⟩ | hserves | ⟨ch, hch, -⟩⟩
    · exact hpeer rfl
    · cases hserves
    · cases hch

end Zap.Node
