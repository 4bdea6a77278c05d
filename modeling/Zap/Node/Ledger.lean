/-
# Zap.Node.Ledger — frames in step, and one answer to a request.

Two things the results about the link rest on. While no frame is longer than its 32-bit length can say,
the frames a loop reads are the frames the other end wrote (`Sized`). And the request of a call is
written once, read at most once, served at most once and answered at most once (`Once`), which needs no
hypothesis at all.
-/
import Zap.Node.Moves

namespace Zap.Node

open Zap.Lib Zap.Wire

variable {H : Type}

/-! ## Frames that can be counted

The length in front of a frame has 32 bits and no writer checks that it fits. As long as it does, the
reader's frames are the writers' chunks. -/

def Fits (msg : Message) : Prop := correlatedHeaderSize + msg.data.length < 2 ^ 32

/-- The message a step hands over: to `Call`, to `Send`, or back from a handler. -/
def Label.message : Label → Option Message
  | .number _ msg => some msg
  | .send _ msg => some msg
  | .give _ (.reply msg) => some msg
  | _ => none

/-- The message a step hands over fits the frame it will go out in. -/
def Label.Fits : Label → Prop
  | .number _ msg => Node.Fits msg
  | .send _ msg => msg.data.length < 2 ^ 32
  | .give _ (.reply msg) => Node.Fits msg
  | _ => True

/-- Every frame under way, or about to be, has a length that 32 bits can count. -/
structure Sized (σ : Link H) : Prop where
  calls : ∀ (t : Side) (c : Nat) (k : CallState), (σ.ends t).calls[c]? = some k → Fits k.request
  reader : ∀ t tag q m, (σ.ends t).reader = .replying tag q m → Fits m
  wire : ∀ t, ∀ ch ∈ σ.wire t, ∃ d, ch.bytes = writeMessage d ∧ d.length < 2 ^ 32

theorem Sized.init : Sized (Link.init : Link H) :=
  ⟨(fun _ _ _ hk => nomatch hk), (fun _ _ _ _ hr => nomatch hr), (fun _ _ hch => nomatch hch)⟩

variable {msg : Message} {tag : Tag} {c : Nat} {k k' : CallState} {data rest : List UInt8} {a : Action H}

theorem correlated_sized {q flag : Nat} (h : Fits msg) :
    ∃ d, writeCorrelated q flag msg.data = writeMessage d ∧ d.length < 2 ^ 32 :=
  ⟨_, writeCorrelated_eq .., by rw [wrapCorrelated_length]; exact h⟩

theorem plain_sized (h : Fits msg) : ∃ d, writeMessage msg.data = writeMessage d ∧ d.length < 2 ^ 32 :=
  ⟨_, rfl, Nat.lt_of_le_of_lt (Nat.le_add_left ..) h⟩

theorem answer_sized {q : Option Nat} (h : Fits msg) :
    ∃ d, (answer tag q msg).bytes = writeMessage d ∧ d.length < 2 ^ 32 := by
  cases q with
  | none => exact plain_sized h
  | some q => exact correlated_sized h

section Frames

variable {p : Setup H} {σ σ' : Link H} {l : Label} {t : Side}

theorem CallMove.request_eq (h : CallMove p σ t c k l k') : k'.request = k.request ∧ k'.reqID = k.reqID := by
  cases h <;> exact ⟨rfl, rfl⟩

theorem read_sized {d : List UInt8} (h : d.length < 2 ^ 32) (r : List UInt8) :
    readMessageRaw (writeMessage d ++ r) = .ok (d, r) ∨
    ∃ e, readMessageRaw (writeMessage d ++ r) = .error e := by
  by_cases hmax : d.length ≤ maxFrame
  · exact .inl (readMessageRaw_writeMessage hmax r)
  right
  have htake : (writeMessage d ++ r).take 4 = le 4 d.length := by
    simp [writeMessage]
  have hword : ofLE (le 4 d.length) = d.length := by
    rw [ofLE_le, Nat.mod_eq_of_lt (by simpa using h)]
  have hsize : ¬(writeMessage d ++ r).length < 4 := by
    simp [writeMessage]
  refine ⟨.tooLarge, ?_⟩
  simp only [readMessageRaw, if_neg hsize, htake, hword, if_pos (Nat.lt_of_not_le hmax)]

/-- **The reader's frame is the writer's chunk.** -/
theorem Sized.head (h : Sized σ) (hreads : Reads p σ t data rest tag a) :
    ∃ ch q, σ.wire t.peer = ch :: q ∧ ch.bytes = writeMessage data ∧ ch.tag = tag ∧
      (Stream.take writeMessage .torn (σ.wire t.peer) data rest).2 = q := by
  obtain ⟨ch, q, hq, hbytes, htake⟩ := @Stream.take_framed _ _ _ _ writeMessage .torn _ _ _ readMessageRaw
    ⟨.eof, rfl⟩ (fun ch hch => by
      obtain ⟨d, hd, hlt⟩ := h.wire t.peer ch hch
      exact ⟨d, hd, read_sized hlt⟩) hreads.read
  have htag := hreads.tag_eq
  rw [htake] at htag
  exact ⟨ch, q, hq, hbytes, htag, by rw [htake]⟩

theorem wire_forall {P : Chunk → Prop} (hsized : Sized σ) (hstep : Step p σ l σ')
    (hold : ∀ ch ∈ σ.wire t, P ch) (hnew : ∀ ch, Written σ t l ch → P ch) : ∀ ch ∈ σ'.wire t, P ch := by
  have hmove := wire_move hstep t
  generalize σ'.wire t = w at hmove ⊢
  cases hmove with
  | same => exact hold
  | wrote hch =>
    intro ch hmem
    rcases List.mem_append.mp hmem with hmem | hmem
    · exact hold ch hmem
    · rw [List.mem_singleton.mp hmem]
      exact hnew _ hch
  | taken hreads =>
    obtain ⟨ch0, q, hq, -, -, htake⟩ := hsized.head hreads
    rw [Side.peer_peer] at hq htake
    intro ch hch
    rw [htake] at hch
    exact hold ch (by rw [hq]; exact List.mem_cons_of_mem _ hch)

theorem Sized.step (h : Sized σ) (hfits : l.Fits) (hstep : Step p σ l σ') : Sized σ' := by
  refine ⟨fun t c k' hk' => ?_, fun t tag q m hrd => ?_, fun t => wire_forall h hstep (h.wire t) ?_⟩
  · rcases call_new hstep hk' with ⟨k, hk, hmove⟩ | ⟨rfl, -, -⟩
    · rw [hmove.request_eq.1]
      exact h.calls t c k hk
    · exact hfits
  · have hmove := reader_move hstep t
    rw [hrd] at hmove
    generalize hold : (σ.ends t).reader = rd at hmove
    cases hmove with
    | same => exact h.reader t tag q m hold
    | give _ _ _ => exact hfits
  · intro ch hch
    cases hch with
    | request hk _ => exact correlated_sized (h.calls t _ _ hk)
    | send => exact ⟨_, rfl, hfits⟩
    | answer hreader => exact answer_sized (h.reader t _ _ _ hreader)

end Frames

/-! ## One answer to a request

The request of a call is written once, read at most once, served at most once, and answered at most
once; no hypothesis on sizes is needed, since a torn stream only loses tags. -/

/-- The tag of the request of the call `c` of the end `s`, and of its response. -/
def reqTag (s : Side) (c : Nat) : Tag := ⟨.request, .call s c⟩

def respTag (s : Side) (c : Nat) : Tag := ⟨.response, .call s c⟩

/-- The loop has a request with that tag in its hands: its handler runs, or the answer is to be written. -/
def Reader.serves : Reader H → Tag → Bool
  | .handling tag (some _) _ _, t => tag = t
  | .replying tag (some _) _, t => tag = t
  | _, _ => false

def CallState.Unwritten (k : CallState) : Prop := k.phase = .numbered ∨ k.phase = .registered

structure Once (σ : Link H) (s : Side) (c : Nat) : Prop where
  fresh : (∀ k, (σ.ends s).calls[c]? = some k → k.Unwritten) →
    Stream.count (reqTag s c) (σ.wire s) + (σ.ends s.peer).invoked.count (reqTag s c) = 0
  asked : Stream.count (reqTag s c) (σ.wire s) + (σ.ends s.peer).invoked.count (reqTag s c) ≤ 1
  served : ((σ.ends s.peer).reader.serves (reqTag s c)).toNat + Stream.count (respTag s c) (σ.wire s.peer) ≤
    (σ.ends s.peer).invoked.count (reqTag s c)

theorem Once.init (s : Side) (c : Nat) : Once (Link.init : Link H) s c :=
  ⟨fun _ => rfl, Nat.zero_le _, Nat.le_refl _⟩

section Once

variable {p : Setup H} {σ σ' : Link H} {l : Label} {t : Side}

theorem CallMove.unwritten (h : CallMove p σ t c k l k') (hk' : k'.Unwritten) : k.Unwritten := by
  cases h with
  | same | deliver _ _ _ => exact hk'
  | register h => exact .inl h
  | write h | writeFail h => exact .inr h
  | receive h _ | cancel h | finish h => rcases hk' with hk' | hk' <;> cases hk'

theorem wire_read (h : Step p σ (.read t) σ') (hreads : Reads p σ t data rest tag a) :
    σ'.wire t.peer = (Stream.take writeMessage .torn (σ.wire t.peer) data rest).2 := by
  cases h with
  | read hidle hconn hread =>
    rw [hreads.read] at hread
    cases hread
    exact Link.take_wire_peer
  | oversize hidle hconn hread =>
    rw [hreads.read] at hread
    cases hread

theorem answer_tag_ne_req (tag : Tag) (q : Option Nat) (m : Message) (s : Side) (c : Nat) :
    (answer tag q m).tag ≠ reqTag s c := by
  intro h
  have hkind := congrArg Tag.kind h
  cases q with
  | none => cases hkind
  | some q =>
    simp only [answer, reqTag] at hkind
    split_ifs at hkind

/-- The frames with a tag under way and the handlers run with it: only the write of such a frame adds one. -/
theorem count_step (h : Step p σ l σ') (s : Side) {x : Tag} (htorn : Tag.torn ≠ x) {k : Nat}
    (hnew : ∀ ch, Written σ s l ch → ch.tag = x → 1 ≤ k) :
    Stream.count x (σ'.wire s) + (σ'.ends s.peer).invoked.count x ≤
      Stream.count x (σ.wire s) + (σ.ends s.peer).invoked.count x + k := by
  rcases invoked_move h s.peer with heq | ⟨data, rest, tag, a, rfl, hreads, -, heq⟩
  · rw [heq]
    have hmove := wire_move h s
    generalize σ'.wire s = w at hmove
    cases hmove with
    | same => omega
    | @wrote _ ch hch =>
      have hone := hnew ch hch
      rw [Stream.count_concat]
      split_ifs with htag
      · have := hone htag
        omega
      · omega
    | @taken data rest _ _ hreads =>
      have hle := @Stream.count_take_le _ _ _ writeMessage .torn (σ.wire s) data rest _ _ htorn
      omega
  · have hwire := wire_read h hreads
    have htag := hreads.tag_eq
    have hcount := @Stream.count_take _ _ _ writeMessage .torn (σ.wire s) data rest _ x htorn
    rw [Side.peer_peer] at hwire htag
    rw [htag] at hcount
    rw [hwire, heq, List.count_append, List.count_singleton]
    simp only [beq_iff_eq]
    omega

/-- What is served or answered was read: a step of the peer. -/
theorem served_step (h : Step p σ l σ') (s : Side) (c : Nat) :
    ((σ'.ends s.peer).reader.serves (reqTag s c)).toNat + Stream.count (respTag s c) (σ'.wire s.peer) +
        (σ.ends s.peer).invoked.count (reqTag s c) ≤
      ((σ.ends s.peer).reader.serves (reqTag s c)).toNat + Stream.count (respTag s c) (σ.wire s.peer) +
        (σ'.ends s.peer).invoked.count (reqTag s c) := by
  have htorn : Tag.torn ≠ respTag s c := by
    intro h
    cases h
  generalize ht : s.peer = t
  by_cases hs : l.side = t
  swap
  · -- a step of the call's own end may read a response off the stream
    rw [ends_other h hs]
    have hmove := wire_move h t
    generalize σ'.wire t = w at hmove
    cases hmove with
    | same => exact Nat.le_refl _
    | wrote hch => cases hch <;> exact absurd rfl hs
    | @taken data rest tag a hreads =>
      have hle := @Stream.count_take_le _ _ _ writeMessage .torn (σ.wire t) data rest _ _ htorn
      omega
  have hsend : ∀ {kind : Kind} {cause : Cause}, kind ≠ .response → (⟨kind, cause⟩ : Tag) ≠ respTag s c := by
    intro kind cause hne heq
    cases heq
    exact hne rfl
  cases h <;> simp only [Label.side] at hs <;> subst hs <;>
    simp only [Link.push_ends, Link.setEnd_self, Link.take_self, Link.setEnd_wire, Link.push_self,
      Link.take_wire_self, Stream.count_concat, le_refl]
  case write | send =>
    rw [if_neg (hsend (by decide))]
    exact Nat.le_refl _
  case read t data rest hidle hconn hread =>
    rcases act_cases (σ.ends t) (Stream.take writeMessage .torn (σ.wire t.peer) data rest).1
      ((p.mode t).body (p.handlers t) data) with heq | ⟨reqID, msg, c0, k0, -, -, -, -, heq⟩ |
        ⟨h, reqID, msg, ha, heq⟩ | ⟨h, msg, ha, heq⟩
    · rw [heq]
    · rw [heq]
      exact Nat.le_refl _
    · rw [heq, hidle]
      simp only [End.invoke, Reader.serves, List.count_append, List.count_singleton, beq_iff_eq]
      by_cases htag : (Stream.take writeMessage .torn (σ.wire t.peer) data rest).1 = reqTag s c
      · simp only [htag, decide_true, Bool.toNat_true, if_true, Bool.toNat_false]
        omega
      · simp only [htag, decide_false, Bool.toNat_false, if_false]
        omega
    · rw [heq, hidle]
      simp only [End.invoke, Reader.serves, List.count_append, Bool.toNat_false]
      omega
  case give t tag reqID h msg r hreader hmay =>
    have hserves : (((σ.ends t).give (p.mode t).answers tag reqID msg r).reader.serves (reqTag s c)).toNat ≤
        ((σ.ends t).reader.serves (reqTag s c)).toNat := by
      rw [hreader]
      cases r with
      | failed | nothing => exact Nat.zero_le _
      | reply m =>
        simp only [End.give]
        split_ifs
        · cases reqID <;> exact Nat.le_refl _
        · exact Nat.zero_le _
    exact Nat.add_le_add_right (Nat.add_le_add_right hserves _) _
  case reply t tag reqID msg hreader hconn =>
    rw [hreader]
    cases reqID with
    | none =>
      rw [answer, if_neg (hsend (by decide))]
      exact Nat.le_refl _
    | some q =>
      have hiff : (answer tag (some q) msg).tag = respTag s c → tag = reqTag s c := by
        intro heq
        obtain ⟨kind, cause⟩ := tag
        simp only [answer, respTag, Tag.mk.injEq] at heq
        obtain ⟨hkind, rfl⟩ := heq
        split_ifs at hkind with hreq
        rw [hreq]
        rfl
      simp only [Reader.serves, Bool.toNat_false]
      by_cases htag : tag = reqTag s c
      · simp only [htag, decide_true, Bool.toNat_true]
        split_ifs <;> omega
      · rw [if_neg fun heq => htag (hiff heq)]
        omega
  case oversize t hidle _ _ =>
    rw [hidle]
    exact Nat.le_refl _
  case replyFail t tag reqID msg hreader =>
    exact Nat.add_le_add_right (Nat.add_le_add_right (Nat.zero_le _) _) _
  case stop t hidle =>
    rw [hidle]
    exact Nat.le_refl _
  all_goals exact Nat.le_refl _

/-- **A request is answered at most once**, in every run. -/
theorem Once.step {s : Side} (h : Once σ s c) (hstep : Step p σ l σ') : Once σ' s c := by
  have hback : (∀ k', (σ'.ends s).calls[c]? = some k' → k'.Unwritten) →
      ∀ k, (σ.ends s).calls[c]? = some k → k.Unwritten := by
    intro hall k hk
    obtain ⟨k', hk', hmove⟩ := call_move hstep hk
    exact hmove.unwritten (hall k' hk')
  have hserved := served_step hstep s c
  by_cases hl : l = .write s c
  · subst hl
    -- the call was registered, so nothing carries its tag yet
    cases hstep with
    | @write _ _ k hk hphase hconn =>
      have hzero := h.fresh fun k' hk' => by
        rw [hk] at hk'
        cases hk'
        exact .inr hphase
      rw [Link.push_ends, Link.setEnd_peer, Link.push_peer, Link.setEnd_wire] at hserved
      refine ⟨fun hall => ?_, ?_, ?_⟩
      · have hk' : (((σ.ends s).setCall c { k with phase := .waiting }).calls)[c]? =
            some { k with phase := .waiting } := by
          simp [End.setCall, (List.getElem?_eq_some_iff.mp hk).1]
        have := hall _ (by rw [Link.push_ends, Link.setEnd_self]; exact hk')
        rcases this with h | h <;> cases h
      · rw [Link.push_ends, Link.setEnd_peer, Link.push_self, Stream.count_concat, Link.setEnd_wire]
        split_ifs <;> omega
      · rw [Link.push_ends, Link.setEnd_peer, Link.push_peer, Link.setEnd_wire]
        exact h.served
  · -- only the write of this call adds to the requests under way or read
    have hasked := count_step (x := reqTag s c) (k := 0) hstep s (by simp [Tag.torn, reqTag]) fun ch hch htag => by
      cases hch with
      | request =>
        cases htag
        exact absurd rfl hl
      | send => cases htag
      | answer => exact absurd htag (answer_tag_ne_req _ _ _ s c)
    refine ⟨fun hall => ?_, ?_, ?_⟩
    · have := h.fresh (hback hall)
      omega
    · have := h.asked
      omega
    · have := h.served
      omega

end Once

end Zap.Node
