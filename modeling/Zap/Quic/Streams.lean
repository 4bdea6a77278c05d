/-
# Zap.Quic.Streams — what a `Call` over QUIC leaves behind (`quicCallStream`).

Every `Call` opens a stream of its own, writes its request, starts a goroutine that reads the answer, and waits for
it or for its context. Whatever happens it closes the stream on return. `Close` ends the write side alone: the
goroutine goes on reading, and the stream counts against the limit of the connection until the peer has ended its
side too. Of quic-go it is assumed that a stream is freed when both of its sides have ended or been cancelled;
nothing here cancels the read side.

The calls run side by side, and the peer sends what and when it likes.
-/
import Zap.Quic.Accept

namespace Zap.Quic

open Zap.Lib

inductive CallPhase
  /-- In `OpenCallStream`. -/
  | opening
  /-- In `WriteFrame`. -/
  | writing
  /-- At its `select`. -/
  | waiting
  | returned
  deriving DecidableEq

/-- A `Call`, the goroutine it starts, and its stream. -/
structure StreamCall where
  phase : CallPhase := .opening
  opened : Bool := false
  /-- `stream.Close()` has ended the write side. -/
  closed : Bool := false
  /-- The peer has ended or reset its side, or the connection is lost. -/
  ended : Bool := false
  /-- What has arrived from the peer. -/
  arrived : List UInt8 := []
  /-- The goroutine is in `ReadFrame`. -/
  reading : Bool := false
  /-- Its result is in the channel. -/
  result : Bool := false

inductive Act
  | open
  | openFailed
  | write
  /-- The frame is too large, or the stream fails. -/
  | writeFailed
  | arrive (bytes : List UInt8)
  | finish
  /-- `ReadFrame` returns. -/
  | read
  | receive
  /-- `<-ctx.Done()` -/
  | cancel
  deriving DecidableEq

namespace StreamCall

/-- `ReadFrame` returns on what has arrived: a whole frame, or the header of one that is too large
(`Node.readFrame_iff`). -/
def settled (k : StreamCall) : Bool :=
  match Node.readMessageRaw k.arrived with
  | .error .eof => false
  | _ => true

def blocked (k : StreamCall) : Bool := k.reading && !(k.settled || k.ended)

def counted (k : StreamCall) : Bool := k.opened && !(k.closed && k.ended)

def leave (k : StreamCall) : StreamCall := { k with phase := .returned, closed := true }

def act (k : StreamCall) : Act → Option StreamCall
  | .open => if k.phase = .opening then some { k with phase := .writing, opened := true } else none
  | .openFailed => if k.phase = .opening then some { k with phase := .returned } else none
  | .write => if k.phase = .writing then some { k with phase := .waiting, reading := true } else none
  | .writeFailed => if k.phase = .writing then some k.leave else none
  | .arrive b => if k.opened ∧ k.ended = false then some { k with arrived := k.arrived ++ b } else none
  | .finish => if k.opened then some { k with ended := true } else none
  | .read => if k.reading ∧ k.blocked = false then some { k with reading := false, result := true } else none
  | .receive => if k.phase = .waiting ∧ k.result then some k.leave else none
  | .cancel => if k.phase = .waiting then some k.leave else none

end StreamCall

/-- Another call is made, or something happens to the call with the number `c`. -/
inductive StreamEvent
  | call
  | act (c : Nat) (a : Act)

/-- One event; a stream is opened only below the limit. -/
def streamStep (limit : Nat) (σ : List StreamCall) : StreamEvent → Option (List StreamCall)
  | .call => some (σ ++ [{}])
  | .act c a =>
    if a = .open ∧ limit ≤ σ.countP StreamCall.counted then none
    else (σ[c]?.bind (·.act a)).map (σ.set c)

abbrev StreamRun (limit : Nat) (tr : List StreamEvent) (σ : List StreamCall) : Prop :=
  Path (fun σ e τ => streamStep limit σ e = some τ) [] tr σ

/-! ## What is left -/

/-- Only a call with a stream writes and reads, and a call that has returned has closed the one it had. -/
structure StreamCall.Sound (k : StreamCall) : Prop where
  opening : k.phase = .opening → k.opened = false
  writes : k.phase = .writing ∨ k.phase = .waiting → k.opened = true
  reads : k.reading = true → k.opened = true
  closes : k.phase = .returned → k.opened = true → k.closed = true

theorem StreamCall.Sound.act {k k' : StreamCall} {a : Act} (h : k.Sound) (hact : k.act a = some k') : k'.Sound := by
  obtain ⟨hopening, hwrites, hreads, hcloses⟩ := h
  cases a <;> simp only [StreamCall.act] at hact <;> split_ifs at hact with hc <;> cases hact
  all_goals constructor <;> simp_all [StreamCall.leave]

theorem StreamRun.sound {limit : Nat} {tr : List StreamEvent} {σ : List StreamCall} (h : StreamRun limit tr σ) :
    ∀ k ∈ σ, k.Sound := by
  refine Path.invariant (I := fun σ => ∀ k ∈ σ, k.Sound) (fun {σ e τ} hσ hstep => ?_) h nofun
  cases e with
  | call =>
    cases hstep
    rw [List.forall_mem_append, List.forall_mem_singleton]
    exact ⟨hσ, fun _ => rfl, nofun, nofun, nofun⟩
  | act c a =>
    obtain ⟨-, hstep⟩ := Option.ite_none_left_eq_some.mp hstep
    obtain ⟨k', hk', rfl⟩ := Option.map_eq_some_iff.mp hstep
    obtain ⟨k, hk, hact⟩ := Option.bind_eq_some_iff.mp hk'
    intro j hj
    rcases List.mem_or_eq_of_mem_set hj with hj | rfl
    · exact hσ j hj
    · exact (hσ k (List.mem_of_getElem? hk)).act hact

/-- **What a `Call` leaves behind**: nothing, exactly if it got no stream or the peer has ended its side of the one it
got. Until then the stream counts, and the goroutine reads on unless a whole frame or the header of one that is too
large has arrived. -/
theorem leaves_nothing_iff {limit : Nat} {tr : List StreamEvent} {σ : List StreamCall} (h : StreamRun limit tr σ)
    {k : StreamCall} (hk : k ∈ σ) (hret : k.phase = .returned) :
    (k.blocked = false ∧ k.counted = false) ↔ (k.opened = true → k.ended = true) := by
  obtain ⟨-, -, hreads, hcloses⟩ := h.sound k hk
  by_cases hopen : k.opened = true
  · have hclosed := hcloses hret hopen
    cases hended : k.ended <;> simp [StreamCall.blocked, StreamCall.counted, hopen, hclosed, hended]
  · have hidle : k.reading = false := Bool.eq_false_iff.mpr fun hr => hopen (hreads hr)
    simp [StreamCall.blocked, StreamCall.counted, hopen, hidle]

set_option maxRecDepth 2000 in
/-- The peer answers with an empty frame and ends its side: the call that received it leaves nothing behind. -/
theorem answered_leaves_nothing : ∃ k, StreamRun 1 [.call, .act 0 .open, .act 0 .write, .act 0 (.arrive [0, 0, 0, 0]),
    .act 0 .read, .act 0 .receive, .act 0 .finish] [k] ∧ k.blocked = false ∧ k.counted = false := by
  have hrun : StreamRun 1 [.call, .act 0 .open, .act 0 .write, .act 0 (.arrive [0, 0, 0, 0]),
    .act 0 .read, .act 0 .receive, .act 0 .finish] [_] := Path.foldlM_iff.mpr rfl
  exact ⟨_, hrun, (leaves_nothing_iff hrun (List.mem_singleton_self _) rfl).mpr fun _ => rfl⟩

/-- **A cancelled call**: the peer does not answer, and the context ends. The goroutine waits for the peer, the stream
counts, and at a limit of one no further call gets a stream. -/
theorem cancelled_call_blocks : ∃ k k',
    StreamRun 1 [.call, .act 0 .open, .act 0 .write, .act 0 .cancel, .call] [k, k'] ∧
    k.phase = .returned ∧ k.blocked = true ∧ k.counted = true ∧ streamStep 1 [k, k'] (.act 1 .open) = none :=
  ⟨_, _, Path.foldlM_iff.mpr rfl, rfl, rfl, rfl, rfl⟩

end Zap.Quic
