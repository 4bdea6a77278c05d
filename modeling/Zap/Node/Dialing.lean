/-
# Zap.Node.Dialing — two nodes that dial each other at the same time.

There are two connections, one dialled by each node, and four goroutines: on each connection one that
dials (`ConnectDirectID`, `quicConnectDirect`) and one that accepts (`handleConn`,
`onAcceptedTransportConn`). Each looks into its node's map, registers the connection if there is none for
the peer yet, and closes it if there is. A node has one entry for the other, so the two goroutines of a
node compete; nothing makes the two nodes decide the same way.
-/
import Zap.Node.Link

namespace Zap.Dialing

open Zap.Lib Zap.Node

/-! ## The goroutines

A connection is named by the end that dialled it. -/

/-- `quic` : the nodes speak QUIC. `named s` : the id of the node `s` is not empty, so that its handshake
decodes; a QUIC node without an id neither listens nor dials. -/
structure Setup where
  quic : Bool
  named : Side → Bool
  quic_named : quic = true → ∀ s, named s = true

inductive Dial
  | start
  | greeted
  | answered
  | done
  deriving DecidableEq

inductive Accept
  | start
  | greeted
  | cleared
  | answered
  | done
  deriving DecidableEq

structure State where
  dial : Side → Dial
  accept : Side → Accept
  /-- The acceptor has written its handshake. -/
  replied : Side → Bool
  /-- The dialer has closed its end. -/
  dialClosed : Side → Bool
  /-- The acceptor has closed its end. -/
  acceptClosed : Side → Bool
  /-- `conns[peer]` or `transports[peer]` of each node. -/
  conns : Side → Option Side

def State.init : State :=
  ⟨fun _ => .start, fun _ => .start, fun _ => false, fun _ => false, fun _ => false, fun _ => none⟩

def State.closed (σ : State) (x : Side) : Bool := σ.dialClosed x || σ.acceptClosed x

inductive Label
  /-- The dialer of `x` connects and writes its handshake. -/
  | hello (x : Side)
  /-- The acceptor of `x` reads it. -/
  | readHello (x : Side)
  /-- It does not come in time. -/
  | acceptTimeout (x : Side)
  /-- The check before the answer, which the QUIC path does not make. -/
  | firstCheck (x : Side)
  /-- The acceptor writes its handshake. -/
  | reply (x : Side)
  /-- The dialer has closed the connection. -/
  | replyFail (x : Side)
  /-- The dialer reads it. -/
  | readReply (x : Side)
  /-- It does not come in time; only the QUIC dialer has a deadline. -/
  | dialTimeout (x : Side)
  /-- The acceptor has closed the connection instead. -/
  | eof (x : Side)
  /-- The acceptor registers `x`, or closes it. -/
  | acceptCheck (x : Side)
  /-- The dialer registers `x`, or closes it. -/
  | dialCheck (x : Side)
  /-- The read loop of the node `n` ends: the other end has closed the connection it has registered. -/
  | loopEnd (n : Side)

namespace State

def setDial (σ : State) (x : Side) (d : Dial) : State := { σ with dial := Function.update σ.dial x d }

def setAccept (σ : State) (x : Side) (a : Accept) : State := { σ with accept := Function.update σ.accept x a }

def dialClose (σ : State) (x : Side) : State :=
  { σ.setDial x .done with dialClosed := Function.update σ.dialClosed x true }

def acceptClose (σ : State) (x : Side) : State :=
  { σ.setAccept x .done with acceptClosed := Function.update σ.acceptClosed x true }

def register (σ : State) (n x : Side) : State := { σ with conns := Function.update σ.conns n (some x) }

/-- The loop of the node `n` on the connection `x` ends: its entry goes, and its end is closed. -/
def drop (σ : State) (n x : Side) : State :=
  { σ with
    conns := Function.update σ.conns n none
    dialClosed := if n = x then Function.update σ.dialClosed x true else σ.dialClosed
    acceptClosed := if n = x then σ.acceptClosed else Function.update σ.acceptClosed x true }

end State

/-- One step. The acceptor of the connection `x` is the node `x.peer`. -/
def step (p : Setup) (σ : State) : Label → Option State
  | .hello x => if σ.dial x = .start then some (σ.setDial x .greeted) else none
  | .readHello x =>
    if σ.accept x = .start ∧ σ.dial x ≠ .start then some (σ.setAccept x .greeted) else none
  | .acceptTimeout x =>
    if σ.accept x = .start ∧ σ.dial x ≠ .start then some (σ.acceptClose x) else none
  | .firstCheck x =>
    if σ.accept x = .greeted then
      if p.quic = false ∧ σ.conns x.peer ≠ none then some (σ.acceptClose x)
      else some (σ.setAccept x .cleared)
    else none
  | .reply x =>
    if σ.accept x = .cleared then
      some { σ.setAccept x .answered with replied := Function.update σ.replied x true }
    else none
  | .replyFail x => if σ.accept x = .cleared ∧ σ.dialClosed x then some (σ.acceptClose x) else none
  | .readReply x =>
    if σ.dial x = .greeted ∧ σ.replied x then
      if p.named x.peer then some (σ.setDial x .answered) else some (σ.dialClose x)
    else none
  | .dialTimeout x => if p.quic ∧ σ.dial x = .greeted then some (σ.dialClose x) else none
  | .eof x => if σ.dial x = .greeted ∧ σ.acceptClosed x then some (σ.dialClose x) else none
  | .acceptCheck x =>
    if σ.accept x = .answered then
      if σ.conns x.peer = none then some ((σ.setAccept x .done).register x.peer x) else some (σ.acceptClose x)
    else none
  | .dialCheck x =>
    if σ.dial x = .answered then
      if σ.conns x = none then some ((σ.setDial x .done).register x x) else some (σ.dialClose x)
    else none
  | .loopEnd n =>
    match σ.conns n with
    | none => none
    | some x => if (if n = x then σ.acceptClosed x else σ.dialClosed x) then some (σ.drop n x) else none

/-- A run of the four goroutines and the read loops they start. -/
def Run (p : Setup) (tr : List Label) (σ : State) : Prop := Path (fun σ l τ => step p σ l = some τ) .init tr σ

/-! ## Connections given up -/

/-- The connection a step gives up on its own account, with the other end still open as far as it knows. -/
def givesUp (p : Setup) (σ : State) : Label → Option Side
  | .acceptTimeout x => some x
  | .firstCheck x => if p.quic = false ∧ σ.conns x.peer ≠ none then some x else none
  | .readReply x => if p.named x.peer then none else some x
  | .dialTimeout x => some x
  | .acceptCheck x => if σ.conns x.peer = none then none else some x
  | .dialCheck x => if σ.conns x = none then none else some x
  | _ => none

/-- No step gives up a connection that is open while the other one is lost. -/
def Clean (p : Setup) (σ : State) (l : Label) : Prop :=
  ∀ x, givesUp p σ l = some x → σ.closed x = false → σ.closed x.peer = false

def Finished (σ : State) : Prop := ∀ x, σ.dial x = .done ∧ σ.accept x = .done

/-- The two nodes hold one and the same connection, and it is open. -/
def Converged (σ : State) : Prop := ∃ x, (∀ n, σ.conns n = some x) ∧ σ.closed x = false

section Step

variable {p : Setup} {σ τ : State} {l : Label}

/-- A goroutine that is done has registered its connection, and it is registered still, or has closed its
end. -/
structure Settled (σ : State) : Prop where
  dial : ∀ x, σ.dial x = .done → σ.dialClosed x = true ∨ σ.conns x = some x
  accept : ∀ x, σ.accept x = .done → σ.acceptClosed x = true ∨ σ.conns x.peer = some x

theorem closed_dialClose (σ : State) (x y : Side) :
    (σ.dialClose x).closed y = (σ.closed y || decide (y = x)) := by
  by_cases h : y = x
  · subst h
    simp [State.closed, State.dialClose]
  · simp [State.closed, State.dialClose, State.setDial, h]

theorem closed_acceptClose (σ : State) (x y : Side) :
    (σ.acceptClose x).closed y = (σ.closed y || decide (y = x)) := by
  by_cases h : y = x
  · subst h
    simp [State.closed, State.acceptClose]
  · simp [State.closed, State.acceptClose, State.setAccept, h]

theorem closed_drop (σ : State) (n x y : Side) : (σ.drop n x).closed y = (σ.closed y || decide (y = x)) := by
  by_cases hn : n = x <;> by_cases h : y = x
  · subst h
    simp [State.closed, State.drop, hn]
  · simp [State.closed, State.drop, hn, h]
  · subst h
    simp [State.closed, State.drop, hn]
  · simp [State.closed, State.drop, hn, h]

/-- **What a step does**: a goroutine goes on, closes its end, or registers its connection, or a loop ends. -/
inductive Move (p : Setup) (σ : State) (l : Label) : State → Prop
  | dial (x : Side) {d : Dial} (hd : d ≠ .done) (hno : givesUp p σ l = none) : Move p σ l (σ.setDial x d)
  | accept (x : Side) {a : Accept} (r : Side → Bool) (ha : a ≠ .done) (hno : givesUp p σ l = none) :
      Move p σ l { σ.setAccept x a with replied := r }
  | dialClose (x : Side) (hup : givesUp p σ l = some x ∨ givesUp p σ l = none ∧ σ.closed x = true) :
      Move p σ l (σ.dialClose x)
  | acceptClose (x : Side) (hup : givesUp p σ l = some x ∨ givesUp p σ l = none ∧ σ.closed x = true) :
      Move p σ l (σ.acceptClose x)
  | dialRegister {x : Side} (hfree : σ.conns x = none) (hno : givesUp p σ l = none) :
      Move p σ l ((σ.setDial x .done).register x x)
  | acceptRegister {x : Side} (hfree : σ.conns x.peer = none) (hno : givesUp p σ l = none) :
      Move p σ l ((σ.setAccept x .done).register x.peer x)
  | drop {n x : Side} (hreg : σ.conns n = some x) (hno : givesUp p σ l = none) (hcl : σ.closed x = true) :
      Move p σ l (σ.drop n x)

theorem step_move (h : step p σ l = some τ) : Move p σ l τ := by
  cases l <;> simp only [step] at h
  case hello x => split_ifs at h; cases h; exact .dial x (by decide) rfl
  case readHello x => split_ifs at h; cases h; exact .accept x _ (by decide) rfl
  case acceptTimeout x => split_ifs at h; cases h; exact .acceptClose x (.inl rfl)
  case reply x => split_ifs at h; cases h; exact .accept x _ (by decide) rfl
  case dialTimeout x => split_ifs at h; cases h; exact .dialClose x (.inl rfl)
  case replyFail x =>
    split_ifs at h with hphase
    cases h
    exact .acceptClose x (.inr ⟨rfl, by simp [State.closed, hphase.2]⟩)
  case eof x =>
    split_ifs at h with hphase
    cases h
    exact .dialClose x (.inr ⟨rfl, by simp [State.closed, hphase.2]⟩)
  case firstCheck x =>
    split_ifs at h with hphase hreject <;> cases h
    · exact .acceptClose x (.inl (if_pos hreject))
    · exact .accept x _ (by decide) (if_neg hreject)
  case readReply x =>
    split_ifs at h with hphase hnamed <;> cases h
    · exact .dial x (by decide) (if_pos hnamed)
    · exact .dialClose x (.inl (if_neg hnamed))
  case acceptCheck x =>
    split_ifs at h with hphase hfree <;> cases h
    · exact .acceptRegister hfree (if_pos hfree)
    · exact .acceptClose x (.inl (if_neg hfree))
  case dialCheck x =>
    split_ifs at h with hphase hfree <;> cases h
    · exact .dialRegister hfree (if_pos hfree)
    · exact .dialClose x (.inl (if_neg hfree))
  case loopEnd n =>
    cases hc : σ.conns n with
    | none =>
      rw [hc] at h
      cases h
    | some x =>
      rw [hc] at h
      dsimp only at h
      split_ifs at h with hn hclosed hclosed <;> cases h <;>
        exact .drop hc rfl (by simp [State.closed, hclosed])

/-- What it does to the connections: nothing, or it closes an end of one; that one was given up by the step, or the
other end was closed. -/
theorem closed_step (h : step p σ l = some τ) :
    (∀ y, τ.closed y = σ.closed y) ∧ (∀ x, givesUp p σ l ≠ some x) ∨
    ∃ x, (∀ y, τ.closed y = (σ.closed y || decide (y = x))) ∧
      (givesUp p σ l = some x ∨ givesUp p σ l = none ∧ σ.closed x = true) := by
  have hkeeps : givesUp p σ l = none → ∀ x, givesUp p σ l ≠ some x := fun hno x hx => by simp [hno] at hx
  cases step_move h with
  | dial x _ hno | accept x _ _ hno | dialRegister _ hno | acceptRegister _ hno => exact .inl ⟨fun _ => rfl, hkeeps hno⟩
  | dialClose x hup => exact .inr ⟨x, closed_dialClose σ x, hup⟩
  | acceptClose x hup => exact .inr ⟨x, closed_acceptClose σ x, hup⟩
  | @drop n x _ hno hcl => exact .inr ⟨x, closed_drop σ n x, .inr ⟨hno, hcl⟩⟩

theorem closed_mono (h : step p σ l = some τ) {y : Side} (hy : σ.closed y = true) : τ.closed y = true := by
  rcases closed_step h with ⟨hsame, -⟩ | ⟨x, hcl, -⟩
  · rw [hsame, hy]
  · rw [hcl, hy, Bool.true_or]

theorem closed_givesUp (h : step p σ l = some τ) {x : Side} (hx : givesUp p σ l = some x) :
    τ.closed x = true := by
  rcases closed_step h with ⟨-, hno⟩ | ⟨y, hcl, hy | ⟨hy, -⟩⟩
  · exact absurd hx (hno x)
  · obtain rfl : y = x := Option.some.inj (hy.symm.trans hx)
    simp [hcl]
  · rw [hx] at hy
    cases hy

theorem open_step (h : step p σ l = some τ) (hclean : Clean p σ l) (hopen : ∃ y, σ.closed y = false) :
    ∃ y, τ.closed y = false := by
  obtain ⟨y, hy⟩ := hopen
  rcases closed_step h with ⟨hsame, -⟩ | ⟨x, hcl, hx⟩
  · exact ⟨y, by rw [hsame, hy]⟩
  by_cases hyx : y = x
  · subst hyx
    rcases hx with hup | ⟨-, hclosed⟩
    · -- the open connection is given up: the other one is open, and the step does not touch it
      refine ⟨y.peer, ?_⟩
      rw [hcl, hclean y hup hy]
      cases y <;> rfl
    · rw [hy] at hclosed
      cases hclosed
  · exact ⟨y, by simp [hcl, hy, hyx]⟩

theorem Settled.init : Settled .init where
  dial := by
    intro x h
    cases h
  accept := by
    intro x h
    cases h

namespace Settled

theorem setDial (hs : Settled σ) (x : Side) {d : Dial} (hd : d ≠ .done) : Settled (σ.setDial x d) := by
  refine ⟨fun y hy => hs.dial y ?_, hs.accept⟩
  by_cases hyx : y = x
  · subst hyx
    simp only [State.setDial, Function.update_self] at hy
    exact absurd hy hd
  · simpa only [State.setDial, Function.update_of_ne hyx] using hy

theorem setAccept (hs : Settled σ) (x : Side) {a : Accept} (ha : a ≠ .done) : Settled (σ.setAccept x a) := by
  refine ⟨hs.dial, fun y hy => hs.accept y ?_⟩
  by_cases hyx : y = x
  · subst hyx
    simp only [State.setAccept, Function.update_self] at hy
    exact absurd hy ha
  · simpa only [State.setAccept, Function.update_of_ne hyx] using hy

theorem dialClose (hs : Settled σ) (x : Side) : Settled (σ.dialClose x) := by
  refine ⟨fun y hy => ?_, hs.accept⟩
  by_cases hyx : y = x
  · exact .inl (by simp [State.dialClose, hyx])
  · simp only [State.dialClose, State.setDial, Function.update_of_ne hyx] at hy ⊢
    exact hs.dial y hy

theorem acceptClose (hs : Settled σ) (x : Side) : Settled (σ.acceptClose x) := by
  refine ⟨hs.dial, fun y hy => ?_⟩
  by_cases hyx : y = x
  · exact .inl (by simp [State.acceptClose, hyx])
  · simp only [State.acceptClose, State.setAccept, Function.update_of_ne hyx] at hy ⊢
    exact hs.accept y hy

/-- The map of the node had no entry, so no other goroutine of it relies on one. -/
theorem dialRegister (hs : Settled σ) {x : Side} (hfree : σ.conns x = none) :
    Settled ((σ.setDial x .done).register x x) := by
  refine ⟨fun y hy => ?_, fun y hy => ?_⟩
  · by_cases hyx : y = x
    · exact .inr (by simp [State.register, hyx])
    · simp only [State.register, State.setDial, Function.update_of_ne hyx] at hy ⊢
      exact hs.dial y hy
  · rcases hs.accept y hy with hcl | hreg
    · exact .inl hcl
    have hne : y.peer ≠ x := by
      rintro rfl
      rw [hfree] at hreg
      cases hreg
    exact .inr (by simpa only [State.register, State.setDial, Function.update_of_ne hne] using hreg)

theorem acceptRegister (hs : Settled σ) {x : Side} (hfree : σ.conns x.peer = none) :
    Settled ((σ.setAccept x .done).register x.peer x) := by
  refine ⟨fun y hy => ?_, fun y hy => ?_⟩
  · rcases hs.dial y hy with hcl | hreg
    · exact .inl hcl
    have hne : y ≠ x.peer := by
      rintro rfl
      rw [hfree] at hreg
      cases hreg
    exact .inr (by simpa only [State.register, State.setAccept, Function.update_of_ne hne] using hreg)
  · by_cases hyx : y = x
    · exact .inr (by simp [State.register, hyx])
    · have hne : y.peer ≠ x.peer := by
        cases y <;> cases x <;> simp_all [Side.peer]
      simp only [State.register, State.setAccept, Function.update_of_ne hyx, Function.update_of_ne hne] at hy ⊢
      exact hs.accept y hy

/-- The entry that goes is that of a connection whose end the same node closes. -/
theorem drop (hs : Settled σ) {n x : Side} (hreg : σ.conns n = some x) : Settled (σ.drop n x) := by
  refine ⟨fun y hy => ?_, fun y hy => ?_⟩
  · rcases hs.dial y hy with hcl | hy'
    · refine .inl ?_
      by_cases hn : n = x <;> by_cases hyx : y = x <;> simp [State.drop, hn, hyx, hcl]
      simpa [hyx] using hcl
    by_cases hyn : y = n
    · subst hyn
      obtain rfl : x = y := Option.some.inj (hreg.symm.trans hy')
      exact .inl (by simp [State.drop])
    · exact .inr (by simpa only [State.drop, Function.update_of_ne hyn] using hy')
  · rcases hs.accept y hy with hcl | hy'
    · refine .inl ?_
      by_cases hn : n = x <;> by_cases hyx : y = x <;> simp [State.drop, hn, hyx, hcl]
      simpa [hyx] using hcl
    by_cases hyn : y.peer = n
    · subst hyn
      obtain rfl : x = y := Option.some.inj (hreg.symm.trans hy')
      have hne : ¬x.peer = x := by cases x <;> simp [Side.peer]
      exact .inl (by simp [State.drop, hne])
    · exact .inr (by simpa only [State.drop, Function.update_of_ne hyn] using hy')

theorem step (hs : Settled σ) (h : Dialing.step p σ l = some τ) : Settled τ := by
  cases step_move h with
  | dial x hd => exact hs.setDial x hd
  | @accept x a r ha => exact ⟨(hs.setAccept x ha).dial, (hs.setAccept x ha).accept⟩
  | dialClose x => exact hs.dialClose x
  | acceptClose x => exact hs.acceptClose x
  | dialRegister hfree => exact hs.dialRegister hfree
  | acceptRegister hfree => exact hs.acceptRegister hfree
  | drop hreg => exact hs.drop hreg

/-- When all are done, a connection that is open is registered at both nodes. -/
theorem converged (hs : Settled σ) (hfin : Finished σ) {y : Side} (hy : σ.closed y = false) : Converged σ := by
  obtain ⟨hd, ha⟩ := Bool.or_eq_false_iff.mp hy
  have hdial : σ.conns y = some y := by
    rcases hs.dial y (hfin y).1 with hcl | hreg
    · rw [hd] at hcl
      cases hcl
    · exact hreg
  have haccept : σ.conns y.peer = some y := by
    rcases hs.accept y (hfin y).2 with hcl | hreg
    · rw [ha] at hcl
      cases hcl
    · exact hreg
  refine ⟨y, fun n => ?_, hy⟩
  rcases Side.eq_or_peer y n with rfl | rfl
  · exact hdial
  · exact haccept

end Settled

end Step

/-! ## Whole runs -/

variable {p : Setup} {σ : State} {tr : List Label}

abbrev Occurs (p : Setup) (tr pre : List Label) (l : Label) (ρ : State) : Prop :=
  Path.Occurs (fun σ l τ => step p σ l = some τ) .init tr pre l ρ

theorem open_run (h : Run p tr σ) (hclean : ∀ {pre l ρ}, Occurs p tr pre l ρ → Clean p ρ l) :
    ∃ y, σ.closed y = false := by
  induction h using Path.concat_induction with
  | init => exact ⟨.left, rfl⟩
  | @snoc _ _ l _ hrun hstep ih =>
    exact open_step hstep (hclean ⟨⟨[], rfl⟩, hrun⟩) (ih fun hocc => hclean (hocc.snoc l))

theorem closed_of_unclean {ρ τ : State} {l : Label} (hstep : step p ρ l = some τ) (hbad : ¬Clean p ρ l)
    (y : Side) : τ.closed y = true := by
  simp only [Clean, not_forall, Bool.not_eq_false] at hbad
  obtain ⟨x, hup, -, hpeer⟩ := hbad
  rcases Side.eq_or_peer x y with rfl | rfl
  · exact closed_givesUp hstep hup
  · exact closed_mono hstep hpeer

/-- **When simultaneous dialing converges**: exactly if no connection was given up while the other one was
already lost. -/
theorem converges_iff (h : Run p tr σ) (hfin : Finished σ) :
    Converged σ ↔ ∀ pre l ρ, Occurs p tr pre l ρ → Clean p ρ l := by
  constructor
  · rintro ⟨y, -, hy⟩ pre l ρ ⟨⟨post, rfl⟩, hpre⟩
    by_contra hbad
    obtain ⟨ρ', hpre', hrest⟩ := Path.append_iff.mp h
    obtain ⟨τ, hstep, hpost⟩ := Path.cons_iff.mp hrest
    obtain rfl : ρ = ρ' := Path.det (fun h h' => Option.some.inj (h.symm.trans h')) hpre hpre'
    have hlost : σ.closed y = true :=
      Path.invariant (I := fun σ => σ.closed y = true) (fun hcl hs => closed_mono hs hcl) hpost
        (closed_of_unclean hstep hbad y)
    rw [hy] at hlost
    cases hlost
  · intro hclean
    obtain ⟨y, hy⟩ := open_run h (fun hocc => hclean _ _ _ hocc)
    have hs : Settled σ := Path.invariant (I := Settled) (fun hs h => hs.step h) h .init
    exact hs.converged hfin hy

def twoNodes (quic : Bool) : Setup := ⟨quic, fun _ => true, fun _ _ => rfl⟩

/-- Both handshakes come through on both connections. -/
def handshakes : List Label :=
  [.hello .left, .hello .right, .readHello .left, .readHello .right, .firstCheck .left, .firstCheck .right,
    .reply .left, .reply .right, .readReply .left, .readReply .right]

/-- The dialers find their maps empty and register the connections they dialled; then each acceptor finds
the other connection registered and closes its own. -/
def dialersFirst : List Label :=
  handshakes ++ [.dialCheck .left, .dialCheck .right, .acceptCheck .left, .acceptCheck .right]

/-- One connection is registered at both ends before the other is looked at. -/
def oneFirst : List Label :=
  handshakes ++ [.dialCheck .left, .acceptCheck .left, .dialCheck .right, .acceptCheck .right]

theorem dialersFirst_lost (quic : Bool) :
    ∃ σ, Run (twoNodes quic) dialersFirst σ ∧ Finished σ ∧ ∀ x, σ.closed x = true := by
  cases quic
  all_goals
    refine ⟨_, Path.foldlM_iff.mpr rfl, ?_, ?_⟩
    · intro x
      cases x <;> exact ⟨rfl, rfl⟩
    · intro x
      cases x <;> rfl

theorem not_converged_of_closed {σ : State} (h : ∀ x, σ.closed x = true) : ¬Converged σ := by
  rintro ⟨y, -, hy⟩
  rw [h y] at hy
  cases hy

theorem oneFirst_kept (quic : Bool) : ∃ σ, Run (twoNodes quic) oneFirst σ ∧ Finished σ ∧ Converged σ := by
  cases quic
  all_goals
    refine ⟨_, Path.foldlM_iff.mpr rfl, ?_, .left, ?_, rfl⟩
    · intro x
      cases x <;> exact ⟨rfl, rfl⟩
    · intro x
      cases x <;> rfl

/-- Both dial at once, over TCP or over QUIC, and both connections are lost. -/
theorem both_connections_lost :
    (∃ σ, Run (twoNodes false) dialersFirst σ ∧ Finished σ ∧ ¬Converged σ) ∧
    ∃ σ, Run (twoNodes true) dialersFirst σ ∧ Finished σ ∧ ¬Converged σ := by
  obtain ⟨σ, hrun, hfin, hlost⟩ := dialersFirst_lost false
  obtain ⟨σ', hrun', hfin', hlost'⟩ := dialersFirst_lost true
  exact ⟨⟨σ, hrun, hfin, not_converged_of_closed hlost⟩, σ', hrun', hfin', not_converged_of_closed hlost'⟩

/-- One connection is registered at both ends before the other is looked at: no step is unclean, and the
nodes end up with the same connection. -/
theorem one_connection_kept :
    ∃ σ, Run (twoNodes false) oneFirst σ ∧ Finished σ ∧ Converged σ ∧
      ∀ pre l ρ, Occurs (twoNodes false) oneFirst pre l ρ → Clean (twoNodes false) ρ l := by
  obtain ⟨σ, hrun, hfin, hconv⟩ := oneFirst_kept false
  exact ⟨σ, hrun, hfin, hconv, (converges_iff hrun hfin).mp hconv⟩

end Zap.Dialing
