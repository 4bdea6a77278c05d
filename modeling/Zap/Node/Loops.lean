/-
# Zap.Node.Loops — the two receive loops of an outbound connection, side by side.

A connection that `ConnectDirectID` opens is served by `dispatchLoop`, one that `getOrConnect` opens by a loop
of its own. Here both run over the same inputs: the frames of the peer, and between them the `Call`s that come
and go in `pending`. Handlers may keep state and a write may fail; what they do is up to a world the loop
passes on. Per input a loop puts out the handlers it runs, the frames it writes and the calls it completes.
-/
import Zap.Node.Link

namespace Zap.Node

open Zap.Lib Zap.Wire

/-! ## A loop over its inputs -/

/-- How handlers and writes come out, with the state they keep. -/
structure World (H W : Type) where
  handle : H → Message → W → Result × W
  write : List UInt8 → W → Bool × W

/-- A loop between two inputs: whether it runs, and the calls in `pending` with what lies in their channel. -/
structure LoopState (W : Type) where
  world : W
  pending : Nat → Option (Option Message)
  running : Bool

/-- What comes to a connection: a frame, or a step of a `Call`. -/
inductive Input
  | frame (data : List UInt8)
  | register (reqID : Nat)
  | receive (reqID : Nat)
  | remove (reqID : Nat)

inductive Output (H : Type)
  | invoked (handler : H) (msg : Message)
  | wrote (bytes : List UInt8)
  | completed (reqID : Nat) (msg : Message)

variable {H W : Type} (E : World H W) (handlers : Nat → Option H)

/-- A response: into the channel that is registered for it and has room. -/
def LoopState.complete (s : LoopState W) (reqID : Nat) (msg : Message) : LoopState W × List (Output H) :=
  match s.pending reqID with
  | some none => ({ s with pending := Function.update s.pending reqID (some (some msg)) }, [.completed reqID msg])
  | _ => (s, [])

/-- The handler runs; its answer is framed by `frame`, or discarded if there is none. A write that fails ends
the loop. -/
def LoopState.invoke (s : LoopState W) (h : H) (msg : Message) (frame : Option (List UInt8 → List UInt8)) :
    LoopState W × List (Output H) :=
  match E.handle h msg s.world, frame with
  | (.reply m, w), some wrap =>
    ({ s with world := (E.write (wrap m.data) w).2, running := (E.write (wrap m.data) w).1 },
      [.invoked h msg, .wrote (wrap m.data)])
  | (_, w), _ => ({ s with world := w }, [.invoked h msg])

/-- How a loop frames the answer to a plain message, if it writes one. -/
def Loop.plainFrame (l : Loop) : Option (List UInt8 → List UInt8) :=
  if (Mode.tcp l).answers then some writeMessage else none

def Loop.turn (l : Loop) (s : LoopState W) : Input → LoopState W × List (Output H)
  | .register q => ({ s with pending := Function.update s.pending q (some none) }, [])
  | .receive q => ({ s with pending := Function.update s.pending q ((s.pending q).map fun _ => none) }, [])
  | .remove q => ({ s with pending := Function.update s.pending q none }, [])
  | .frame data =>
    if s.running then
      match l.body handlers data with
      | .deliver q msg => s.complete q msg
      | .serve h q msg => s.invoke E h msg (some (writeCorrelated q reqFlagResp))
      | .run h msg => s.invoke E h msg l.plainFrame
      | .drop => (s, [])
    else (s, [])

/-- What a loop puts out, input by input. -/
def Loop.outputs (l : Loop) : LoopState W → List Input → List (List (Output H))
  | _, [] => []
  | s, i :: is => (l.turn E handlers s i).2 :: l.outputs (l.turn E handlers s i).1 is

/-! ## One frame -/

/-- Nothing handles the bytes as a message. -/
def Unhandled (data : List UInt8) : Prop := ∀ msg, parse data = .ok msg → handlers (msgType msg) = none

/-- A frame both loops treat alike: a response; a request that has no handler, and none either if the frame is
taken for a message with its header; a message whose handler has no answer. -/
def LoopState.Alike (s : LoopState W) : Input → Prop
  | .frame data => s.running = true → match unwrapCorrelated data with
      | some (_, flag, body) => flag = reqFlagResp ∨ Unhandled handlers body ∧ Unhandled handlers data
      | none => ∀ msg h, parse data = .ok msg → handlers (msgType msg) = some h →
          ∀ m, (E.handle h msg s.world).1 ≠ .reply m
  | _ => True

section Turn

variable {E handlers} {s : LoopState W} {data body : List UInt8} {q : Nat} {m m' : Message}

theorem unwrapCorrelated_some {flag : Nat} (h : unwrapCorrelated data = some (q, flag, body)) :
    correlatedHeaderSize ≤ data.length ∧ ofLE (window data 4 4) = flag ∧ ofLE (window data 0 4) = q ∧
      (flag = reqFlagReq ∨ flag = reqFlagResp) ∧ body = data.drop correlatedHeaderSize := by
  unfold unwrapCorrelated at h
  split_ifs at h with hlen
  dsimp only at h
  split_ifs at h with hflag
  obtain ⟨rfl, rfl, rfl⟩ : _ ∧ _ ∧ _ := by simpa using h
  exact ⟨Nat.not_lt.mp hlen, rfl, rfl, by tauto, rfl⟩

theorem unwrapCorrelated_none (h : unwrapCorrelated data = none) :
    ¬(correlatedHeaderSize ≤ data.length ∧ ofLE (window data 4 4) = reqFlagResp) := by
  unfold unwrapCorrelated at h
  split_ifs at h with hlen
  · exact fun h' => absurd h'.1 (Nat.not_le.mpr hlen)
  · dsimp only at h
    split_ifs at h with hflag
    exact fun h' => hflag.2 h'.2

/-- The message in a request, where the frame around it parses too: the size of the frame stands where the
version and the flags of the message are. -/
theorem body_flags (hbody : parse (data.drop correlatedHeaderSize) = .ok m) (hdata : parse data = .ok m') :
    m.flags ≠ 0 := by
  intro hflags
  have hword : ofLE (window (data.drop correlatedHeaderSize) 4 4) = declaredSize data := by
    rw [declaredSize, window, window, List.drop_drop]
  have hver := version_of_parse hbody
  have hsize := (parse_ok_iff.mp hdata).2.2.2.1
  have hflag := flag_of_message m
  rw [parse_window hbody (by decide), hword, hflags, Nat.mul_zero, Nat.add_zero] at hflag
  have h16 : headerSize = 16 := rfl
  have h1 : version1 = 1 := rfl
  have h2 : version2 = 2 := rfl
  omega

theorem frame_flags (hdata : parse data = .ok m) (hflag : ofLE (window data 4 4) = reqFlagReq) : m.flags = 0 := by
  have h := flag_of_message m
  have h1 : reqFlagReq = 1 := rfl
  rw [parse_window hdata (by decide), hflag] at h
  omega

/-- The message in the bytes, with its handler. -/
def served (handlers : Nat → Option H) (data : List UInt8) : Option (H × Message) :=
  match parse data with
  | .ok msg => (handlers (msgType msg)).map (·, msg)
  | .error _ => none

theorem served_some {h : H} :
    served handlers data = some (h, m) ↔ parse data = .ok m ∧ handlers (msgType m) = some h := by
  unfold served
  cases parse data with
  | error e => simp
  | ok msg =>
    simp only [Option.map_eq_some_iff, Prod.mk.injEq, Except.ok.injEq]
    constructor
    · rintro ⟨h', hh, rfl, rfl⟩
      exact ⟨rfl, hh⟩
    · rintro ⟨rfl, hh⟩
      exact ⟨h, hh, rfl, rfl⟩

theorem served_none : served handlers data = none ↔ Unhandled handlers data := by
  simp only [Option.eq_none_iff_forall_ne_some, Prod.forall, ne_eq, served_some, not_and, Unhandled]
  exact ⟨fun h msg hp h' hh => h h' msg hp hh, fun h h' msg hp => h msg hp h'⟩

theorem dispatch_served (handlers : Nat → Option H) (h : unwrapCorrelated data = some (q, reqFlagReq, body)) :
    dispatch handlers data = match served handlers body with
      | some (h, msg) => .serve h q msg
      | none => .drop := by
  simp only [dispatch, incoming, h, served]
  cases parse body with
  | error e => rfl
  | ok msg =>
    dsimp only
    rw [if_neg (show ¬reqFlagReq = reqFlagResp by decide)]
    dsimp only
    cases handlers (msgType msg) <;> rfl

theorem dialerDispatch_plain (handlers : Nat → Option H)
    (h : ¬(correlatedHeaderSize ≤ data.length ∧ ofLE (window data 4 4) = reqFlagResp)) :
    dialerDispatch handlers data = match served handlers data with
      | some (h, msg) => .run h msg
      | none => .drop := by
  rw [dialerDispatch, if_neg h, served]
  cases parse data with
  | error e => rfl
  | ok msg =>
    dsimp only
    cases handlers (msgType msg) <;> rfl

theorem dispatch_bare (handlers : Nat → Option H) (h : unwrapCorrelated data = none) :
    dispatch handlers data = dialerDispatch handlers data := by
  simp only [dispatch, incoming, h, dialerDispatch, if_neg (unwrapCorrelated_none h)]
  cases parse data <;> rfl

theorem response_alike (handlers : Nat → Option H) (h : unwrapCorrelated data = some (q, reqFlagResp, body)) :
    dialerDispatch handlers data = dispatch handlers data ∧ ∀ h' msg, dispatch handlers data ≠ .run h' msg := by
  obtain ⟨hlen, hflag, rfl, -, rfl⟩ := unwrapCorrelated_some h
  simp only [dispatch, incoming, h, dialerDispatch, if_pos (And.intro hlen hflag)]
  cases parse (data.drop correlatedHeaderSize) <;> simp

theorem invoke_outputs (h : H) (msg : Message) (frame : Option (List UInt8 → List UInt8)) :
    ∃ more, (s.invoke E h msg frame).2 = .invoked h msg :: more := by
  unfold LoopState.invoke
  split <;> exact ⟨_, rfl⟩

/-- Whether the answer is written makes a difference exactly if there is one. -/
theorem invoke_frame (h : H) (msg : Message) (wrap : List UInt8 → List UInt8) :
    ((∀ m, (E.handle h msg s.world).1 ≠ .reply m) → s.invoke E h msg (some wrap) = s.invoke E h msg none) ∧
    ((s.invoke E h msg (some wrap)).2 = (s.invoke E h msg none).2 → ∀ m, (E.handle h msg s.world).1 ≠ .reply m) := by
  unfold LoopState.invoke
  rcases E.handle h msg s.world with ⟨r, w⟩
  cases r <;> simp

/-- **One input**: the turns are the same if it is alike, and else put out different things. -/
theorem turn_alike (E : World H W) (handlers : Nat → Option H) (s : LoopState W) (i : Input) :
    (s.Alike E handlers i → Loop.turn E handlers .dispatchLoop s i = Loop.turn E handlers .getOrConnect s i) ∧
    ((Loop.turn E handlers .dispatchLoop s i).2 = (Loop.turn E handlers .getOrConnect s i).2 →
      s.Alike E handlers i) := by
  cases i with
  | register q | receive q | remove q => exact ⟨fun _ => rfl, fun _ => trivial⟩
  | frame data =>
    simp only [Loop.turn, LoopState.Alike]
    cases hrun : s.running with
    | false => simp
    | true =>
      simp only [if_true, forall_const, Loop.body]
      cases hu : unwrapCorrelated data with
      | none =>
        rw [dispatch_bare handlers hu, dialerDispatch_plain handlers (unwrapCorrelated_none hu)]
        cases hd : served handlers data with
        | none => exact ⟨fun _ => rfl, fun _ msg h hp hh => absurd (served_some.mpr ⟨hp, hh⟩) (by simp [hd])⟩
        | some x =>
          obtain ⟨h, msg⟩ := x
          obtain ⟨hp, hh⟩ := served_some.mp hd
          obtain ⟨hto, hof⟩ := invoke_frame (E := E) (s := s) h msg writeMessage
          refine ⟨fun hquiet => hto (hquiet msg h hp hh), fun heq msg' h' hp' hh' => ?_⟩
          cases hp.symm.trans hp'
          cases hh.symm.trans hh'
          exact hof heq
      | some x =>
        obtain ⟨q, flag, body⟩ := x
        obtain ⟨-, hflag, -, rfl | rfl, rfl⟩ := unwrapCorrelated_some hu
        · have hne : ¬(correlatedHeaderSize ≤ data.length ∧ ofLE (window data 4 4) = reqFlagResp) := by
            rw [hflag]
            exact fun h => absurd h.2 (by decide)
          have houts := invoke_outputs (E := E) (s := s)
          simp only [dispatch_served handlers hu, dialerDispatch_plain handlers hne, ← served_none]
          cases hd : served handlers (data.drop correlatedHeaderSize) with
          | none =>
            cases hd' : served handlers data with
            | none => exact ⟨fun _ => rfl, fun _ => .inr ⟨rfl, rfl⟩⟩
            | some x =>
              obtain ⟨more, hout⟩ := houts x.1 x.2 (Loop.plainFrame .getOrConnect)
              exact ⟨by simp [reqFlagReq, reqFlagResp], fun heq => absurd (heq.trans hout) (by simp)⟩
          | some x =>
            refine ⟨by simp [reqFlagReq, reqFlagResp], fun heq => ?_⟩
            obtain ⟨more, hout⟩ := houts x.1 x.2 (some (writeCorrelated q reqFlagResp))
            cases hd' : served handlers data with
            | none =>
              rw [hd'] at heq
              exact absurd (hout.symm.trans heq) (by simp)
            | some y =>
              -- the two run their handlers on different messages
              rw [hd'] at heq
              obtain ⟨more', hout'⟩ := houts y.1 y.2 (Loop.plainFrame .getOrConnect)
              have hfirst := (List.cons.inj (hout.symm.trans (heq.trans hout'))).1
              have hp := (served_some.mp hd).1
              have hp' := (served_some.mp hd').1
              rw [(Output.invoked.inj hfirst).2] at hp
              exact absurd (frame_flags hp' hflag) (body_flags hp hp')
        · obtain ⟨hsame, hrun⟩ := response_alike handlers hu
          refine ⟨fun _ => ?_, fun _ => .inl rfl⟩
          rw [hsame]
          cases hd : dispatch handlers data with
          | run h msg => exact absurd hd (hrun h msg)
          | deliver q msg => rfl
          | serve h q msg => rfl
          | drop => rfl

end Turn

/-! ## Whole runs -/

/-- Every input is alike when its turn comes. -/
def LoopState.AlikeAlong : LoopState W → List Input → Prop
  | _, [] => True
  | s, i :: is => s.Alike E handlers i ∧ AlikeAlong (Loop.turn E handlers .dispatchLoop s i).1 is

/-- **When the two loops route alike**: for any inputs, handlers and writes, exactly if every frame is a response,
a request that nothing handles, or a plain message whose handler has no answer. -/
theorem loops_alike_iff (s : LoopState W) (inputs : List Input) :
    Loop.outputs E handlers .dispatchLoop s inputs = Loop.outputs E handlers .getOrConnect s inputs ↔
      s.AlikeAlong E handlers inputs := by
  induction inputs generalizing s with
  | nil => exact ⟨fun _ => trivial, fun _ => rfl⟩
  | cons i is ih =>
    obtain ⟨hto, hof⟩ := turn_alike E handlers s i
    rw [Loop.outputs, Loop.outputs, LoopState.AlikeAlong, List.cons.injEq]
    constructor
    · rintro ⟨hout, hrest⟩
      have halike := hof hout
      rw [← hto halike] at hrest
      exact ⟨halike, (ih _).mp hrest⟩
    · rintro ⟨halike, hrest⟩
      rw [← hto halike]
      exact ⟨rfl, (ih _).mpr hrest⟩

/-- A node with one handler for every type, that answers with what it is given, over a connection that takes
every write. -/
def echoing : World Unit Unit := ⟨fun _ msg w => (.reply msg, w), fun _ w => (true, w)⟩

set_option maxRecDepth 8000 in
/-- The request of a `Call` and a plain message: `dispatchLoop` answers both, the loop of `getOrConnect` drops the
first and runs the handler of the second without an answer. -/
theorem dialed_request_dropped :
    ∃ m, parse ((newBuilder 256 version2).finishWithFlags 256).1 = .ok m ∧
      Loop.outputs echoing (fun _ => some ()) .dispatchLoop ⟨(), fun _ => none, true⟩
        [.frame (wrapCorrelated 1 reqFlagReq m.data), .frame m.data] =
        [[.invoked () m, .wrote (writeCorrelated 1 reqFlagResp m.data)],
          [.invoked () m, .wrote (writeMessage m.data)]] ∧
      Loop.outputs echoing (fun _ => some ()) .getOrConnect ⟨(), fun _ => none, true⟩
        [.frame (wrapCorrelated 1 reqFlagReq m.data), .frame m.data] = [[], [.invoked () m]] := by
  exact ⟨_, rfl, rfl, rfl⟩

end Zap.Node
