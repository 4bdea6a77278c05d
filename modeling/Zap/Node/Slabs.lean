/-
# Zap.Node.Slabs — the read buffers of a node.

Every frame is read into a slab from `bufPools`, counted by a `bufRef` from `refPool`. The receive loop
that read the frame holds it while it parses, runs the handler and writes the answer. A response is handed
to the `Call` that waits for it: the loop attaches the `bufRef` to the message, retains it and sends the
message into the call's channel, or releases the message itself if nobody takes it. Then the loop releases its own
hold. The call's owner releases the message it got, once, or never.

All of this runs side by side: any number of loops and calls, each step in any order, the two `Put`s of a
release included. A message is known by the hold that was taken for it.
-/
import Zap.Lib.Path
import Zap.Lib.Refcount

namespace Zap.Slabs

open Zap.Lib

/-! ## Loops, calls and messages -/

/-- Where a receive loop is. `k` is the hold of its own, `m` the one it took for a message. -/
inductive Loop
  | top
  /-- `io.ReadFull` into the slab. -/
  | reading (k : Nat)
  /-- The frame is there, `data := ref.Bytes()`. -/
  | routing (k : Nat)
  /-- The handler runs, then its answer is written. -/
  | handling (k : Nat)
  /-- `attachToMessage` -/
  | attached (k : Nat)
  /-- `ref.retain()`, the message is yet to be sent. -/
  | offering (k m : Nat)
  /-- Nobody takes the message. -/
  | refused (k m : Nat)
  /-- `msg.Release()` has decremented the count. -/
  | dropping (k m : Nat)
  /-- About to `ref.release()`, and to return if `stop`. -/
  | leaving (k : Nat) (stop : Bool)
  /-- `ref.release()` has decremented the count. -/
  | finishing (k : Nat) (stop : Bool)
  | stopped

/-- A `Call`, with the message in its channel. -/
inductive Call
  | fresh
  /-- Registered in `pending`, and waiting. -/
  | waiting (chan : Option Nat)
  /-- About to return, still in `pending`. -/
  | returning (chan : Option Nat)
  | returned (chan : Option Nat)

structure Node (H B : Type) where
  store : Store H B
  loops : Nat → Loop
  calls : Nat → Call
  /-- The messages that calls have returned and their owners have not released. -/
  kept : Nat → Bool

inductive Event (H B : Type)
  /-- `n.ctx.Done()`, or a frame header that cannot be read. -/
  | halt (i : Nat)
  /-- `getBuf`, with the header and the slab the pools give; no slab if the frame is beyond the classes. -/
  | getBuf (i : Nat) (h : H) (b : Option B)
  | readFailed (i : Nat)
  | frameRead (i : Nat)
  /-- The frame does not parse, or nothing handles it. -/
  | discard (i : Nat)
  | handle (i : Nat)
  /-- The handler has returned, and the answer is written or fails. -/
  | handled (i : Nat) (writeFailed : Bool)
  | attach (i : Nat)
  | retain (i : Nat)
  /-- The frame names the call `c`, if any. -/
  | send (i : Nat) (c : Option Nat)
  | dropMessage (i : Nat)
  | release (i : Nat)
  /-- The release of the loop, or of its message, is over. -/
  | next (i : Nat)
  /-- `bufPools[r.class].Put(r.bufp)` in the release of the hold. -/
  | recycle (k : Nat)
  /-- `refPool.Put(r)` in the release of the hold. -/
  | shelve (k : Nat)
  | call (c : Nat)
  | receive (c : Nat)
  | cancel (c : Nat)
  | unregister (c : Nat)
  /-- The owner of a message calls `Release`. -/
  | releaseMessage (m : Nat)

variable {H B : Type}

namespace Loop

def own : Loop → Option Nat
  | reading k | routing k | handling k | attached k => some k
  | offering k _ | refused k _ | dropping k _ | leaving k _ => some k
  | top | finishing _ _ | stopped => none

def message : Loop → Option Nat
  | offering _ m | refused _ m => some m
  | _ => none

end Loop

def Call.chan : Call → Option Nat
  | fresh => none
  | waiting ch | returning ch | returned ch => ch

/-- The call is registered and its channel has room. -/
def Call.accepts : Call → Bool
  | waiting none | returning none => true
  | _ => false

def Call.put (m : Nat) : Call → Call
  | waiting _ => waiting (some m)
  | returning _ => returning (some m)
  | c => c

namespace Node

def init : Node H B := ⟨.init, fun _ => .top, fun _ => .fresh, fun _ => false⟩

def setLoop (σ : Node H B) (i : Nat) (l : Loop) : Node H B := { σ with loops := Function.update σ.loops i l }

def setCall (σ : Node H B) (c : Nat) (s : Call) : Node H B := { σ with calls := Function.update σ.calls c s }

/-- The hold was released and what follows from that is done. -/
def Over (σ : Node H B) (k : Nat) : Bool := (σ.store.holds[k]?).any fun d => d.status = .gone

end Node

/-- `select { case ch <- msg: default: ok = false }` under the lock of `pending`. -/
def sendMessage (σ : Node H B) (i k m : Nat) : Option Nat → Node H B
  | some c =>
    if (σ.calls c).accepts then
      (σ.setCall c ((σ.calls c).put m)).setLoop i (.leaving k false)
    else σ.setLoop i (.refused k m)
  | none => σ.setLoop i (.refused k m)

/-- One step of a receive loop, a call, or the owner of a message. -/
def step [DecidableEq H] [DecidableEq B] (σ : Node H B) : Event H B → Option (Node H B)
  | .halt i => match σ.loops i with
      | .top => some (σ.setLoop i .stopped)
      | _ => none
  | .getBuf i h b => match σ.loops i with
      | .top => (σ.store.get h b).map fun s =>
        { σ.setLoop i (.reading σ.store.holds.length) with store := s }
      | _ => none
  | .readFailed i => match σ.loops i with
      | .reading k => some (σ.setLoop i (.leaving k true))
      | _ => none
  | .frameRead i => match σ.loops i with
      | .reading k => some (σ.setLoop i (.routing k))
      | _ => none
  | .discard i => match σ.loops i with
      | .routing k => some (σ.setLoop i (.leaving k false))
      | _ => none
  | .handle i => match σ.loops i with
      | .routing k => some (σ.setLoop i (.handling k))
      | _ => none
  | .handled i writeFailed => match σ.loops i with
      | .handling k => some (σ.setLoop i (.leaving k writeFailed))
      | _ => none
  | .attach i => match σ.loops i with
      | .routing k => some (σ.setLoop i (.attached k))
      | _ => none
  | .retain i => match σ.loops i with
      | .attached k => (σ.store.retain k).map fun s =>
        { σ.setLoop i (.offering k σ.store.holds.length) with store := s }
      | _ => none
  | .send i c => match σ.loops i with
      | .offering k m => some (sendMessage σ i k m c)
      | _ => none
  | .dropMessage i => match σ.loops i with
      | .refused k m => (σ.store.release m).map fun s =>
        { σ.setLoop i (.dropping k m) with store := s }
      | _ => none
  | .release i => match σ.loops i with
      | .leaving k stop => (σ.store.release k).map fun s =>
        { σ.setLoop i (.finishing k stop) with store := s }
      | _ => none
  | .next i => match σ.loops i with
      | .dropping k m => if σ.Over m then some (σ.setLoop i (.leaving k false)) else none
      | .finishing k stop =>
        if σ.Over k then some (σ.setLoop i (if stop then .stopped else .top)) else none
      | _ => none
  | .recycle k => (σ.store.recycle k).map fun s => { σ with store := s }
  | .shelve k => (σ.store.shelve k).map fun s => { σ with store := s }
  | .call c => match σ.calls c with
      | .fresh => some (σ.setCall c (.waiting none))
      | _ => none
  | .receive c => match σ.calls c with
      | .waiting (some m) =>
        some { σ.setCall c (.returning none) with kept := Function.update σ.kept m true }
      | _ => none
  | .cancel c => match σ.calls c with
      | .waiting ch => some (σ.setCall c (.returning ch))
      | _ => none
  | .unregister c => match σ.calls c with
      | .returning ch => some (σ.setCall c (.returned ch))
      | _ => none
  | .releaseMessage m =>
    if σ.kept m then
      (σ.store.release m).map fun s => { σ with store := s, kept := Function.update σ.kept m false }
    else none

/-! ## Who will release a hold -/

inductive Owner
  | loop (i : Nat)
  /-- The loop, on behalf of the message it has in hand. -/
  | message (i : Nat)
  | chan (c : Nat)
  | kept (m : Nat)
  deriving DecidableEq

/-- The hold an owner will release, if any. -/
def owns (σ : Node H B) : Owner → Option Nat
  | .loop i => (σ.loops i).own
  | .message i => (σ.loops i).message
  | .chan c => (σ.calls c).chan
  | .kept m => if σ.kept m then some m else none

section Owns

variable {σ : Node H B} {i c m : Nat} {l : Loop} {s : Call}

theorem owns_setLoop :
    owns (σ.setLoop i l) =
      Function.update (Function.update (owns σ) (.loop i) l.own) (.message i) l.message := by
  funext o
  cases o with
  | loop j | message j =>
    by_cases hj : j = i
    · simp [owns, Node.setLoop, hj]
    · simp [owns, Node.setLoop, hj]
  | chan c => simp [owns, Node.setLoop]
  | kept m =>
    rw [Function.update_of_ne (by simp), Function.update_of_ne (by simp)]
    rfl

theorem owns_setLoop_same (hown : l.own = (σ.loops i).own) (hmsg : l.message = (σ.loops i).message) :
    owns (σ.setLoop i l) = owns σ := by
  have h1 : l.own = owns σ (.loop i) := hown
  have h2 : l.message = owns σ (.message i) := hmsg
  rw [owns_setLoop, h1, Function.update_eq_self, h2, Function.update_eq_self]

theorem owns_setLoop_own (hmsg : l.message = (σ.loops i).message) :
    owns (σ.setLoop i l) = Function.update (owns σ) (.loop i) l.own := by
  have h2 : l.message = Function.update (owns σ) (.loop i) l.own (.message i) := by
    simpa [owns] using hmsg
  rw [owns_setLoop, h2, Function.update_eq_self]

theorem owns_setLoop_message (hown : l.own = (σ.loops i).own) :
    owns (σ.setLoop i l) = Function.update (owns σ) (.message i) l.message := by
  have h1 : l.own = owns σ (.loop i) := hown
  rw [owns_setLoop, h1, Function.update_eq_self]

theorem owns_setCall : owns (σ.setCall c s) = Function.update (owns σ) (.chan c) s.chan := by
  funext o
  cases o with
  | chan c' =>
    by_cases hc : c' = c
    · simp [owns, Node.setCall, hc]
    · simp [owns, Node.setCall, hc]
  | loop i | message i => simp [owns, Node.setCall]
  | kept m =>
    rw [Function.update_of_ne (by simp)]
    rfl

theorem owns_setCall_same (hchan : s.chan = (σ.calls c).chan) : owns (σ.setCall c s) = owns σ := by
  have h1 : s.chan = owns σ (.chan c) := hchan
  rw [owns_setCall, h1, Function.update_eq_self]

theorem owns_keep (v : Bool) :
    owns { σ with kept := Function.update σ.kept m v } =
      Function.update (owns σ) (.kept m) (if v then some m else none) := by
  funext o
  cases o with
  | kept m' =>
    by_cases hm : m' = m
    · simp [owns, hm]
    · simp [owns, hm]
  | loop i | message i | chan c => simp [owns]

end Owns

/-! ## What a step does to the store and the owners -/

def Event.slab : Event H B → Option B
  | .getBuf _ _ b => b
  | _ => none

/-- What a step that hands out `x` can do: nothing to the holds; take one for a frame; take one for the message
of a frame; hand a message on; release a hold; or go on with a release. -/
inductive Change [DecidableEq H] [DecidableEq B] (σ τ : Node H B) : Option B → Prop
  | same (hstore : τ.store = σ.store) (howns : owns τ = owns σ) : Change σ τ none
  | get (i : Nat) (h : H) (b : Option B) (hnone : owns σ (.loop i) = none) (hget : σ.store.get h b = some τ.store)
      (howns : owns τ = Function.update (owns σ) (.loop i) (some σ.store.holds.length)) : Change σ τ b
  | retain (i k : Nat) (hk : owns σ (.loop i) = some k) (hnone : owns σ (.message i) = none)
      (hret : σ.store.retain k = some τ.store)
      (howns : owns τ = Function.update (owns σ) (.message i) (some σ.store.holds.length)) : Change σ τ none
  | hand (o o' : Owner) (k : Nat) (ho : owns σ o = some k) (hto : owns σ o' = none ∨ owns σ o' = some k)
      (hstore : τ.store = σ.store)
      (howns : owns τ = Function.update (Function.update (owns σ) o none) o' (some k)) : Change σ τ none
  | release (o : Owner) (k : Nat) (ho : owns σ o = some k) (hrel : σ.store.release k = some τ.store)
      (howns : owns τ = Function.update (owns σ) o none) : Change σ τ none
  | recycle (k : Nat) (hrec : σ.store.recycle k = some τ.store) (howns : owns τ = owns σ) : Change σ τ none
  | shelve (k : Nat) (hshelve : σ.store.shelve k = some τ.store) (howns : owns τ = owns σ) : Change σ τ none

variable {k m : Nat} {e : Event H B} {x : Option B} {tr : List (Event H B)} {σ : Node H B} {b : B}

section Changes

variable [DecidableEq H] [DecidableEq B] {σ τ : Node H B} {i : Nat}

theorem Change.moves {l l' : Loop} (hl : σ.loops i = l) (hown : l'.own = l.own) (hmsg : l'.message = l.message) :
    Change σ (σ.setLoop i l') none :=
  .same rfl (owns_setLoop_same (hl ▸ hown) (hl ▸ hmsg))

theorem sendMessage_change {c : Option Nat} (hl : σ.loops i = .offering k m) :
    Change σ (sendMessage σ i k m c) none := by
  have hrefused : Change σ (σ.setLoop i (.refused k m)) none := .moves hl rfl rfl
  cases c with
  | none => exact hrefused
  | some c =>
    show Change σ (if (σ.calls c).accepts then _ else _) none
    split_ifs with hacc
    · have hcall : (σ.calls c).chan = none ∧ ((σ.calls c).put m).chan = some m := by
        rcases hc : σ.calls c with _ | (_ | _) | (_ | _) | _ <;> simp_all [Call.accepts, Call.put, Call.chan]
      have hmsg : owns σ (.message i) = some m := congrArg Loop.message hl
      have hloop : (Loop.leaving k false).own = ((σ.setCall c ((σ.calls c).put m)).loops i).own :=
        (congrArg Loop.own hl).symm
      refine .hand (.message i) (.chan c) m hmsg (.inl hcall.1) rfl ?_
      rw [owns_setLoop_message hloop, owns_setCall, hcall.2]
      exact Function.update_comm (show Owner.chan c ≠ Owner.message i from Owner.noConfusion) (some m)
        (none : Option Nat) (owns σ)
    · exact hrefused

theorem step_change (h : step σ e = some τ) : Change σ τ e.slab := by
  cases e
  case getBuf i h' b =>
    simp only [step] at h
    split at h
    case h_1 hl =>
      obtain ⟨s, hget, rfl⟩ := Option.map_eq_some_iff.mp h
      exact .get i h' b (congrArg Loop.own hl) hget (owns_setLoop_own (by rw [hl]; rfl))
    case h_2 => cases h
  case retain i =>
    simp only [step] at h
    split at h
    case h_1 k hl =>
      obtain ⟨s, hret, rfl⟩ := Option.map_eq_some_iff.mp h
      exact .retain i k (congrArg Loop.own hl) (congrArg Loop.message hl) hret
        (owns_setLoop_message (by rw [hl]; rfl))
    case h_2 => cases h
  case send i c =>
    simp only [step] at h
    split at h <;> cases h
    case h_1 hl => exact sendMessage_change hl
  case dropMessage i =>
    simp only [step] at h
    split at h
    case h_1 k m hl =>
      obtain ⟨s, hrel, rfl⟩ := Option.map_eq_some_iff.mp h
      exact .release (.message i) m (congrArg Loop.message hl) hrel
        (owns_setLoop_message (l := .dropping k m) (by rw [hl]; rfl))
    case h_2 => cases h
  case release i =>
    simp only [step] at h
    split at h
    case h_1 k stop hl =>
      obtain ⟨s, hrel, rfl⟩ := Option.map_eq_some_iff.mp h
      exact .release (.loop i) k (congrArg Loop.own hl) hrel
        (owns_setLoop_own (l := .finishing k stop) (by rw [hl]; rfl))
    case h_2 => cases h
  case next i =>
    simp only [step] at h
    split at h
    case h_1 hl =>
      split_ifs at h
      cases h
      exact .moves hl rfl rfl
    case h_2 hl => split_ifs at h <;> cases h <;> exact .moves hl rfl rfl
    case h_3 => cases h
  case recycle k =>
    obtain ⟨s, hrec, rfl⟩ := Option.map_eq_some_iff.mp h
    exact .recycle k hrec rfl
  case shelve k =>
    obtain ⟨s, hshelve, rfl⟩ := Option.map_eq_some_iff.mp h
    exact .shelve k hshelve rfl
  case receive c =>
    simp only [step] at h
    split at h <;> cases h
    case h_1 m hc =>
      refine .hand (.chan c) (.kept m) m (congrArg Call.chan hc) ?_ rfl ?_
      · show (if σ.kept m then some m else none) = none ∨ _ = some m
        by_cases hm : σ.kept m = true
        · exact .inr (if_pos hm)
        · exact .inl (if_neg hm)
      · exact (owns_keep (σ := σ.setCall c (.returning none)) (m := m) true).trans
          (congrArg (Function.update · _ _) owns_setCall)
  case releaseMessage m =>
    simp only [step] at h
    split_ifs at h with hm
    obtain ⟨s, hrel, rfl⟩ := Option.map_eq_some_iff.mp h
    exact .release (.kept m) m (if_pos hm) hrel (owns_keep false)
  case call | cancel | unregister =>
    simp only [step] at h
    split at h <;> cases h
    case h_1 hc => exact .same rfl (owns_setCall_same (by rw [hc]; rfl))
  -- what is left moves one loop
  all_goals
    simp only [step] at h
    split at h <;> cases h
    case h_1 hl => exact .moves hl rfl rfl

end Changes

/-- The counts are right, and every open hold has at most one owner, who will release it. -/
structure Good [DecidableEq H] (σ : Node H B) : Prop where
  sound : σ.store.Sound
  owned : σ.store.Disciplined (owns σ)

namespace Good

variable [DecidableEq H] {σ τ : Node H B}

theorem init : Good (Node.init : Node H B) where
  sound := Store.Sound.init
  owned := by
    constructor
    · intro o k ho
      cases o <;> cases ho
    · intro o o' k ho
      cases o <;> cases ho

variable [DecidableEq B]

/-- **Every step keeps the books and the discipline.** -/
theorem change (hg : Good σ) (h : Change σ τ x) : Good τ := by
  cases h with
  | same hstore howns => exact ⟨hstore ▸ hg.sound, by rw [hstore, howns]; exact hg.owned⟩
  | get i h _ hnone hget howns =>
    exact ⟨hg.sound.get hget, howns ▸ hg.owned.fresh (Store.get_holds hget) rfl⟩
  | retain i k hk hnone hret howns =>
    obtain ⟨d, hkd, hheld⟩ := hg.owned.held (.loop i) k hk
    obtain ⟨d', -, hholds⟩ := Store.retain_holds hret
    exact ⟨hg.sound.retain hkd hheld hret, howns ▸ hg.owned.fresh hholds rfl⟩
  | hand o o' k ho _ hstore howns =>
    exact ⟨hstore ▸ hg.sound, by rw [hstore, howns]; exact hg.owned.hand ho⟩
  | release o k ho hrel howns =>
    obtain ⟨d, hk, hd⟩ := hg.owned.held o k ho
    exact ⟨hg.sound.release hk hd hrel, howns ▸ hg.owned.release ho hrel⟩
  | recycle k hrec howns =>
    obtain ⟨d, hk, hd, hholds⟩ := Store.recycle_holds hrec
    exact ⟨hg.sound.recycle hrec, howns ▸ hg.owned.mark _ hholds (hg.owned.not_owned hk (by simp [hd]))⟩
  | shelve k hshelve howns =>
    obtain ⟨d, hk, hd, hholds⟩ := Store.shelve_holds hshelve
    exact ⟨hg.sound.shelve hshelve, howns ▸ hg.owned.mark _ hholds (hg.owned.not_owned hk (by simp [hd]))⟩

end Good

variable [DecidableEq H] [DecidableEq B]

def Run : List (Event H B) → Node H B → Prop := Path (fun s e t => step s e = some t) Node.init

theorem Run.good (h : Run tr σ) : Good σ := Path.invariant (fun hg hstep => hg.change (step_change hstep)) h .init

/-! ## What goes back to the pool -/

def Event.hands (b : B) : Event H B → Bool
  | .getBuf _ _ (some b') => b' = b
  | _ => false

omit [DecidableEq H] in
theorem Event.hands_iff : e.hands b = true ↔ e.slab = some b := by
  cases e with
  | getBuf i h x => cases x <;> simp [hands, slab]
  | _ => simp [hands, slab]

theorem Change.accounts {τ : Node H B} (h : Change σ τ x) (b : B) :
    τ.store.gets b = σ.store.gets b + (if x = some b then 1 else 0) ∧
      (τ.store.puts b = σ.store.puts b ∨
        (σ.store.Closing b ∧ τ.store.puts b = σ.store.puts b + 1)) := by
  have hsame : τ.store.gets = σ.store.gets ∧ τ.store.puts = σ.store.puts →
      τ.store.gets b = σ.store.gets b + 0 ∧ (τ.store.puts b = σ.store.puts b ∨
        (σ.store.Closing b ∧ τ.store.puts b = σ.store.puts b + 1)) :=
    fun ⟨hg, hp⟩ => ⟨by rw [hg, Nat.add_zero], .inl (by rw [hp])⟩
  cases h with
  | get i h _ _ hget =>
    obtain ⟨hgets, hputs⟩ := Store.get_accounts hget b
    exact ⟨hgets, .inl hputs⟩
  | recycle k hrec => exact Store.recycle_accounts hrec b
  | shelve k hshelve => exact hsame (Store.shelve_unmoved hshelve).accounts
  | retain i k _ _ hret => exact hsame (Store.retain_unmoved hret).accounts
  | release o k _ hrel => exact hsame (Store.release_unmoved hrel).accounts
  | same hstore | hand o o' k _ _ hstore => exact hsame (hstore ▸ ⟨rfl, rfl⟩)

/-- The message has not been released by its owner: a loop has it in hand, it lies in the channel of a call,
or a call has returned it. -/
def Unreleased (σ : Node H B) (m : Nat) : Prop :=
  (∃ i, (σ.loops i).message = some m) ∨ (∃ c, (σ.calls c).chan = some m) ∨ σ.kept m = true

def RefersTo (σ : Node H B) (k : Nat) (b : B) : Prop := ∃ d, σ.store.holds[k]? = some d ∧ d.block = some b

omit [DecidableEq B] in
theorem Good.not_refersTo (hg : Good σ) (hb : σ.store.Closing b) {o : Owner} (ho : owns σ o = some k) :
    ¬RefersTo σ k b := by
  rintro ⟨e, hk, hblock⟩
  obtain ⟨j, d, hj, hlast, hd⟩ := hb
  obtain ⟨e', hk', hheld⟩ := hg.owned.held o k ho
  cases hk.symm.trans hk'
  exact hg.sound.unreferenced hj hlast hd hk hheld hblock

omit [DecidableEq H] [DecidableEq B] in
theorem Unreleased.owned (h : Unreleased σ m) : ∃ o, owns σ o = some m := by
  rcases h with ⟨i, hi⟩ | ⟨c, hc⟩ | hm
  · exact ⟨.message i, hi⟩
  · exact ⟨.chan c, hc⟩
  · exact ⟨.kept m, if_pos hm⟩

theorem Run.gets_eq (h : Run tr σ) (b : B) : σ.store.gets b = tr.countP (Event.hands b) := by
  induction h using Path.concat_induction with
  | init => rfl
  | snoc _ hstep ih =>
    rw [((step_change hstep).accounts b).1, ih, List.countP_append, List.countP_singleton]
    simp only [Event.hands_iff]

/-- **Slabs are not recycled while referenced.**  After any steps of any loops, calls and owners: a slab
has come back at most once for each `getBuf` that handed it out; and a step that puts it back finds that
no receive loop, in particular none whose handler runs, and no message yet to be released refers to it. -/
theorem recycled_unreferenced {tr : List (Event H B)} {σ : Node H B} (h : Run tr σ) (b : B) :
    (σ.store.puts b ≤ tr.countP (Event.hands b) ∧ tr.countP (Event.hands b) ≤ σ.store.puts b + 1) ∧
      ∀ e τ, step σ e = some τ → τ.store.puts b ≠ σ.store.puts b →
        τ.store.puts b = σ.store.puts b + 1 ∧
          (∀ i k, (σ.loops i).own = some k → ¬RefersTo σ k b) ∧
          ∀ m, Unreleased σ m → ¬RefersTo σ m b := by
  have hg := h.good
  constructor
  · rw [← h.gets_eq b]
    obtain ⟨haway, hhome⟩ := hg.sound.balance b
    by_cases hb : σ.store.blocks.Away b
    · have := haway hb
      omega
    · have := hhome hb
      omega
  · intro e τ hstep hputs
    rcases ((step_change hstep).accounts b).2 with hsame | ⟨hclosing, hput⟩
    · exact absurd hsame hputs
    refine ⟨hput, ?_, ?_⟩
    · intro i k hown
      exact hg.not_refersTo hclosing (o := .loop i) hown
    · intro m hm
      obtain ⟨o, ho⟩ := hm.owned
      exact hg.not_refersTo hclosing ho

/-- One answered call: the loop and then the owner of the response let the slab go. -/
def answered : List (Event Nat Nat) :=
  [.call 0, .getBuf 0 0 (some 0), .frameRead 0, .attach 0, .retain 0, .send 0 (some 0), .release 0,
    .next 0, .receive 0, .unregister 0, .releaseMessage 1]

/-- After it the slab goes back, once, with nothing that refers to it. -/
theorem answered_recycled : ∃ σ τ, Run answered σ ∧ step σ (.recycle 1) = some τ ∧
    τ.store.puts 0 = 1 ∧ σ.store.puts 0 + 1 = answered.countP (Event.hands 0) ∧
    ∀ m, Unreleased σ m → ¬RefersTo σ m 0 := by
  have hrun : Run answered _ := Path.foldlM_iff.mpr rfl
  refine ⟨_, _, hrun, rfl, rfl, rfl, ?_⟩
  exact ((recycled_unreferenced hrun 0).2 (.recycle 1) _ rfl (by decide)).2.2

end Zap.Slabs
