/-
# Zap.Forwarding.Push — the registry of push sinks (`forward/client.go`).

One map from connection ids to sinks is shared by the handlers of inbound pushes and by the code that opens
and closes client connections. A handler loads the sink of its push, delivers to it, and after an error
deletes the entry of the id, whatever stands there by then.
-/
import Zap.Forwarding.Envelope
import Zap.Lib.Pool

namespace Zap.Forwarding

open Zap.Lib Zap.Wire

variable {σ ι : Type}

/-! ## The handler -/

inductive PushReq (σ : Type)
  | load (connID : Str)
  | deliver (sink : σ) (p : Push)
  | delete (connID : Str)

/-- A loaded value may be a nil sink; a delivery answers with its error. -/
def PushReq.Resp : PushReq σ → Type
  | .load _ => Option (Option σ)
  | .deliver .. => Option String
  | .delete _ => Unit

def pushSig (σ : Type) : Sig := ⟨PushReq σ, PushReq.Resp⟩

def handleReversePush (msg : Message) : Prog (pushSig σ) (Go (Option String)) :=
  match readPush msg with
  | .error f => .ret (.error f)
  | .ok p =>
    .ask (.load p.connID) fun
      | some (some sink) => .ask (.deliver sink p) fun
        | some err => .ask (.delete p.connID) fun _ => .ret (.ok (some err))
        | none => .ret (.ok none)
      | _ => .ret (.ok none)

/-- A handler deletes only after it has loaded a sink under that id and failed to deliver to it. -/
theorem delete_after {msg : Message} {id : Str} {x : Unit} {a b : List (Ev (pushSig σ))}
    {q : Prog (pushSig σ) (Go (Option String))}
    (h : Prog.Reach (handleReversePush msg) (a ++ ⟨.delete id, x⟩ :: b) q) :
    ∃ sink p err, a = [⟨.load id, some (some sink)⟩, ⟨.deliver sink p, some err⟩] := by
  obtain ⟨q', ha, hb⟩ := h.split
  obtain ⟨k, rfl⟩ : ∃ k, q' = .ask (.delete id) k := by
    cases hb
    exact ⟨_, rfl⟩
  unfold handleReversePush at ha
  cases hp : readPush msg with
  | error f =>
    rw [hp] at ha
    cases ha
  | ok p =>
    rw [hp] at ha
    cases ha with
    | @step _ _ found _ _ ha =>
      obtain _ | _ | sink := found
      · cases ha
      · cases ha
      · cases ha with
        | @step _ _ answer _ _ ha =>
          obtain _ | err := answer
          · cases ha
          · cases ha with
            | here => exact ⟨sink, p, err, rfl⟩
            | step ha => cases ha

/-! ## The registry under any interleaving -/

abbrev PushRegistry (σ : Type) := Str → Option (Option σ)

inductive PushMove (σ : Type)
  | register (connID : Str) (sink : Option σ)
  | unregister (connID : Str)

/-- `Load` and `Delete`; a delivery leaves the registry alone. -/
def PushRegistry.serves (w : PushRegistry σ) : Ev (pushSig σ) → PushRegistry σ → Prop
  | ⟨.load id, found⟩, w' => found = w id ∧ w' = w
  | ⟨.deliver .., _⟩, w' => w' = w
  | ⟨.delete id, _⟩, w' => w' = Function.update w id none

def PushRegistry.moves (w : PushRegistry σ) : PushMove σ → PushRegistry σ → Prop
  | .register id sink, w' => w' = Function.update w id (some sink)
  | .unregister id, w' => w' = Function.update w id none

abbrev PushLine (ι σ : Type) := Line ι (PushMove σ) (pushSig σ)

abbrev PushStep (ι σ : Type) : PushRegistry σ → PushLine ι σ → PushRegistry σ → Prop :=
  PoolStep PushRegistry.serves PushRegistry.moves

def entryAfter (id : Str) (entry : Option (Option σ)) : PushLine ι σ → Option (Option σ)
  | .proc _ ⟨.delete id', _⟩ => if id = id' then none else entry
  | .env (.register id' sink) => if id = id' then some sink else entry
  | .env (.unregister id') => if id = id' then none else entry
  | _ => entry

theorem step_entry {w w' : PushRegistry σ} {l : PushLine ι σ} (h : PushStep ι σ w l w') (id : Str) :
    w' id = entryAfter id (w id) l := by
  match l with
  | .proc _ ⟨.load _, _⟩ => exact congrFun h.2 id
  | .proc _ ⟨.deliver .., _⟩ => exact congrFun h id
  | .proc _ ⟨.delete id', _⟩ => exact (congrFun h id).trans (Function.update_apply ..)
  | .env (.register id' sink) => exact (congrFun h id).trans (Function.update_apply ..)
  | .env (.unregister id') => exact (congrFun h id).trans (Function.update_apply ..)

theorem path_entry {w w' : PushRegistry σ} {log : List (PushLine ι σ)} (h : Path (PushStep ι σ) w log w')
    (id : Str) : w' id = log.foldl (entryAfter id) (w id) := by
  induction h with
  | nil => rfl
  | cons hstep _ ih => rw [List.foldl_cons, ← step_entry hstep id, ih]

variable [DecidableEq ι]

/-- What may take `sink` out of the entry of `id`: it is unregistered, it is replaced, or the handler whose
delivery to that very sink has failed deletes it. -/
def MayTake (before : List (PushLine ι σ)) (id : Str) (sink : Option σ) : PushLine ι σ → Prop
  | .env (.register id' _) => id' = id
  | .env (.unregister id') => id' = id
  | .proc c ⟨.delete _, _⟩ =>
    ∃ s p err, sink = some s ∧ ⟨.deliver s p, some err⟩ ∈ traceOf c before
  | _ => False

def NoneDropped (w₀ : PushRegistry σ) (log : List (PushLine ι σ)) : Prop :=
  ∀ pre l w w' id sink, Path.Occurs (PushStep ι σ) w₀ log pre l w → PushStep ι σ w l w' →
    w id = some sink → w' id ≠ some sink → MayTake pre id sink l

/-- Between a handler's load of a sink and its deletion no other sink has come to stand under the id. -/
def NoneRegisteredBetween (log : List (PushLine ι σ)) : Prop :=
  ∀ pre mid post c id sink x,
    log = pre ++ .proc c ⟨.load id, some (some sink)⟩ :: (mid ++ .proc c ⟨.delete id, x⟩ :: post) →
    ∀ other, mid.foldl (entryAfter id) (some (some sink)) = some other → other = some sink

/-- A push that fails drops only the sink it failed on exactly when no other sink is registered between the
lookup and the deletion. -/
theorem none_dropped_iff {msgs : ι → Message} {w₀ w : PushRegistry σ} {log : List (PushLine ι σ)}
    (h : PoolRun PushRegistry.serves PushRegistry.moves (fun c => handleReversePush (msgs c)) w₀ log w) :
    NoneDropped w₀ log ↔ NoneRegisteredBetween log := by
  constructor
  · rintro hdropped pre mid post c id sink x rfl other hother
    obtain ⟨w₁, hpre, hrest⟩ := Path.append_iff.mp h.steps
    obtain ⟨w₂, ⟨hfound, rfl⟩, hlater⟩ := Path.cons_iff.mp hrest
    obtain ⟨w₃, hmid, hlast⟩ := Path.append_iff.mp hlater
    obtain ⟨w₄, hdelete, -⟩ := Path.cons_iff.mp hlast
    have hstands : w₃ id = some other := by
      rw [path_entry hmid, ← hfound, hother]
    have hgone : w₄ id ≠ some other := by
      rw [step_entry hdelete, entryAfter, if_pos rfl]
      simp
    have hoccurs : Path.Occurs (PushStep ι σ) w₀
        (pre ++ .proc c ⟨.load id, some (some sink)⟩ :: (mid ++ .proc c ⟨.delete id, x⟩ :: post))
        (pre ++ .proc c ⟨.load id, some (some sink)⟩ :: mid) (.proc c ⟨.delete id, x⟩) w₃ :=
      ⟨⟨post, by simp⟩, Path.append_iff.mpr ⟨_, hpre, .cons ⟨hfound, rfl⟩ hmid⟩⟩
    obtain ⟨s, p, err, rfl, hfailed⟩ := hdropped _ _ w₃ w₄ id other hoccurs hdelete hstands hgone
    -- the handler has loaded `sink` and delivered to nothing else
    obtain ⟨q, hq⟩ := h.procs c
    rw [traceOf_append, traceOf_proc_self, traceOf_append, traceOf_proc_self, ← List.cons_append,
      ← List.append_assoc] at hq
    obtain ⟨s', p', err', htrace⟩ := delete_after hq
    have hloaded : (⟨.load id, some (some sink)⟩ : Ev (pushSig σ)) ∈
        traceOf c pre ++ ⟨.load id, some (some sink)⟩ :: traceOf c mid := by
      simp
    rw [traceOf_append, traceOf_proc_self] at hfailed
    rw [htrace] at hfailed hloaded
    grind
  · rintro hbetween pre l w₁ w₂ id sink ⟨⟨post, rfl⟩, hpre⟩ hstep hstands hgone
    rw [step_entry hstep, hstands] at hgone
    cases l with
    | env a =>
      cases a with
      | register id' _ => exact Eq.symm (by_contra fun hne => hgone (if_neg hne))
      | unregister id' => exact Eq.symm (by_contra fun hne => hgone (if_neg hne))
    | proc c e =>
      obtain ⟨r, x⟩ := e
      cases r with
      | load _ | deliver => exact hgone rfl
      | delete id' =>
        obtain rfl : id = id' := by_contra fun hne => hgone (if_neg hne)
        obtain ⟨q, hq⟩ := h.procs c
        rw [traceOf_append, traceOf_proc_self] at hq
        obtain ⟨s, p, err, htrace⟩ := delete_after hq
        obtain ⟨before, mid, rfl, -, -⟩ := traceOf_eq_append (a := []) htrace
        obtain ⟨w₃, -, hrest⟩ := Path.append_iff.mp hpre
        obtain ⟨w₄, ⟨hfound, rfl⟩, hmid⟩ := Path.cons_iff.mp hrest
        have hentry : mid.foldl (entryAfter id) (some (some s)) = some sink := by
          rw [hfound, ← path_entry hmid, hstands]
        refine ⟨s, p, err, hbetween before mid post c id s x (by simp) sink hentry, ?_⟩
        rw [htrace]
        exact List.mem_cons_of_mem _ List.mem_cons_self

def samplePush : Push := ⟨[1], [2], []⟩

/-- The sink `0` fails; while it does, the client comes back with the sink `1`. -/
def overtaken : List (PushLine Unit Nat) :=
  [.env (.register [1] (some 0)), .proc () ⟨.load [1], some (some 0)⟩, .env (.register [1] (some 1)),
    .proc () ⟨.deliver 0 samplePush, some "gone"⟩, .proc () ⟨.delete [1], ()⟩]

theorem overtaken_run : ∃ msg w, PoolRun PushRegistry.serves PushRegistry.moves
    (fun _ => handleReversePush msg) (fun _ => none) overtaken w := by
  obtain ⟨msg, -, -, -, hread⟩ := push_carries samplePush (by decide)
  refine ⟨msg, _, .cons rfl (.cons ⟨rfl, rfl⟩ (.cons rfl (.cons rfl (.cons rfl (.nil _))))), fun _ => ?_⟩
  unfold handleReversePush
  rw [hread]
  exact ⟨_, .step (.step (.step (.here _)))⟩

theorem overtaken_decided : ∃ msg w, PoolRun PushRegistry.serves PushRegistry.moves
    (fun _ => handleReversePush msg) (fun _ => none) overtaken w ∧
      (NoneDropped (fun _ => none) overtaken ↔ NoneRegisteredBetween overtaken) := by
  obtain ⟨msg, w, h⟩ := overtaken_run
  exact ⟨msg, w, h, none_dropped_iff h⟩

/-- The deletion takes the sink `1`, to which nothing was delivered. -/
theorem newer_sink_dropped : ∃ msg w, PoolRun PushRegistry.serves PushRegistry.moves
    (fun _ => handleReversePush msg) (fun _ => none) overtaken w ∧
      ¬NoneDropped (fun _ => none) overtaken := by
  obtain ⟨msg, w, h⟩ := overtaken_run
  refine ⟨msg, w, h, fun hdropped => ?_⟩
  have hpath : Path (PushStep Unit Nat) (fun _ => none) (overtaken.take 4) _ :=
    .cons rfl (.cons ⟨rfl, rfl⟩ (.cons rfl (.cons rfl (.nil _))))
  obtain ⟨s, p, err, hs, hfailed⟩ := hdropped (overtaken.take 4) (.proc () ⟨.delete [1], ()⟩) _ _ [1] (some 1)
    ⟨⟨[], rfl⟩, hpath⟩ rfl rfl nofun
  cases hs
  obtain _ | ⟨_, _ | ⟨_, _ | _⟩⟩ := hfailed

end Zap.Forwarding
