/-
# Zap.Handshake.Server — any number of responders on one clock, one replay cache and one PSK store.

Each connection runs a `Responder`; their events interleave freely, with clock advances and `Sweep` calls in
between. `CheckTimestamp` and `SeenOrAdd` are not atomic together: a connection reads the clock, and other
lines of the log may come before its next request. What is under a lock in the source is one line here.

The results about the server (`Admission`, `Resumption`, `ReplayOnce`) combine what a connection has done by
the time it touches the shared state, known from its own trace, with invariants of the log.
-/
import Zap.Handshake.Meeting
import Zap.Lib.Pool

namespace Zap.Handshake

open Zap.Lib Zap.Lib.Proc

variable {C : Prims}

/-! ## The shared state -/

structure World where
  clock : Int
  cache : ReplayCache
  store : PskStore

/-- The requests a connection answers for itself: its wire, its entropy, its keys. -/
def Req.Own : Req C → Prop
  | .now | .seenOrAdd .. | .issue .. | .redeem _ => False
  | _ => True

/-- How the shared state answers. -/
inductive Serves : World → Event C → World → Prop
  | now (w : World) : Serves w (clock w.clock) w
  | seenOrAdd (w : World) (t : Int) (key : ReplayKey) :
      Serves w (seenEv t key (w.cache.seenOrAdd t key).1)
        { w with cache := (w.cache.seenOrAdd t key).2 }
  | issue (w : World) (id : Arr pskIDLen) (psk : Arr pskKeyLen) (clientID : Arr idLen) :
      Serves w ⟨.issue id psk clientID, ()⟩ { w with store := w.store.issue w.clock id psk clientID }
  | redeem (w : World) (id : Arr pskIDLen) :
      Serves w ⟨.redeem id, (w.store.redeem w.clock id).1⟩
        { w with store := (w.store.redeem w.clock id).2 }
  | own (w : World) (e : Event C) (h : e.req.Own) : Serves w e w

inductive Chore
  | tick (d : Nat)
  | sweepCache
  | sweepStore

inductive Moves : World → Chore → World → Prop
  | tick (w : World) (d : Nat) : Moves w (.tick d) { w with clock := w.clock + d }
  | sweepCache (w : World) : Moves w .sweepCache { w with cache := w.cache.sweep w.clock }
  | sweepStore (w : World) : Moves w .sweepStore { w with store := w.store.sweep w.clock }

variable {ι : Type}

abbrev Log (ι : Type) (C : Prims) := List (Line ι Chore (pkg C))

abbrev ServerStep : World → Line ι Chore (pkg C) → World → Prop := PoolStep Serves Moves

/-- A run of the server, with connection `c` served by `rs c`. -/
abbrev ServerRun [DecidableEq ι] (rs : ι → Responder C) (w₀ : World) (log : Log ι C) (w : World) : Prop :=
  PoolRun Serves Moves (fun c => (rs c).run.run) w₀ log w

/-! ## What one line does -/

variable {t : Int} {a : Line ι Chore (pkg C)} {log : Log ι C} {w w' w₀ : World} {c : ι}

section Lines

variable {w w' : World}

theorem serves_clock (h : Serves w (clock t : Event C) w') : t = w.clock ∧ w' = w := by
  cases h with
  | now => exact ⟨rfl, rfl⟩
  | own _ hown => exact hown.elim

theorem serves_seen {key : ReplayKey} {seen : Bool} (h : Serves w (seenEv t key seen : Event C) w') :
    seen = (w.cache.seenOrAdd t key).1 ∧ w' = { w with cache := (w.cache.seenOrAdd t key).2 } := by
  cases h with
  | seenOrAdd => exact ⟨rfl, rfl⟩
  | own _ hown => exact hown.elim

variable {id : Arr pskIDLen} {w₁ w₂ : World}

theorem serves_issue {psk : Arr pskKeyLen} {clientID : Arr idLen}
    (h : Serves w (⟨.issue id psk clientID, ()⟩ : Event C) w') :
    w' = { w with store := w.store.issue w.clock id psk clientID } := by
  cases h with
  | issue => rfl
  | own _ hown => exact hown.elim

theorem serves_redeem {found : Option (Arr pskKeyLen × Arr idLen)} (h : Serves w (⟨.redeem id, found⟩ : Event C) w') :
    found = (w.store.redeem w.clock id).1 ∧ w' = { w with store := (w.store.redeem w.clock id).2 } := by
  cases h with
  | redeem => exact ⟨rfl, rfl⟩
  | own _ hown => exact hown.elim

theorem serves_det {e : Event C} (h1 : Serves w e w₁) (h2 : Serves w e w₂) : w₁ = w₂ := by
  cases h1 with
  | now => exact (serves_clock h2).2.symm
  | seenOrAdd => exact (serves_seen h2).2.symm
  | issue => exact (serves_issue h2).symm
  | redeem => exact (serves_redeem h2).2.symm
  | own _ hown =>
    cases h2 with
    | own => rfl
    | _ => exact hown.elim

theorem step_det (h1 : ServerStep w a w₁) (h2 : ServerStep w a w₂) : w₁ = w₂ := by
  cases a with
  | proc c e => exact serves_det h1 h2
  | env ch =>
    cases (h1 : Moves w ch w₁) <;> cases h2 <;> rfl

theorem path_det (h1 : Path ServerStep w log w₁) (h2 : Path ServerStep w log w₂) : w₁ = w₂ := by
  refine Path.det ?_ h1 h2
  exact step_det

end Lines

/-! ## The clock -/

theorem step_clock (h : ServerStep w a w') : w.clock ≤ w'.clock := by
  cases a with
  | proc c e =>
    cases (h : Serves w e w') <;> exact le_refl _
  | env ch =>
    cases (h : Moves w ch w') with
    | tick d => exact Int.le_add_of_nonneg_right (Int.natCast_nonneg d)
    | sweepCache => exact le_refl _
    | sweepStore => exact le_refl _

theorem path_clock (h : Path ServerStep w log w') : w.clock ≤ w'.clock := by
  induction h with
  | nil => exact le_refl _
  | cons hstep _ ih => exact le_trans (step_clock hstep) ih

theorem reading_bounds [DecidableEq ι] (h : Path ServerStep w₀ log w) (ht : clock t ∈ traceOf c log) :
    w₀.clock ≤ t ∧ t ≤ w.clock := by
  obtain ⟨pre, post, rfl⟩ := List.append_of_mem (mem_traceOf.mp ht)
  obtain ⟨w₁, hpre, hrest⟩ := Path.append_iff.mp h
  obtain ⟨w₂, hstep, hpost⟩ := Path.cons_iff.mp hrest
  obtain ⟨rfl, -⟩ := serves_clock hstep
  exact ⟨path_clock hpre, le_trans (step_clock hstep) (path_clock hpost)⟩

theorem reading_order [DecidableEq ι] {t' : Int} {a b : List (Event C)} (h : Path ServerStep w₀ log w)
    (ht : traceOf c log = a ++ clock t :: b) (ht' : clock t' ∈ b) : t ≤ t' := by
  obtain ⟨pre, post, rfl, -, rfl⟩ := traceOf_eq_append ht
  obtain ⟨w₁, -, hrest⟩ := Path.append_iff.mp h
  obtain ⟨w₂, hstep, hpost⟩ := Path.cons_iff.mp hrest
  obtain ⟨rfl, rfl⟩ := serves_clock hstep
  exact (reading_bounds hpost ht').1

/-! ## A log evaluated -/

/-- The shared state after a line, if it is one of the server's. -/
def World.line (w : World) : Line ι Chore (pkg C) → Option World
  | .proc _ ⟨.now, t⟩ => if t = w.clock then some w else none
  | .proc _ ⟨.seenOrAdd t key, seen⟩ =>
    if seen = (w.cache.seenOrAdd t key).1 then some { w with cache := (w.cache.seenOrAdd t key).2 } else none
  | .proc _ ⟨.issue id psk clientID, _⟩ => some { w with store := w.store.issue w.clock id psk clientID }
  | .proc _ ⟨.redeem id, found⟩ =>
    if found = (w.store.redeem w.clock id).1 then some { w with store := (w.store.redeem w.clock id).2 } else none
  | .proc _ _ => some w
  | .env (.tick d) => some { w with clock := w.clock + d }
  | .env .sweepCache => some { w with cache := w.cache.sweep w.clock }
  | .env .sweepStore => some { w with store := w.store.sweep w.clock }

theorem step_of_line (h : w.line a = some w') : ServerStep w a w' := by
  obtain ⟨c, r, x⟩ | ⟨_ | _ | _⟩ := a
  · cases r with
    | now =>
      obtain ⟨rfl, ⟨⟩⟩ := Option.ite_none_right_eq_some.mp h
      exact .now w
    | seenOrAdd t key =>
      obtain ⟨rfl, ⟨⟩⟩ := Option.ite_none_right_eq_some.mp h
      exact .seenOrAdd w t key
    | issue id psk clientID =>
      cases h
      exact .issue w id psk clientID
    | redeem id =>
      obtain ⟨rfl, ⟨⟩⟩ := Option.ite_none_right_eq_some.mp h
      exact .redeem w id
    | _ =>
      cases h
      exact .own w _ trivial
  · cases h
    exact .tick w _
  · cases h
    exact .sweepCache w
  · cases h
    exact .sweepStore w

theorem path_of_lines (h : log.foldlM World.line w = some w') : Path ServerStep w log w' :=
  (Path.foldlM_iff.mpr h).mono step_of_line

def sampleWorld : World := ⟨0, newReplayCache 0, newPskStore⟩

end Zap.Handshake
