/-
# Zap.Lib.Pool — programs that run side by side on a shared state.

A pool runs one program per index. Its log interleaves, in any order, the events of the programs and the
moves of the environment; each event must be an answer the shared state gives (`serves`) and the events of
one index, taken by themselves, must be a trace of its program. Facts about a program's own traces are
thereby facts about every interleaving, and facts about the shared state are proved along the log.
-/
import Zap.Lib.Prog

namespace Zap.Lib

/-- A line of the log: an event of one program, or a move of the environment. -/
inductive Line (ι τ : Type) (S : Sig)
  | proc (c : ι) (e : Ev S)
  | env (a : τ)

variable {ι τ ω α : Type} {S : Sig}

def Line.of [DecidableEq ι] (c : ι) : Line ι τ S → Option (Ev S)
  | .proc c' e => if c' = c then some e else none
  | .env _ => none

def traceOf [DecidableEq ι] (c : ι) (log : List (Line ι τ S)) : List (Ev S) := log.filterMap (Line.of c)

variable {c' c : ι} {a b evs : List (Ev S)}

section Trace

variable [DecidableEq ι] {c : ι} {e : Ev S} {log log' : List (Line ι τ S)}

@[simp]
theorem traceOf_nil : traceOf c ([] : List (Line ι τ S)) = [] := rfl

@[simp]
theorem traceOf_append : traceOf c (log ++ log') = traceOf c log ++ traceOf c log' := List.filterMap_append

@[simp]
theorem traceOf_proc_self : traceOf c (.proc c e :: log) = e :: traceOf c log := by
  simp [traceOf, Line.of]

theorem traceOf_proc_ne (h : c' ≠ c) : traceOf c (.proc c' e :: log) = traceOf c log := by
  simp [traceOf, Line.of, h]

@[simp]
theorem traceOf_env {a : τ} : traceOf c (.env a :: log) = traceOf c log := rfl

theorem mem_traceOf : e ∈ traceOf c log ↔ .proc c e ∈ log := by
  unfold traceOf
  rw [List.mem_filterMap]
  constructor
  · rintro ⟨a, ha, hof⟩
    cases a with
    | env t => cases hof
    | proc c' e' =>
      simp only [Line.of, Option.ite_none_right_eq_some, Option.some.injEq] at hof
      obtain ⟨rfl, rfl⟩ := hof
      exact ha
  · intro h
    exact ⟨_, h, by simp [Line.of]⟩

/-- A place in a program's trace is a place in the log. -/
theorem traceOf_eq_append (h : traceOf c log = a ++ e :: b) :
    ∃ pre post, log = pre ++ .proc c e :: post ∧ traceOf c pre = a ∧ traceOf c post = b := by
  induction log generalizing a with
  | nil => simp at h
  | cons x log ih =>
    -- either the line is not one of `c`'s, or it is the first event of the trace
    have hskip : traceOf c [x] = [] →
        ∃ pre post, x :: log = pre ++ .proc c e :: post ∧ traceOf c pre = a ∧ traceOf c post = b := by
      intro hx
      have hrest : traceOf c log = a ++ e :: b := by
        rw [← List.singleton_append, traceOf_append, hx] at h
        exact h
      obtain ⟨pre, post, rfl, hpre, hpost⟩ := ih hrest
      refine ⟨x :: pre, post, rfl, ?_, hpost⟩
      rw [← List.singleton_append, traceOf_append, hx, hpre, List.nil_append]
    cases x with
    | env t => exact hskip rfl
    | proc c' e' =>
      by_cases hc : c' = c
      · subst hc
        rw [traceOf_proc_self] at h
        cases a with
        | nil =>
          obtain ⟨rfl, hb⟩ := List.cons.inj h
          exact ⟨[], log, rfl, rfl, hb⟩
        | cons x a =>
          obtain ⟨rfl, hrest⟩ := List.cons.inj h
          obtain ⟨pre, post, rfl, rfl, hpost⟩ := ih hrest
          exact ⟨.proc c' e' :: pre, post, rfl, traceOf_proc_self, hpost⟩
      · exact hskip (by simp [traceOf, Line.of, hc])

end Trace

/-- One line of the log: the shared state answers an event, or the environment moves. -/
def PoolStep (serves : ω → Ev S → ω → Prop) (moves : ω → τ → ω → Prop) (w : ω) :
    Line ι τ S → ω → Prop
  | .proc _ e, w' => serves w e w'
  | .env a, w' => moves w a w'

/-- What the shared state answers one program is a log in which only that program acts. -/
theorem path_proc {serves : ω → Ev S → ω → Prop} {moves : ω → τ → ω → Prop} {w w' : ω} (c : ι)
    (h : Path serves w evs w') : Path (PoolStep serves moves) w (evs.map (.proc c)) w' := by
  induction h with
  | nil w => exact .nil w
  | cons hserve _ ih => exact .cons hserve ih

theorem traceOf_map_proc [DecidableEq ι] (c : ι) (evs : List (Ev S)) :
    traceOf c (evs.map (Line.proc (τ := τ) c)) = evs := by
  induction evs with
  | nil => rfl
  | cons e evs ih => rw [List.map_cons, traceOf_proc_self, ih]

theorem traceOf_map_proc_ne [DecidableEq ι] (h : c' ≠ c) (evs : List (Ev S)) :
    traceOf c (evs.map (Line.proc (τ := τ) c')) = [] := by
  induction evs with
  | nil => rfl
  | cons e evs ih => rw [List.map_cons, traceOf_proc_ne h, ih]

structure PoolRun [DecidableEq ι] (serves : ω → Ev S → ω → Prop) (moves : ω → τ → ω → Prop) (progs : ι → Prog S α)
    (w₀ : ω) (log : List (Line ι τ S)) (w : ω) : Prop where
  steps : Path (PoolStep serves moves) w₀ log w
  procs : ∀ c, ∃ q, Prog.Reach (progs c) (traceOf c log) q

namespace PoolRun

variable [DecidableEq ι] {serves : ω → Ev S → ω → Prop} {moves : ω → τ → ω → Prop} {progs : ι → Prog S α} {w₀ w : ω}
  {log : List (Line ι τ S)}

theorem upto {more : List (Line ι τ S)} (h : PoolRun serves moves progs w₀ (log ++ more) w) :
    ∃ w1, PoolRun serves moves progs w₀ log w1 ∧ Path (PoolStep serves moves) w1 more w := by
  obtain ⟨w1, hfirst, hrest⟩ := Path.append_iff.mp h.steps
  refine ⟨w1, ⟨hfirst, fun c => ?_⟩, hrest⟩
  obtain ⟨q, hq⟩ := h.procs c
  rw [traceOf_append] at hq
  obtain ⟨q', hq', -⟩ := hq.split
  exact ⟨q', hq'⟩

/-- A place in a program's trace is a line of the log, with the states before and after it. -/
theorem occurs {e : Ev S} (h : PoolRun serves moves progs w₀ log w) (ht : traceOf c log = a ++ e :: b) : ∃ pre w1 w2,
      Path.Occurs (PoolStep serves moves) w₀ log pre (.proc c e) w1 ∧ serves w1 e w2 ∧ traceOf c pre = a := by
  obtain ⟨pre, post, rfl, hpre, -⟩ := traceOf_eq_append ht
  obtain ⟨w1, hfirst, hrest⟩ := Path.append_iff.mp h.steps
  obtain ⟨w2, hstep, -⟩ := Path.cons_iff.mp hrest
  exact ⟨pre, w1, w2, ⟨⟨post, rfl⟩, hfirst⟩, hstep, hpre⟩

theorem extend {w' : ω} {q : Prog S α} (h : PoolRun serves moves progs w₀ log w) (hserved : Path serves w evs w')
    (hreach : Prog.Reach (progs c) (traceOf c log ++ evs) q) :
    PoolRun serves moves progs w₀ (log ++ evs.map (.proc c)) w' := by
  refine ⟨Path.append_iff.mpr ⟨w, h.steps, path_proc c hserved⟩, fun c' => ?_⟩
  rw [traceOf_append]
  by_cases hc : c = c'
  · subst hc
    rw [traceOf_map_proc]
    exact ⟨q, hreach⟩
  · rw [traceOf_map_proc_ne hc, List.append_nil]
    exact h.procs c'

theorem induction {motive : ∀ log w, PoolRun serves moves progs w₀ log w → Prop} (init : ∀ h, motive [] w₀ h)
    (snoc : ∀ {log w a w'} (h' : PoolRun serves moves progs w₀ (log ++ [a]) w')
      (h : PoolRun serves moves progs w₀ log w), PoolStep serves moves w a w' → motive log w h →
      motive (log ++ [a]) w' h')
    {log : List (Line ι τ S)} {w : ω} (h : PoolRun serves moves progs w₀ log w) : motive log w h := by
  induction log using List.reverseRecOn generalizing w with
  | nil =>
    obtain rfl := Path.nil_iff.mp h.steps
    exact init h
  | append_singleton log a ih =>
    obtain ⟨w1, hfirst, hrest⟩ := h.upto
    obtain ⟨w2, hstep, hnil⟩ := Path.cons_iff.mp hrest
    obtain rfl := Path.nil_iff.mp hnil
    exact snoc h hfirst hstep (ih hfirst)

end PoolRun

end Zap.Lib
