/-
# Zap.Lib.Promise — goroutines that hand each other values through write-once promises.

A goroutine is a program over the requests of some signature, with a few more: it may await a promise, which
answers with the promise's value or, if the context ends first, with nothing; fulfil one; start another
goroutine with an argument; and wait to be started. A promise holds a value or an error, and keeps the first
it is given.

Goroutine `k` is the one that fulfils promise `k`, as its last act (`goroutine`). A pool of such goroutines is a
pool over the state of the promises (`PromiseRun`), so what is proved here holds for every schedule: who fulfilled
what is awaited (`PromiseRun.fulfilled`), that all who await a promise see the same (`PromiseRun.agree`), and that
a stage behind one that has not succeeded does nothing but pass the failure on (`PromiseRun.stalled`,
`PromiseRun.passes_on`).
-/
import Mathlib.Data.Sigma.Basic
import Mathlib.Logic.Relation
import Zap.Lib.Pool

namespace Zap.Lib

section Signature

variable {κ : Type}

/-- The requests of a goroutine: those of `S`, and those about promises. `T k` is the value of promise `k` and
`A k` the argument of goroutine `k`. -/
inductive PromiseReq (S : Sig) (ε : Type) (T A : κ → Type)
  | base (r : S.Req)
  | await (k : κ)
  | fulfil (k : κ) (r : Except ε (T k))
  | spawn (k : κ) (a : A k)
  | started (k : κ)

/-- Awaiting is answered with `none` when the context ends first. -/
@[reducible]
def PromiseReq.Resp {S : Sig} {ε : Type} {T A : κ → Type} : PromiseReq S ε T A → Type
  | .base r => S.Resp r
  | .await k => Option (Except ε (T k))
  | .fulfil _ _ => Unit
  | .spawn _ _ => Unit
  | .started k => A k

@[reducible]
def promiseSig (S : Sig) (ε : Type) (T A : κ → Type) : Sig := ⟨PromiseReq S ε T A, PromiseReq.Resp⟩

end Signature

variable {S : Sig} {ε κ α β : Type} {T A : κ → Type}

def PromiseReq.code : PromiseReq S ε T A → S.Req ⊕ (κ ⊕ κ) ⊕ (Σ k, Except ε (T k)) ⊕ Σ k, A k
  | .base r => .inl r
  | .await k => .inr (.inl (.inl k))
  | .started k => .inr (.inl (.inr k))
  | .fulfil k r => .inr (.inr (.inl ⟨k, r⟩))
  | .spawn k a => .inr (.inr (.inr ⟨k, a⟩))

theorem PromiseReq.code_injective : Function.Injective (code (S := S) (ε := ε) (T := T) (A := A)) := by
  intro a b h
  cases a <;> cases b <;> simp_all [code]

instance [DecidableEq S.Req] [DecidableEq ε] [DecidableEq κ] [∀ k, DecidableEq (T k)] [∀ k, DecidableEq (A k)] :
    DecidableEq (PromiseReq S ε T A) := fun _ _ => decidable_of_iff _ PromiseReq.code_injective.eq_iff

/-! ## Programs without promises -/

def Ev.base (e : Ev S) : Ev (promiseSig S ε T A) := ⟨.base e.req, e.resp⟩

/-- A program that knows nothing of promises. -/
def Prog.embed : Prog S α → Prog (promiseSig S ε T A) α
  | .ret a => .ret a
  | .ask r k => .ask (.base r) fun x => (k x).embed

variable {p : Prog S α} {tr : List (Ev (promiseSig S ε T A))} {a : α} {bad : PromiseReq S ε T A → Prop}

namespace Prog

theorem reach_embed {q : Prog (promiseSig S ε T A) α} (h : Reach p.embed tr q) :
    ∃ tr0 q0, tr = tr0.map Ev.base ∧ Reach p tr0 q0 ∧ q = q0.embed := by
  induction p generalizing tr with
  | ret a =>
    cases h
    exact ⟨[], .ret a, rfl, .here _, rfl⟩
  | ask r k ih =>
    cases h with
    | here => exact ⟨[], .ask r k, rfl, .here _, rfl⟩
    | step hrest =>
      obtain ⟨tr0, q0, rfl, hreach, rfl⟩ := ih _ hrest
      exact ⟨⟨r, _⟩ :: tr0, q0, rfl, .step hreach, rfl⟩

theorem Reach.embed {q : Prog S α} {tr : List (Ev S)} (h : Reach p tr q) :
    Reach (S := promiseSig S ε T A) p.embed (tr.map Ev.base) q.embed := by
  induction h with
  | here p => exact .here _
  | step _ ih => exact .step ih

theorem runs_embed : Runs p.embed tr a ↔ ∃ tr0, tr = tr0.map Ev.base ∧ Runs p tr0 a := by
  constructor
  · intro h
    obtain ⟨tr0, q0, rfl, hreach, hq⟩ := reach_embed h
    cases q0 with
    | ret b =>
      cases hq
      exact ⟨tr0, rfl, hreach⟩
    | ask r k => cases hq
  · rintro ⟨tr0, rfl, h⟩
    exact Reach.embed h

theorem never_embed (h : Never (fun r => bad (.base r)) p) : Never (S := promiseSig S ε T A) bad p.embed := by
  induction p with
  | ret a => trivial
  | ask r k ih => exact ⟨h.1, fun x => ih x (h.2 x)⟩

end Prog

namespace Proc

def base (p : Proc S ε α) : Proc (promiseSig S ε T A) ε α := Prog.embed p.run

variable {p : Proc S ε α} {done : ε} {k : κ}

theorem yields_base : Yields (base p) tr a ↔ ∃ tr0, tr = tr0.map Ev.base ∧ Yields p tr0 a := Prog.runs_embed

theorem avoids_base (h : Avoids (fun r => bad (.base r)) p) :
    Avoids (S := promiseSig S ε T A) bad (base p) := Prog.never_embed h

/-- `Await`; `done` is the error of a context that has ended. -/
def awaitFor (done : ε) (k : κ) : Proc (promiseSig S ε T A) ε (T k) := do
  match ← Proc.request (S := promiseSig S ε T A) (.await k) with
  | none => throw done
  | some (.ok v) => return v
  | some (.error e) => throw e

theorem yields_awaitFor {v : T k} : Yields (awaitFor done k) tr v ↔ tr = [⟨.await k, some (.ok v)⟩] := by
  constructor
  · intro h
    obtain ⟨tr1, tr2, x, rfl, hx, hy⟩ := yields_bind.mp h
    obtain rfl := yields_request.mp hx
    rcases x with _ | e | v'
    · exact absurd hy yields_throw
    · exact absurd hy yields_throw
    · obtain ⟨rfl, rfl⟩ := yields_pure.mp hy
      rfl
  · rintro rfl
    exact yields_bind.mpr ⟨_, [], some (.ok v), rfl, yields_request.mpr rfl, yields_pure.mpr ⟨rfl, rfl⟩⟩

/-- A stage that starts with an await: it has not begun, it has failed there, or it goes on with the value. -/
theorem reach_awaitFor {f : T k → Proc (promiseSig S ε T A) ε β} {q : Prog (promiseSig S ε T A) (Except ε β)}
    (h : Prog.Reach (awaitFor done k >>= f).run tr q) :
    tr = [] ∨ (tr = [⟨.await k, none⟩] ∧ q = .ret (.error done)) ∨
      (∃ e, tr = [⟨.await k, some (.error e)⟩] ∧ q = .ret (.error e)) ∨
      ∃ v tr', tr = ⟨.await k, some (.ok v)⟩ :: tr' ∧ Prog.Reach (f v).run tr' q := by
  have hreq : Prog.Reach (Proc.request (S := promiseSig S ε T A) (.await k) >>= fun x => (match x with
    | none => throw done
    | some (.ok v) => f v
    | some (.error e) => throw e : Proc (promiseSig S ε T A) ε β)).run tr q := by
    convert h using 1
    unfold awaitFor
    rw [bind_assoc]
    congr 2
    funext x
    rcases x with _ | e | v <;> rfl
  rcases reach_request hreq with rfl | ⟨x, tr', rfl, hrest⟩
  · exact .inl rfl
  rcases x with _ | e | v
  · cases hrest
    exact .inr (.inl ⟨rfl, rfl⟩)
  · cases hrest
    exact .inr (.inr (.inl ⟨e, rfl, rfl⟩))
  · exact .inr (.inr (.inr ⟨v, tr', rfl, hrest⟩))

theorem avoids_base_of (h : ∀ r, ¬bad (.base r)) (p : Proc S ε α) :
    Avoids (S := promiseSig S ε T A) bad (base p) := by
  refine avoids_base ?_
  unfold Avoids
  generalize p.run = q
  induction q with
  | ret a => trivial
  | ask r k ih => exact ⟨h r, ih⟩

theorem avoids_awaitFor (h : ¬bad (.await k)) : Avoids (S := promiseSig S ε T A) bad (awaitFor done k) := by
  refine (avoids_request h).bind fun x => ?_
  rcases x with _ | e | v
  · exact avoids_throw
  · exact avoids_throw
  · exact avoids_pure

end Proc

/-! ## Goroutines -/

def IsFulfil : PromiseReq S ε T A → Prop
  | .fulfil _ _ => True
  | _ => False

/-- A promise is awaited or fulfilled, and nothing else. -/
def Waits : PromiseReq S ε T A → Prop
  | .await _ | .fulfil _ _ => True
  | .base _ | .spawn _ _ | .started _ => False

/-- A result that reaches the promise. An error may also stand for a goroutine that never gets there. -/
def Delivered (delivers : ε → Prop) : Except ε α → Prop
  | .ok _ => True
  | .error e => delivers e

instance {delivers : ε → Prop} [DecidablePred delivers] :
    DecidablePred (Delivered delivers : Except ε α → Prop)
  | .ok _ => .isTrue trivial
  | .error e => inferInstanceAs (Decidable (delivers e))

section Goroutine

variable (delivers : ε → Prop) [DecidablePred delivers]

/-- Goroutine `k` fulfils promise `k` with what it comes to. -/
def goroutine (k : κ) (p : Proc (promiseSig S ε T A) ε (T k)) : Prog (promiseSig S ε T A) Unit :=
  p.run.bind fun r => if Delivered delivers r then Prog.request (S := promiseSig S ε T A) (.fulfil k r) else .ret ()

variable {delivers}

/-- It is on its way and has fulfilled nothing, or it is done and has fulfilled its promise last. -/
theorem goroutine_cases {k : κ} {p : Proc (promiseSig S ε T A) ε (T k)}
    {q : Prog (promiseSig S ε T A) Unit} (h : Prog.Reach (goroutine delivers k p) tr q) :
    (∃ p', Prog.Reach p.run tr p') ∨
      ∃ tr1 r, tr = tr1 ++ [⟨.fulfil k r, ()⟩] ∧ Prog.Runs p.run tr1 r ∧ Delivered delivers r := by
  rcases Prog.Reach.bind_cases h with hfirst | ⟨tr1, tr2, r, rfl, hrun, hrest⟩
  · exact .inl hfirst
  split_ifs at hrest with hr
  · cases hrest with
    | here => exact .inl ⟨_, by rw [List.append_nil]; exact hrun⟩
    | step hdone =>
      cases hdone
      exact .inr ⟨tr1, r, rfl, hrun, hr⟩
  · cases hrest
    exact .inl ⟨_, by rw [List.append_nil]; exact hrun⟩

end Goroutine

/-! ## The state of the promises -/

/-- What has been fulfilled, and what has been started. -/
structure Promises (ε : Type) (T A : κ → Type) where
  val : ∀ k, Option (Except ε (T k))
  arg : ∀ k, Option (A k)

namespace Promises

def new : Promises ε T A := ⟨fun _ => none, fun _ => none⟩

variable [DecidableEq κ]

def fulfil (w : Promises ε T A) (k : κ) (r : Except ε (T k)) : Promises ε T A :=
  if (w.val k).isSome then w else { w with val := Function.update w.val k (some r) }

def start (w : Promises ε T A) (k : κ) (a : A k) : Promises ε T A :=
  { w with arg := Function.update w.arg k (some a) }

/-- How requests are answered. Those of `S` are up to the surroundings. -/
def Serves (w : Promises ε T A) : Ev (promiseSig S ε T A) → Promises ε T A → Prop
  | ⟨.base _, _⟩, w' => w' = w
  | ⟨.await k, x⟩, w' => (∀ r, x = some r → w.val k = some r) ∧ w' = w
  | ⟨.fulfil k r, _⟩, w' => w' = w.fulfil k r
  | ⟨.spawn k a, _⟩, w' => w' = w.start k a
  | ⟨.started k, a⟩, w' => w.arg k = some a ∧ w' = w

variable {w w' : Promises ε T A} {e : Ev (promiseSig S ε T A)} {k : κ} {r : Except ε (T k)}

theorem fulfil_val_self (h : w.val k = none) : (w.fulfil k r).val k = some r := by
  simp [fulfil, h]

theorem fulfil_val {j : κ} {r : Except ε (T j)} {r' : Except ε (T k)} (h : (w.fulfil j r).val k = some r') :
    w.val k = some r' ∨ ∃ heq : j = k, heq ▸ r = r' := by
  unfold fulfil at h
  split_ifs at h with hsome
  · exact .inl h
  by_cases hk : j = k
  · subst hk
    simp only [Function.update_self, Option.some.injEq] at h
    exact .inr ⟨rfl, h⟩
  · left
    simpa only [Function.update_of_ne (Ne.symm hk)] using h

/-- What an answer changes. -/
theorem Serves.changes (h : w.Serves e w') : w' = w ∨ (∃ j r, e = ⟨.fulfil j r, ()⟩ ∧ w' = w.fulfil j r) ∨
    ∃ j a, e = ⟨.spawn j a, ()⟩ ∧ w' = w.start j a := by
  rcases e with ⟨req, x⟩
  cases req with
  | base r => exact .inl h
  | await j | started j => exact .inl h.2
  | fulfil j r => exact .inr (.inl ⟨j, r, rfl, h⟩)
  | spawn j a => exact .inr (.inr ⟨j, a, rfl, h⟩)

/-- **A promise keeps its value.** -/
theorem Serves.keeps (h : w.Serves e w') (hval : w.val k = some r) : w'.val k = some r := by
  rcases h.changes with rfl | ⟨j, r', rfl, rfl⟩ | ⟨j, a, rfl, rfl⟩
  · exact hval
  · unfold fulfil
    split_ifs with hsome
    · exact hval
    by_cases hk : k = j
    · subst hk
      rw [hval] at hsome
      exact absurd rfl hsome
    · simpa only [Function.update_of_ne hk] using hval
  · exact hval

theorem Serves.given (h : w.Serves e w') (hval : w'.val k = some r) : w.val k = some r ∨ e = ⟨.fulfil k r, ()⟩ := by
  rcases h.changes with rfl | ⟨j, r', rfl, rfl⟩ | ⟨j, a, rfl, rfl⟩
  · exact .inl hval
  · rcases fulfil_val hval with hold | ⟨rfl, rfl⟩
    · exact .inl hold
    · exact .inr rfl
  · exact .inl hval

theorem Serves.passed {a : A k} (h : w.Serves e w') (harg : w'.arg k = some a) :
    w.arg k = some a ∨ e = ⟨.spawn k a, ()⟩ := by
  rcases h.changes with rfl | ⟨j, r', rfl, rfl⟩ | ⟨j, b, rfl, rfl⟩
  · exact .inl harg
  · unfold fulfil at harg
    split_ifs at harg
    · exact .inl harg
    · exact .inl harg
  · by_cases hk : j = k
    · subst hk
      simp only [start, Function.update_self, Option.some.injEq] at harg
      subst harg
      exact .inr rfl
    · left
      simpa only [start, Function.update_of_ne (Ne.symm hk)] using harg

end Promises

/-! ## Runs -/

section Runs

variable {ι : Type} [DecidableEq κ] [DecidableEq ι] {progs : ι → Prog (promiseSig S ε T A) Unit}
  {log : List (Line ι Empty (promiseSig S ε T A))} {w : Promises ε T A} {k : κ} {c c' : ι}

abbrev PromiseRun (progs : ι → Prog (promiseSig S ε T A) Unit) (log : List (Line ι Empty (promiseSig S ε T A)))
    (w : Promises ε T A) : Prop :=
  PoolRun Promises.Serves (fun _ _ _ => False) progs Promises.new log w

namespace PromiseRun

variable {r r' : Except ε (T k)} {P : Promises ε T A → Prop} {e : Ev (promiseSig S ε T A)} (h : PromiseRun progs log w)

include h

/-- What holds at the end and not at first was brought about by an event. -/
theorem cause {Q : Ev (promiseSig S ε T A) → Prop} (hgiven : ∀ {w e w'}, w.Serves e w' → P w' → P w ∨ Q e)
    (hnew : ¬P .new) (hw : P w) : ∃ c e, .proc c e ∈ log ∧ Q e := by
  refine (h.steps.cause (Q := fun l => ∃ c e, l = .proc c e ∧ Q e) (fun {_ l _} hs hP => ?_) hnew hw).elim ?_
  · cases l with
    | env a => exact a.elim
    | proc c e => exact (hgiven hs hP).imp_right fun hq => ⟨c, e, rfl, hq⟩
  · rintro _ ⟨hl, c, e, rfl, hq⟩
    exact ⟨c, e, hl, hq⟩

/-- What an event brings about, and no later one undoes, holds at the end. -/
theorem lasts (hset : ∀ {w w'}, Promises.Serves w e w' → P w')
    (hkeep : ∀ {w w'} {e : Ev (promiseSig S ε T A)}, w.Serves e w' → P w → P w') (hmem : .proc c e ∈ log) : P w := by
  refine h.steps.lasts hmem (fun {_ l _} hP hs => ?_) fun hs => hset hs
  cases l with
  | env a => exact a.elim
  | proc c e => exact hkeep hs hP

theorem fulfilled (hval : w.val k = some r) : ∃ c, .proc c ⟨.fulfil k r, ()⟩ ∈ log := by
  obtain ⟨c, _, hc, rfl⟩ := h.cause (fun hs hval => hs.given hval) nofun hval
  exact ⟨c, hc⟩

theorem started {a : A k} (hmem : .proc c ⟨.started k, a⟩ ∈ log) : ∃ c', .proc c' ⟨.spawn k a, ()⟩ ∈ log := by
  obtain ⟨pre, post, rfl⟩ := List.append_of_mem hmem
  obtain ⟨w1, hpre, hrest⟩ := PoolRun.upto h
  obtain ⟨w2, hserve, -⟩ := Path.cons_iff.mp hrest
  obtain ⟨c', _, hc', rfl⟩ := PromiseRun.cause hpre (fun hs harg => hs.passed harg) nofun hserve.1
  exact ⟨c', List.mem_append_left _ hc'⟩

theorem resolved (hmem : .proc c ⟨.fulfil k r, ()⟩ ∈ log) : ∃ r', w.val k = some r' := by
  refine PromiseRun.lasts h (P := fun w => ∃ r', w.val k = some r') (fun {w w'} hs => ?_)
    (fun hs ⟨r', hr'⟩ => ⟨r', hs.keeps hr'⟩) hmem
  cases hval : w.val k with
  | none =>
    obtain rfl : w' = w.fulfil k r := hs
    exact ⟨r, Promises.fulfil_val_self hval⟩
  | some r' => exact ⟨r', hs.keeps hval⟩

theorem awaited (hmem : .proc c ⟨.await k, some r⟩ ∈ log) : w.val k = some r :=
  PromiseRun.lasts h (fun hs => hs.2 ▸ hs.1 r rfl) (fun hs hval => hs.keeps hval) hmem

/-- **All who await a promise see the same.** -/
theorem agree (hr : .proc c ⟨.await k, some r⟩ ∈ log)
    (hr' : .proc c' ⟨.await k, some r'⟩ ∈ log) : r = r' :=
  Option.some.inj ((h.awaited hr).symm.trans (h.awaited hr'))

end PromiseRun

end Runs

/-! ## Stages -/

section Stages

variable {ο : Type} [DecidableEq κ] [DecidableEq ο]

section Crew

variable (delivers : ε → Prop) [DecidablePred delivers]

/-- Goroutine `k` for each promise that has one, besides other programs. -/
def crew (body : ∀ k, Option (Proc (promiseSig S ε T A) ε (T k))) (others : ο → Prog (promiseSig S ε T A) Unit) :
    κ ⊕ ο → Prog (promiseSig S ε T A) Unit
  | .inl k => (body k).elim (.ret ()) (goroutine delivers k)
  | .inr o => others o

end Crew

variable {delivers : ε → Prop} [DecidablePred delivers] {body : ∀ k, Option (Proc (promiseSig S ε T A) ε (T k))}
  {others : ο → Prog (promiseSig S ε T A) Unit} {log : List (Line (κ ⊕ ο) Empty (promiseSig S ε T A))}
  {w : Promises ε T A} {k : κ} {c : κ ⊕ ο} {r r' : Except ε (T k)}

omit [DecidableEq κ] [DecidableEq ο] in
theorem reach_crew {p : Proc (promiseSig S ε T A) ε (T k)} (hk : body k = some p) (hrun : Prog.Runs p.run tr r)
    (hr : Delivered delivers r) :
    Prog.Reach (crew delivers body others (.inl k)) (tr ++ [⟨.fulfil k r, ()⟩]) (.ret ()) := by
  simp only [crew, hk, Option.elim_some]
  refine Prog.Reach.bind_intro hrun ?_
  rw [if_pos hr]
  exact .step (.here _)

variable (h : PromiseRun (crew delivers body others) log w)

include h

theorem PromiseRun.stage_cases (k : κ) :
    traceOf (.inl k) log = [] ∨ ∃ p, body k = some p ∧
      ((∃ p', Prog.Reach p.run (traceOf (.inl k) log) p') ∨
        ∃ tr r, traceOf (.inl k) log = tr ++ [⟨.fulfil k r, ()⟩] ∧ Prog.Runs p.run tr r ∧ Delivered delivers r) := by
  obtain ⟨q, hq⟩ := h.procs (.inl k)
  cases hbody : body k with
  | none =>
    simp only [crew, hbody, Option.elim_none] at hq
    generalize traceOf (Sum.inl k) log = tr at hq ⊢
    cases hq
    exact .inl rfl
  | some p =>
    simp only [crew, hbody, Option.elim_some] at hq
    exact .inr ⟨p, rfl, goroutine_cases hq⟩

theorem PromiseRun.stage_event {e : Ev (promiseSig S ε T A)} (hmem : .proc (.inl k) e ∈ log) (he : ¬IsFulfil e.req) :
    ∃ p tr p', body k = some p ∧ Prog.Reach p.run tr p' ∧ e ∈ tr ∧ tr <+: traceOf (.inl k) log := by
  have hin : e ∈ traceOf (.inl k) log := mem_traceOf.mpr hmem
  rcases h.stage_cases k with hnil | ⟨p, hp, ⟨p', hreach⟩ | ⟨tr, r, htrace, hrun, -⟩⟩
  · rw [hnil] at hin
    cases hin
  · exact ⟨p, _, p', hp, hreach, hin, List.prefix_rfl⟩
  · rw [htrace] at hin ⊢
    rcases List.mem_append.mp hin with hold | hlast
    · exact ⟨p, tr, _, hp, hrun, hold, List.prefix_append _ _⟩
    · cases List.mem_singleton.mp hlast
      exact absurd trivial he

variable (hbody : ∀ k p, body k = some p → Proc.Avoids IsFulfil p) (hothers : ∀ o, Prog.Never IsFulfil (others o))

include hbody hothers

/-- **Who fulfils a promise**: its own goroutine, with what its body came to, and that is its last act. -/
theorem PromiseRun.fulfils (hmem : .proc c ⟨.fulfil k r, ()⟩ ∈ log) :
    c = .inl k ∧ ∃ p tr, body k = some p ∧ traceOf (.inl k) log = tr ++ [⟨.fulfil k r, ()⟩] ∧
      Prog.Runs p.run tr r ∧ Delivered delivers r := by
  have hin : (⟨.fulfil k r, ()⟩ : Ev (promiseSig S ε T A)) ∈ traceOf c log := mem_traceOf.mpr hmem
  cases c with
  | inr o =>
    obtain ⟨q, hq⟩ := h.procs (.inr o)
    exact absurd trivial ((hothers o).reach hq _ hin)
  | inl j =>
    rcases h.stage_cases j with hnil | ⟨p, hp, ⟨p', hreach⟩ | ⟨tr, r', htrace, hrun, hr'⟩⟩
    · rw [hnil] at hin
      cases hin
    · exact absurd trivial ((hbody j p hp).reach hreach _ hin)
    · rw [htrace] at hin
      rcases List.mem_append.mp hin with hold | hlast
      · exact absurd trivial ((hbody j p hp).reach hrun _ hold)
      · cases List.mem_singleton.mp hlast
        exact ⟨rfl, p, tr, hp, htrace, hrun, hr'⟩

/-- What a promise holds is what its goroutine's body came to. -/
theorem PromiseRun.holds (hval : w.val k = some r) :
    ∃ p tr, body k = some p ∧ traceOf (.inl k) log = tr ++ [⟨.fulfil k r, ()⟩] ∧ Prog.Runs p.run tr r ∧
      Delivered delivers r := by
  obtain ⟨c, hc⟩ := h.fulfilled hval
  exact (h.fulfils hbody hothers hc).2

omit h in
theorem PromiseRun.once {pre post : List (Line (κ ⊕ ο) Empty (promiseSig S ε T A))} {c' : κ ⊕ ο}
    (h : PromiseRun (crew delivers body others) (pre ++ .proc c ⟨.fulfil k r, ()⟩ :: post) w) :
    .proc c' ⟨.fulfil k r', ()⟩ ∉ pre ++ post := by
  intro hmem
  obtain ⟨rfl, p, tr, hp, htrace, hrun, -⟩ := h.fulfils hbody hothers
    (List.mem_append_right _ List.mem_cons_self)
  have hall : (.proc c' ⟨.fulfil k r', ()⟩ : Line (κ ⊕ ο) Empty (promiseSig S ε T A)) ∈
      pre ++ .proc (.inl k) ⟨.fulfil k r, ()⟩ :: post := by
    rcases List.mem_append.mp hmem with hpre | hpost
    · exact List.mem_append_left _ hpre
    · exact List.mem_append_right _ (List.mem_cons_of_mem _ hpost)
  obtain ⟨rfl, -⟩ := h.fulfils hbody hothers hall
  -- the body fulfils nothing, so the one place in the trace is its end
  have hbodyless : ∀ e ∈ tr, ¬IsFulfil e.req := (hbody k p hp).reach hrun
  rw [traceOf_append, traceOf_proc_self] at htrace
  have hlast : traceOf (.inl k) post = [] ∧ traceOf (.inl k) pre = tr := by
    rcases List.eq_nil_or_concat (traceOf (.inl k) post) with hnil | ⟨rest, e, hrest⟩
    · rw [hnil] at htrace
      obtain ⟨hpre, -⟩ := List.append_inj' htrace rfl
      exact ⟨hnil, hpre⟩
    · rw [hrest, List.concat_eq_append, ← List.cons_append, ← List.append_assoc] at htrace
      obtain ⟨hpre, -⟩ := List.append_inj' htrace rfl
      exact absurd trivial (hbodyless ⟨.fulfil k r, ()⟩ (hpre ▸ by simp))
  have hin : (⟨.fulfil k r', ()⟩ : Ev (promiseSig S ε T A)) ∈ traceOf (.inl k) (pre ++ post) := mem_traceOf.mpr hmem
  rw [traceOf_append, hlast.1, hlast.2, List.append_nil] at hin
  exact hbodyless _ hin trivial

/-! ## Failures -/

omit hbody hothers

/-- Stage `k` begins by awaiting promise `j`. -/
def Feeds (done : ε) (body : ∀ k, Option (Proc (promiseSig S ε T A) ε (T k))) (j k : κ) : Prop :=
  ∃ f, body k = some (Proc.awaitFor done j >>= f)

variable {done : ε} {j : κ}

/-- As long as what it awaits has not succeeded, a stage has at most awaited it, in vain. -/
theorem PromiseRun.stage_stuck {f : T j → Proc (promiseSig S ε T A) ε (T k)} (hj : ∀ v, w.val j ≠ some (.ok v))
    {p' : Prog (promiseSig S ε T A) (Except ε (T k))}
    (hreach : Prog.Reach (Proc.awaitFor done j >>= f).run tr p') (htr : tr <+: traceOf (.inl k) log) :
    tr = [] ∨ ∃ x e, tr = [⟨.await j, x⟩] ∧ p' = .ret (.error e) ∧ (e = done ∨ x = some (.error e)) := by
  rcases Proc.reach_awaitFor hreach with rfl | ⟨rfl, rfl⟩ | ⟨e, rfl, rfl⟩ | ⟨v, tr', rfl, -⟩
  · exact .inl rfl
  · exact .inr ⟨_, done, rfl, rfl, .inl rfl⟩
  · exact .inr ⟨_, e, rfl, rfl, .inr rfl⟩
  · have hmem : (⟨.await j, some (.ok v)⟩ : Ev (promiseSig S ε T A)) ∈ traceOf (.inl k) log :=
      htr.subset List.mem_cons_self
    exact absurd (h.awaited (mem_traceOf.mp hmem)) (hj v)

include hbody hothers

/-- **A stage behind one that has not succeeded** does nothing but wait, and does not succeed. -/
theorem PromiseRun.stalled (hfeeds : Feeds done body j k) (hj : ∀ v, w.val j ≠ some (.ok v)) :
    (∀ e, .proc (.inl k) e ∈ log → Waits e.req) ∧ ∀ v, w.val k ≠ some (.ok v) := by
  obtain ⟨f, hk⟩ := hfeeds
  constructor
  · intro e hmem
    by_contra hwaits
    have hfulfil : ¬IsFulfil e.req := fun hf => hwaits (by
      rcases e with ⟨r, x⟩
      cases r with
      | fulfil k r => trivial
      | _ => exact hf.elim)
    obtain ⟨p, tr, p', hp, hreach, hin, htr⟩ := h.stage_event hmem hfulfil
    cases hk.symm.trans hp
    rcases h.stage_stuck hj hreach htr with rfl | ⟨y, e, rfl, -, -⟩
    · cases hin
    · cases List.mem_singleton.mp hin
      exact hwaits trivial
  · intro v hval
    obtain ⟨p, tr, hp, htrace, hrun, -⟩ := h.holds hbody hothers hval
    cases hk.symm.trans hp
    rcases h.stage_stuck hj hrun (htrace ▸ List.prefix_append _ _) with rfl | ⟨y, e, -, hret, -⟩
    · -- the await has not been answered, so there is no value yet
      cases hrun
    · cases hret

/-- A stage that awaits one that has failed can go on to its end, and fails. -/
theorem PromiseRun.passes_on (hdone : delivers done) (hfeeds : Feeds done body j k) {e : ε}
    (hj : w.val j = some (.error e)) :
    ∃ more w' e', PromiseRun (crew delivers body others) (log ++ more) w' ∧ w'.val k = some (.error e') := by
  have hnot : ∀ v, w.val j ≠ some (.ok v) := fun v hv => by
    rw [hj] at hv
    cases hv
  have he : delivers e := (h.holds hbody hothers hj).choose_spec.choose_spec.2.2.2
  have hfail := (h.stalled hbody hothers hfeeds hnot).2
  obtain ⟨f, hk⟩ := hfeeds
  cases hval : w.val k with
  | some r =>
    cases r with
    | ok v => exact absurd hval (hfail v)
    | error e' => exact ⟨[], w, e', by rwa [List.append_nil], hval⟩
  | none =>
    -- what is left is to await, unless that is done, and to fulfil the promise
    have hend : ∀ evs e', Path Promises.Serves w evs w → delivers e' →
        Prog.Runs (Proc.awaitFor done j >>= f).run (traceOf (.inl k) log ++ evs) (.error e') →
        ∃ more w' e', PromiseRun (crew delivers body others) (log ++ more) w' ∧ w'.val k = some (.error e') := by
      intro evs e' hserved he' hrun
      have hlast : w.Serves (⟨.fulfil k (.error e'), ()⟩ : Ev (promiseSig S ε T A)) (w.fulfil k (.error e')) := rfl
      have hreach : Prog.Reach (crew delivers body others (.inl k))
          (traceOf (.inl k) log ++ (evs ++ [⟨.fulfil k (.error e'), ()⟩])) (.ret ()) := by
        rw [← List.append_assoc]
        exact reach_crew hk hrun he'
      exact ⟨_, w.fulfil k (.error e'), e', h.extend (Path.concat_iff.mpr ⟨w, hserved, hlast⟩) hreach,
        Promises.fulfil_val_self hval⟩
    have hawait : Prog.Runs (Proc.awaitFor (S := S) (A := A) done j >>= f).run [⟨.await j, some (.error e)⟩]
        (.error e) := .step (.here _)
    have hserve : Path Promises.Serves w [(⟨.await j, some (.error e)⟩ : Ev (promiseSig S ε T A))] w :=
      .cons ⟨fun r hr => hj.trans hr, rfl⟩ (.nil w)
    rcases h.stage_cases k with hnil | ⟨p, hp, ⟨p', hreach⟩ | ⟨tr, r, htrace, -, -⟩⟩
    · exact hend _ e hserve he (by rw [hnil]; exact hawait)
    · cases hk.symm.trans hp
      rcases h.stage_stuck hnot hreach List.prefix_rfl with hnil | ⟨x, e', htrace, rfl, hwhy⟩
      · exact hend _ e hserve he (by rw [hnil]; exact hawait)
      refine hend [] e' (.nil w) ?_ (by rwa [List.append_nil])
      rcases hwhy with rfl | rfl
      · exact hdone
      · have hmem : (⟨.await j, some (.error e')⟩ : Ev (promiseSig S ε T A)) ∈ traceOf (.inl k) log := by
          simp [htrace]
        cases hj.symm.trans (h.awaited (mem_traceOf.mp hmem))
        exact he
    · have hmem : (⟨.fulfil k r, ()⟩ : Ev (promiseSig S ε T A)) ∈ traceOf (.inl k) log := by simp [htrace]
      obtain ⟨r', hr'⟩ := h.resolved (mem_traceOf.mp hmem)
      rw [hval] at hr'
      cases hr'

open Relation in
theorem PromiseRun.stalled_later (hlater : TransGen (Feeds done body) j k) (hj : ∀ v, w.val j ≠ some (.ok v)) :
    (∀ e, .proc (.inl k) e ∈ log → Waits e.req) ∧ ∀ v, w.val k ≠ some (.ok v) := by
  induction hlater with
  | single hfeeds => exact h.stalled hbody hothers hfeeds hj
  | tail _ hfeeds ih => exact h.stalled hbody hothers hfeeds ih.2

open Relation in
theorem PromiseRun.passes_on_later (hdone : delivers done) (hlater : TransGen (Feeds done body) j k) {e : ε}
    (hj : w.val j = some (.error e)) :
    ∃ more w' e', PromiseRun (crew delivers body others) (log ++ more) w' ∧ w'.val k = some (.error e') := by
  induction hlater with
  | single hfeeds => exact h.passes_on hbody hothers hdone hfeeds hj
  | tail _ hfeeds ih =>
    obtain ⟨more, w1, e1, h1, hval1⟩ := ih
    obtain ⟨more', w2, e2, h2, hval2⟩ := h1.passes_on hbody hothers hdone hfeeds hval1
    exact ⟨more ++ more', w2, e2, by rwa [← List.append_assoc], hval2⟩

end Stages

end Zap.Lib
