/-
# Zap.Lib.Prog — programs that question their environment, their traces, and a logic of ghost state.

A program is a tree: it returns a value, or it asks the environment a request and continues with the
answer. Reads, writes, clock readings, calls into a library that is not modelled and critical sections
on shared state are all requests, so one and the same program can be run against a hostile peer, against
a scripted environment, or interleaved with other programs at its requests.

* `Reach p tr q` — after the events `tr` the program `p` has become `q`; `Runs` is `Reach` to a returned
  value. Answers are unconstrained, so a statement over all traces is a statement over all environments.
* `Never bad p`, `Avoids bad p` — `p` makes no request in `bad`. With `reach_past` it turns a request seen in a
  partial run into the statement that the part of the program before it has returned. `NeverWhile ok bad p`
  is the same as long as the answers are in `ok`, `Once ok bad p` the same from the first such request on.
* `Ensures ok Q p` — with answers in `ok`, what `p` returns is in `Q`; its rules are equivalences.
* `Answered ans p w a w'` — an environment with a state of its own brings `p` to return `a`.
* `Proc` — programs that may fail; `Yields p tr a` says that `p` succeeds with `a` on the trace `tr`, `Fails`
  that it fails, and their rules (`yields_bind`, `yields_request`, …) are equivalences, so one lemma about a
  program serves both to take a run apart and to put one together.
-/
import Zap.Lib.Path

namespace Zap.Lib

/-- The requests a program may make, and the type of the answer to each. -/
structure Sig where
  Req : Type
  Resp : Req → Type

structure Ev (S : Sig) where
  req : S.Req
  resp : S.Resp req

/-- A program over the requests of `S` that returns an `α`. -/
inductive Prog (S : Sig) (α : Type) : Type
  | ret (a : α) : Prog S α
  | ask (r : S.Req) (k : S.Resp r → Prog S α) : Prog S α

namespace Prog

variable {S : Sig} {α β γ : Type} {p : Prog S α} {tr tr' tr₁ tr₂ : List (Ev S)} {r : S.Req} {k : S.Resp r → Prog S α}
  {a b : α} {f : α → Prog S β}

/-! ## The monad -/

def bind (p : Prog S α) (f : α → Prog S β) : Prog S β :=
  match p with
  | .ret a => f a
  | .ask r k => .ask r fun x => (k x).bind f

instance : Monad (Prog S) where
  pure := .ret
  bind := Prog.bind

def request (r : S.Req) : Prog S (S.Resp r) := .ask r .ret

theorem bind_ret (p : Prog S α) : p.bind .ret = p := by
  induction p with
  | ret a => rfl
  | ask r k ih =>
    simp only [bind]
    congr 1
    funext x
    exact ih x

theorem bind_assoc (p : Prog S α) (f : α → Prog S β) (g : β → Prog S γ) :
    (p.bind f).bind g = p.bind fun a => (f a).bind g := by
  induction p with
  | ret a => rfl
  | ask r k ih =>
    simp only [bind]
    congr 1
    funext x
    exact ih x

instance : LawfulMonad (Prog S) := LawfulMonad.mk' (Prog S) bind_ret (fun _ _ => rfl) bind_assoc

/-! ## Traces -/

/-- `Reach p tr q`: answered as `tr` says, `p` becomes `q`. -/
inductive Reach : Prog S α → List (Ev S) → Prog S α → Prop
  | here (p : Prog S α) : Reach p [] p
  | step {r : S.Req} {k : S.Resp r → Prog S α} {x : S.Resp r} {tr : List (Ev S)} {q : Prog S α} :
      Reach (k x) tr q → Reach (.ask r k) (⟨r, x⟩ :: tr) q

/-- `Runs p tr a`: answered as `tr` says, `p` returns `a`. -/
def Runs (p : Prog S α) (tr : List (Ev S)) (a : α) : Prop := Reach p tr (.ret a)

theorem Reach.split {r : Prog S α} (h : Reach p (tr ++ tr') r) : ∃ q, Reach p tr q ∧ Reach q tr' r := by
  induction tr generalizing p with
  | nil => exact ⟨p, .here p, h⟩
  | cons e tr ih =>
    cases h with
    | step hrest =>
      obtain ⟨q, hq, hr⟩ := ih hrest
      exact ⟨q, .step hq, hr⟩

@[simp]
theorem runs_ret : Runs (.ret a) tr b ↔ tr = [] ∧ a = b := by
  constructor
  · intro h
    cases h
    exact ⟨rfl, rfl⟩
  · rintro ⟨rfl, rfl⟩
    exact .here _

theorem runs_ask : Runs (.ask r k) tr a ↔ ∃ x tr', tr = ⟨r, x⟩ :: tr' ∧ Runs (k x) tr' a := by
  constructor
  · intro h
    cases h with
    | step h' => exact ⟨_, _, rfl, h'⟩
  · rintro ⟨x, tr', rfl, h⟩
    exact .step h

theorem runs_bind {b : β} :
    Runs (p.bind f) tr b ↔ ∃ tr₁ tr₂ a, tr = tr₁ ++ tr₂ ∧ Runs p tr₁ a ∧ Runs (f a) tr₂ b := by
  induction p generalizing tr with
  | ret a =>
    simp only [bind, runs_ret]
    constructor
    · intro h
      exact ⟨[], tr, a, rfl, ⟨rfl, rfl⟩, h⟩
    · rintro ⟨_, tr₂, _, rfl, ⟨rfl, rfl⟩, h⟩
      exact h
  | ask r k ih =>
    simp only [bind, runs_ask]
    constructor
    · rintro ⟨x, tr', rfl, h⟩
      obtain ⟨tr₁, tr₂, a, rfl, hp, hf⟩ := (ih x).mp h
      exact ⟨⟨r, x⟩ :: tr₁, tr₂, a, rfl, ⟨x, tr₁, rfl, hp⟩, hf⟩
    · rintro ⟨_, tr₂, a, rfl, ⟨x, tr₁, rfl, hp⟩, hf⟩
      exact ⟨x, tr₁ ++ tr₂, rfl, (ih x).mpr ⟨tr₁, tr₂, a, rfl, hp, hf⟩⟩

theorem Reach.det {q q' : Prog S α} (h : Reach p tr q) (h' : Reach p tr q') : q = q' := by
  induction h with
  | here =>
    cases h'
    rfl
  | step _ ih =>
    cases h' with
    | step hrest => exact ih hrest

theorem Runs.det (ha : Runs p tr a) (hb : Runs p tr b) : a = b := Prog.ret.inj (Reach.det ha hb)

theorem Reach.bind_cases {q : Prog S β} (h : Reach (p.bind f) tr q) :
    (∃ p', Reach p tr p') ∨ ∃ tr₁ tr₂ a, tr = tr₁ ++ tr₂ ∧ Runs p tr₁ a ∧ Reach (f a) tr₂ q := by
  induction p generalizing tr with
  | ret a => exact .inr ⟨[], tr, a, rfl, .here _, h⟩
  | ask r k ih =>
    cases h with
    | here => exact .inl ⟨_, .here _⟩
    | @step _ _ x tr _ hrest =>
      rcases ih x hrest with ⟨p', hp⟩ | ⟨tr₁, tr₂, a, rfl, hp, hf⟩
      · exact .inl ⟨p', .step hp⟩
      · exact .inr ⟨⟨r, x⟩ :: tr₁, tr₂, a, rfl, .step hp, hf⟩

theorem Reach.bind_intro {q : Prog S β} (hp : Runs p tr₁ a) (hf : Reach (f a) tr₂ q) :
    Reach (p.bind f) (tr₁ ++ tr₂) q := by
  induction p generalizing tr₁ with
  | ret b =>
    obtain ⟨rfl, rfl⟩ := runs_ret.mp hp
    exact hf
  | ask r k ih =>
    obtain ⟨x, tr', rfl, hrest⟩ := runs_ask.mp hp
    exact .step (ih x hrest)

section Follow

variable [DecidableEq S.Req]

/-- The program behind a trace, if the trace is one of its own. -/
def follow : Prog S α → List (Ev S) → Option (Prog S α)
  | p, [] => some p
  | .ret _, _ :: _ => none
  | .ask r k, ⟨r', x⟩ :: tr => if h : r' = r then (k (h ▸ x)).follow tr else none

/-- What a program has returned at the end of a trace. -/
def returned (p : Prog S α) (tr : List (Ev S)) : Option α :=
  match p.follow tr with
  | some (.ret a) => some a
  | _ => none

theorem follow_eq_some {q : Prog S α} (h : p.follow tr = some q) : Reach p tr q := by
  induction tr generalizing p with
  | nil => cases p <;> cases h <;> exact .here _
  | cons e tr ih =>
    obtain ⟨r', x⟩ := e
    cases p with
    | ret a => cases h
    | ask r k =>
      simp only [follow] at h
      split_ifs at h with heq
      subst heq
      exact .step (ih h)

theorem reach_of_follow (h : (p.follow tr).isSome) : ∃ q, Reach p tr q :=
  (Option.isSome_iff_exists.mp h).imp fun _ => follow_eq_some

theorem runs_of_returned (h : p.returned tr = some a) : Runs p tr a := by
  unfold returned at h
  split at h
  · next hq =>
    cases h
    exact follow_eq_some hq
  · cases h

end Follow

/-- The value returned to fixed answers. -/
def eval (ans : (r : S.Req) → S.Resp r) : Prog S α → α
  | .ret a => a
  | .ask r k => (k (ans r)).eval ans

theorem runs_eval (ans : (r : S.Req) → S.Resp r) (p : Prog S α) : ∃ tr, Runs p tr (p.eval ans) := by
  induction p with
  | ret a => exact ⟨[], .here _⟩
  | ask r k ih => exact (ih (ans r)).elim fun _ h => ⟨_, .step h⟩

/-! ## What a program ensures -/

section Ensures

variable {ok : Ev S → Prop} {Q : α → Prop}

/-- As long as the answers are in `ok`, what the program returns is in `Q`. -/
def Ensures (ok : Ev S → Prop) (Q : α → Prop) : Prog S α → Prop
  | .ret a => Q a
  | .ask r k => ∀ x, ok ⟨r, x⟩ → Ensures ok Q (k x)

theorem ensures_iff : Ensures ok Q p ↔ ∀ tr a, Runs p tr a → (∀ e ∈ tr, ok e) → Q a := by
  induction p with
  | ret a =>
    constructor
    · rintro h tr b hrun -
      obtain ⟨-, rfl⟩ := runs_ret.mp hrun
      exact h
    · intro h
      exact h [] a (.here _) (by simp)
  | ask r k ih =>
    constructor
    · intro h tr b hrun hok
      obtain ⟨x, tr', rfl, hrest⟩ := runs_ask.mp hrun
      obtain ⟨hx, hok'⟩ := List.forall_mem_cons.mp hok
      exact (ih x).mp (h x hx) tr' b hrest hok'
    · intro h x hx
      refine (ih x).mpr fun tr b hrun hok => h (⟨r, x⟩ :: tr) b (.step hrun) ?_
      exact List.forall_mem_cons.mpr ⟨hx, hok⟩

theorem ensures_bind {Q : β → Prop} :
    Ensures ok Q (p.bind f) ↔ Ensures ok (fun a => Ensures ok Q (f a)) p := by
  induction p with
  | ret a => exact Iff.rfl
  | ask r k ih => exact forall_congr' fun x => imp_congr_right fun _ => ih x

theorem Ensures.mono {Q' : α → Prop} (h : Ensures ok Q p) (hQ : ∀ a, Q a → Q' a) : Ensures ok Q' p := by
  induction p with
  | ret a => exact hQ a h
  | ask r k ih => exact fun x hx => ih x (h x hx)

/-- A program whose requests can all be answered in `ok` has a run with such answers. -/
theorem exists_runs (hans : ∀ r, ∃ x, ok ⟨r, x⟩) (p : Prog S α) : ∃ tr a, Runs p tr a ∧ ∀ e ∈ tr, ok e := by
  induction p with
  | ret a => exact ⟨[], a, .here _, by simp⟩
  | ask r k ih =>
    obtain ⟨x, hx⟩ := hans r
    obtain ⟨tr, a, hrun, hok⟩ := ih x
    exact ⟨⟨r, x⟩ :: tr, a, .step hrun, List.forall_mem_cons.mpr ⟨hx, hok⟩⟩

end Ensures

/-! ## Requests a program does not make -/

section Never

variable {bad : S.Req → Prop}

/-- However it is answered, the program makes no request in `bad`. -/
def Never (bad : S.Req → Prop) : Prog S α → Prop
  | .ret _ => True
  | .ask r k => ¬bad r ∧ ∀ x, Never bad (k x)

theorem Never.bind (hp : Never bad p) (hf : ∀ a, Never bad (f a)) : Never bad (p.bind f) := by
  induction p with
  | ret a => exact hf a
  | ask r k ih => exact ⟨hp.1, fun x => ih x (hp.2 x)⟩

theorem Never.mono {bad' : S.Req → Prop} (hbad : ∀ r, bad' r → bad r) (hp : Never bad p) : Never bad' p := by
  induction p with
  | ret a => trivial
  | ask r k ih => exact ⟨fun hr => hp.1 (hbad r hr), fun x => ih x (hp.2 x)⟩

theorem Never.reach {q : Prog S α} (hp : Never bad p) (h : Reach p tr q) : ∀ e ∈ tr, ¬bad e.req := by
  induction h with
  | here => simp
  | step _ ih => exact List.forall_mem_cons.mpr ⟨hp.1, ih (hp.2 _)⟩

/-- As long as the answers are in `ok`, the program makes no request in `bad`. -/
def NeverWhile (ok : Ev S → Prop) (bad : S.Req → Prop) : Prog S α → Prop
  | .ret _ => True
  | .ask r k => ¬bad r ∧ ∀ x, ok ⟨r, x⟩ → NeverWhile ok bad (k x)

variable {ok : Ev S → Prop}

theorem NeverWhile.bind (hp : NeverWhile ok bad p) (hf : ∀ a, NeverWhile ok bad (f a)) :
    NeverWhile ok bad (p.bind f) := by
  induction p with
  | ret a => exact hf a
  | ask r k ih => exact ⟨hp.1, fun x hx => ih x (hp.2 x hx)⟩

theorem neverWhile_bind :
    NeverWhile ok bad (p.bind f) ↔ NeverWhile ok bad p ∧ Ensures ok (fun a => NeverWhile ok bad (f a)) p := by
  induction p with
  | ret a => exact ⟨fun h => ⟨trivial, h⟩, fun h => h.2⟩
  | ask r k ih =>
    constructor
    · rintro ⟨hr, hk⟩
      exact ⟨⟨hr, fun x hx => ((ih x).mp (hk x hx)).1⟩, fun x hx => ((ih x).mp (hk x hx)).2⟩
    · rintro ⟨⟨hr, hk⟩, hf⟩
      exact ⟨hr, fun x hx => (ih x).mpr ⟨hk x hx, hf x hx⟩⟩

theorem NeverWhile.reach {q : Prog S α} (hp : NeverWhile ok bad p) (h : Reach p tr q) (hok : ∀ e ∈ tr, ok e) :
    (∀ e ∈ tr, ¬bad e.req) ∧ NeverWhile ok bad q := by
  induction h with
  | here => exact ⟨by simp, hp⟩
  | step _ ih =>
    obtain ⟨hx, hok⟩ := List.forall_mem_cons.mp hok
    obtain ⟨hrest, hq⟩ := ih (hp.2 _ hx) hok
    exact ⟨List.forall_mem_cons.mpr ⟨hp.1, hrest⟩, hq⟩

theorem Never.neverWhile (hp : Never bad p) : NeverWhile ok bad p := by
  induction p with
  | ret a => trivial
  | ask r k ih => exact ⟨hp.1, fun x _ => ih x (hp.2 x)⟩

/-- After a request in `bad` there is no other, as long as the answers are in `ok`. -/
def Once (ok : Ev S → Prop) (bad : S.Req → Prop) : Prog S α → Prop
  | .ret _ => True
  | .ask r k => ∀ x, Once ok bad (k x) ∧ (bad r → NeverWhile ok bad (k x))

theorem Once.bind (hp : Once ok bad p) (hf : ∀ a, Once ok bad (f a)) (hrest : ∀ a, NeverWhile ok bad (f a)) :
    Once ok bad (p.bind f) := by
  induction p with
  | ret a => exact hf a
  | ask r k ih => exact fun x => ⟨ih x (hp x).1, fun hr => ((hp x).2 hr).bind hrest⟩

theorem Never.once_bind (hp : Never bad p) (hf : ∀ a, Once ok bad (f a)) : Once ok bad (p.bind f) := by
  induction p with
  | ret a => exact hf a
  | ask r k ih => exact fun x => ⟨ih x (hp.2 x), fun hr => absurd hr hp.1⟩

theorem Once.reach {q : Prog S α} {e : Ev S} (hp : Once ok bad p) (h : Reach p (tr ++ e :: tr') q) (he : bad e.req)
    (hok : ∀ e ∈ tr', ok e) : NeverWhile ok bad q := by
  induction tr generalizing p with
  | nil =>
    cases h with
    | step hrest => exact (((hp _).2 he).reach hrest hok).2
  | cons e' tr ih =>
    cases h with
    | step hrest => exact ih (hp _).1 hrest

end Never

/-! ## Answered runs -/

section Answered

variable {ω : Type} {ans : ω → Ev S → ω → Prop} {w w' : ω}

/-- `Answered ans p w a w'`: the environment, answering by `ans` from `w` on, brings `p` to return `a`
and is left in `w'`. -/
def Answered (ans : ω → Ev S → ω → Prop) (p : Prog S α) (w : ω) (a : α) (w' : ω) : Prop :=
  ∃ tr, Runs p tr a ∧ Path ans w tr w'

theorem answered_ret : Answered ans (.ret a) w b w' ↔ a = b ∧ w = w' := by
  constructor
  · rintro ⟨tr, hr, hp⟩
    obtain ⟨rfl, rfl⟩ := runs_ret.mp hr
    exact ⟨rfl, Path.nil_iff.mp hp⟩
  · rintro ⟨rfl, rfl⟩
    exact ⟨[], .here _, .nil _⟩

theorem answered_ask : Answered ans (.ask r k) w a w' ↔ ∃ x w1, ans w ⟨r, x⟩ w1 ∧ Answered ans (k x) w1 a w' := by
  constructor
  · rintro ⟨tr, hr, hp⟩
    obtain ⟨x, tr', rfl, hr'⟩ := runs_ask.mp hr
    obtain ⟨w1, hx, hp'⟩ := Path.cons_iff.mp hp
    exact ⟨x, w1, hx, tr', hr', hp'⟩
  · rintro ⟨x, w1, hx, tr, hr, hp⟩
    exact ⟨⟨r, x⟩ :: tr, .step hr, .cons hx hp⟩

theorem answered_bind {b : β} :
    Answered ans (p.bind f) w b w' ↔ ∃ a w1, Answered ans p w a w1 ∧ Answered ans (f a) w1 b w' := by
  constructor
  · rintro ⟨tr, hr, hp⟩
    obtain ⟨tr₁, tr₂, a, rfl, hr1, hr2⟩ := runs_bind.mp hr
    obtain ⟨w1, hp1, hp2⟩ := Path.append_iff.mp hp
    exact ⟨a, w1, ⟨tr₁, hr1, hp1⟩, ⟨tr₂, hr2, hp2⟩⟩
  · rintro ⟨a, w1, ⟨tr₁, hr1, hp1⟩, ⟨tr₂, hr2, hp2⟩⟩
    exact ⟨tr₁ ++ tr₂, runs_bind.mpr ⟨tr₁, tr₂, a, rfl, hr1, hr2⟩, Path.append_iff.mpr ⟨w1, hp1, hp2⟩⟩

/-- An environment that answers all the requests a program makes brings it to return. -/
theorem answered_exists (bad : S.Req → Prop) (hans : ∀ w r, ¬bad r → ∃ x w', ans w ⟨r, x⟩ w') (h : Never bad p)
    (w : ω) : ∃ a w', Answered ans p w a w' := by
  induction p generalizing w with
  | ret a => exact ⟨a, w, answered_ret.mpr ⟨rfl, rfl⟩⟩
  | ask r k ih =>
    obtain ⟨x, w1, hx⟩ := hans w r h.1
    obtain ⟨a, w', ha⟩ := ih x (h.2 x) w1
    exact ⟨a, w', answered_ask.mpr ⟨x, w1, hx, ha⟩⟩

theorem Answered.det (hdet : ∀ {w r x x' w1 w2}, ans w ⟨r, x⟩ w1 → ans w ⟨r, x'⟩ w2 → x = x' ∧ w1 = w2) {w1 w2 : ω}
    (ha : Answered ans p w a w1) (hb : Answered ans p w b w2) : a = b ∧ w1 = w2 := by
  induction p generalizing w with
  | ret c =>
    obtain ⟨rfl, rfl⟩ := answered_ret.mp ha
    obtain ⟨rfl, rfl⟩ := answered_ret.mp hb
    exact ⟨rfl, rfl⟩
  | ask r k ih =>
    obtain ⟨x, v, hx, ha'⟩ := answered_ask.mp ha
    obtain ⟨y, u, hy, hb'⟩ := answered_ask.mp hb
    obtain ⟨rfl, rfl⟩ := hdet hx hy
    exact ih x ha' hb'

end Answered

/-! ## Deterministic environments -/

/-- Run against an environment that answers from a state: the events, the value and the last state. -/
def exec {σ : Type} (env : σ → (r : S.Req) → S.Resp r × σ) : Prog S α → σ → List (Ev S) × α × σ
  | .ret a, s => ([], a, s)
  | .ask r k, s =>
    let (x, s') := env s r
    let (tr, a, s'') := exec env (k x) s'
    (⟨r, x⟩ :: tr, a, s'')

theorem Ensures.exec {σ : Type} {env : σ → (r : S.Req) → S.Resp r × σ} {ok : Ev S → Prop} {Q : α → Prop}
    (h : Ensures ok Q p) (hok : ∀ w r, ok ⟨r, (env w r).1⟩) (w : σ) : Q (exec env p w).2.1 := by
  induction p generalizing w with
  | ret a => exact h
  | ask r k ih => exact ih _ (h _ (hok w r)) _

end Prog

/-! ## Programs that may fail -/

/-- A program over the requests of `S` that returns an `α` or fails with an `ε`. -/
abbrev Proc (S : Sig) (ε α : Type) := ExceptT ε (Prog S) α

namespace Proc

variable {S : Sig} {ε α β : Type} {p : Proc S ε α} {tr tr' tr₁ tr₂ : List (Ev S)} {r : S.Req} {a b : α} {e : ε}
  {f : α → Proc S ε β} {q : Prog S (Except ε β)}

def request (r : S.Req) : Proc S ε (S.Resp r) := ExceptT.lift (Prog.request r)

/-- `Yields p tr a`: answered as `tr` says, `p` succeeds with `a`. -/
def Yields (p : Proc S ε α) (tr : List (Ev S)) (a : α) : Prop := Prog.Runs p.run tr (.ok a)

section Yields

theorem yields_pure : Yields (pure a : Proc S ε α) tr b ↔ tr = [] ∧ a = b := by
  have h : Yields (pure a : Proc S ε α) tr b ↔ tr = [] ∧ (Except.ok a : Except ε α) = .ok b := Prog.runs_ret
  rw [h, Except.ok.injEq]

theorem yields_throw : ¬Yields (throw e : Proc S ε α) tr b := by
  intro h
  cases (Prog.runs_ret.mp h).2

theorem yields_refuse {c : Prop} [Decidable c] : Yields (if c then throw e else p) tr b ↔ ¬c ∧ Yields p tr b := by
  split
  · rename_i hc
    exact ⟨fun h => absurd h yields_throw, fun h => absurd hc h.1⟩
  · rename_i hc
    exact (and_iff_right hc).symm

theorem yields_request {x : S.Resp r} : Yields (Proc.request r : Proc S ε _) tr x ↔ tr = [⟨r, x⟩] := by
  constructor
  · intro h
    obtain ⟨y, tr', rfl, hret⟩ := Prog.runs_ask.mp h
    obtain ⟨rfl, hxy⟩ := Prog.runs_ret.mp hret
    cases hxy
    rfl
  · rintro rfl
    exact .step (.here _)

theorem yields_bind {b : β} :
    Yields (p >>= f) tr b ↔ ∃ tr₁ tr₂ a, tr = tr₁ ++ tr₂ ∧ Yields p tr₁ a ∧ Yields (f a) tr₂ b := by
  constructor
  · intro h
    obtain ⟨tr₁, tr₂, r, rfl, hp, hf⟩ := Prog.runs_bind.mp h
    cases r with
    | error e => cases (Prog.runs_ret.mp hf).2
    | ok a => exact ⟨tr₁, tr₂, a, rfl, hp, hf⟩
  · rintro ⟨tr₁, tr₂, a, rfl, hp, hf⟩
    exact Prog.runs_bind.mpr ⟨tr₁, tr₂, .ok a, rfl, hp, hf⟩

theorem yields_map {f : α → β} {b : β} : Yields (f <$> p) tr b ↔ ∃ a, Yields p tr a ∧ b = f a := by
  rw [map_eq_pure_bind, yields_bind]
  constructor
  · rintro ⟨tr₁, tr₂, a, rfl, hp, hret⟩
    obtain ⟨rfl, rfl⟩ := yields_pure.mp hret
    exact ⟨a, by rwa [List.append_nil], rfl⟩
  · rintro ⟨a, hp, rfl⟩
    exact ⟨tr, [], a, (List.append_nil tr).symm, hp, yields_pure.mpr ⟨rfl, rfl⟩⟩

theorem yields_lift {p : Prog S α} : Yields (ExceptT.lift p : Proc S ε α) tr a ↔ Prog.Runs p tr a := by
  constructor
  · intro h
    obtain ⟨tr₁, tr₂, b, rfl, hp, hret⟩ := Prog.runs_bind.mp h
    obtain ⟨rfl, hab⟩ := Prog.runs_ret.mp hret
    cases hab
    rwa [List.append_nil]
  · intro h
    exact Prog.runs_bind.mpr ⟨tr, [], a, by simp, h, .here _⟩

theorem isOk_iff {x : Except ε α} : x.isOk ↔ ∃ a, x = .ok a := by
  cases x <;> simp [Except.isOk, Except.toBool]

theorem yields_of_eval (ans : (r : S.Req) → S.Resp r) (h : (p.run.eval ans).isOk) :
    ∃ tr a, Yields p tr a := by
  obtain ⟨tr, hrun⟩ := p.run.runs_eval ans
  obtain ⟨a, hval⟩ := isOk_iff.mp h
  rw [hval] at hrun
  exact ⟨tr, a, hrun⟩

end Yields

section Ensures

open Prog (Ensures)

variable {ok : Ev S → Prop} {Q : Except ε α → Prop}

theorem ensures_pure : Ensures ok Q (pure a : Proc S ε α).run ↔ Q (.ok a) := Iff.rfl

theorem ensures_throw : Ensures ok Q (throw e : Proc S ε α).run ↔ Q (.error e) := Iff.rfl

/-- A sequence: the second part is asked for what the first returns, and an error goes through. -/
theorem ensures_bind {Q : Except ε β → Prop} :
    Ensures ok Q (p >>= f).run ↔
      Ensures ok (fun
        | .ok a => Ensures ok Q (f a).run
        | .error e => Q (.error e)) p.run := by
  refine Prog.ensures_bind.trans ?_
  refine ⟨fun h => h.mono ?_, fun h => h.mono ?_⟩
  all_goals
    rintro (e | a) hr
    · exact hr
    · exact hr

theorem ensures_lift {p : Prog S α} :
    Ensures ok Q (ExceptT.lift p : Proc S ε α).run ↔ Ensures ok (fun a => Q (.ok a)) p :=
  Prog.ensures_bind

theorem ensures_map {Q : Except ε β → Prop} {f : α → β} :
    Ensures ok Q (f <$> p).run ↔ Ensures ok (fun r => Q (r.map f)) p.run := by
  rw [map_eq_pure_bind, ensures_bind]
  refine ⟨fun h => h.mono ?_, fun h => h.mono ?_⟩
  all_goals
    rintro (e | a) hr
    · exact hr
    · exact hr

end Ensures

theorem reach_bind (hp : Yields p tr₁ a) (hf : Prog.Reach (f a).run tr₂ q) : Prog.Reach (p >>= f).run (tr₁ ++ tr₂) q :=
  Prog.Reach.bind_intro hp hf

section Avoids

variable {bad : S.Req → Prop}

/-- No request in `bad`, whatever the answers and the outcome. -/
def Avoids (bad : S.Req → Prop) (p : Proc S ε α) : Prop := Prog.Never bad p.run

theorem avoids_pure : Avoids bad (pure a : Proc S ε α) := trivial

theorem avoids_throw : Avoids bad (throw e : Proc S ε α) := trivial

theorem avoids_request (h : ¬bad r) : Avoids bad (Proc.request r : Proc S ε _) := ⟨h, fun _ => trivial⟩

theorem avoids_lift {p : Prog S α} (h : Prog.Never bad p) : Avoids bad (ExceptT.lift p : Proc S ε α) :=
  h.bind fun _ => trivial

theorem Avoids.bind (hp : Avoids bad p) (hf : ∀ a, Avoids bad (f a)) : Avoids bad (p >>= f) := by
  refine Prog.Never.bind hp ?_
  rintro (e | a)
  · trivial
  · exact hf a

/-- A partial run that has come far enough: it made a request in `bad`, or it has succeeded. -/
def Beyond (bad : S.Req → Prop) (tr : List (Ev S)) (q : Prog S (Except ε α)) : Prop :=
  (∃ e ∈ tr, bad e.req) ∨ ∃ a, q = .ret (.ok a)

theorem Beyond.later (h : Beyond bad tr q) (hkeep : ∀ e ∈ tr, bad e.req → e ∈ tr') : Beyond bad tr' q := by
  rcases h with ⟨e, he, hbad⟩ | hdone
  · exact .inl ⟨e, hkeep e he hbad, hbad⟩
  · exact .inr hdone

/-- **Past a stage.**  A partial run that is beyond `bad` has left a first stage that avoids `bad`, left it
with success, and makes its requests in `bad` after it. -/
theorem reach_past (h : Prog.Reach (p >>= f).run tr q) (hp : Avoids bad p) (hq : Beyond bad tr q) :
    ∃ tr₁ tr₂ a, tr = tr₁ ++ tr₂ ∧ Yields p tr₁ a ∧ Prog.Reach (f a).run tr₂ q ∧ Beyond bad tr₂ q ∧
      ∀ e ∈ tr, bad e.req → e ∈ tr₂ := by
  -- a run of the first stage has nothing of `bad`, so a request of `bad` lies behind it
  have hkeep : ∀ {tr₁ tr₂ : List (Ev S)} {r}, Prog.Runs p.run tr₁ r → ∀ e ∈ tr₁ ++ tr₂, bad e.req → e ∈ tr₂ := by
    intro tr₁ tr₂ r hrun e he hbad
    rcases List.mem_append.mp he with hfirst | hlast
    · exact absurd hbad (hp.reach hrun e hfirst)
    · exact hlast
  rcases hq with ⟨e, he, hbad⟩ | ⟨b, rfl⟩
  · rcases Prog.Reach.bind_cases h with ⟨p', hreach⟩ | ⟨tr₁, tr₂, r, rfl, hrun, hrest⟩
    · exact absurd hbad (hp.reach hreach e he)
    cases r with
    | ok a => exact ⟨tr₁, tr₂, a, rfl, hrun, hrest, .inl ⟨e, hkeep hrun e he hbad, hbad⟩, hkeep hrun⟩
    | error err =>
      have hstop : Prog.Reach (.ret (.error err) : Prog S (Except ε β)) tr₂ q := hrest
      cases hstop
      cases hkeep hrun e he hbad
  · obtain ⟨tr₁, tr₂, a, rfl, hrun, hrest⟩ := yields_bind.mp h
    exact ⟨tr₁, tr₂, a, rfl, hrun, hrest, .inr ⟨b, rfl⟩, hkeep hrun⟩

theorem reach_request {f : S.Resp r → Proc S ε β} (h : Prog.Reach (Proc.request r >>= f).run tr q) :
    tr = [] ∨ ∃ x tr', tr = ⟨r, x⟩ :: tr' ∧ Prog.Reach (f x).run tr' q := by
  cases h with
  | here => exact .inl rfl
  | step hrest => exact .inr ⟨_, _, rfl, hrest⟩

/-- A program that avoids `bad` and always fails never gets beyond it. -/
theorem not_beyond {q : Prog S (Except ε α)} (h : Prog.Reach p.run tr q) (hp : Avoids bad p)
    (hfail : ∀ tr a, ¬Yields p tr a) : ¬Beyond bad tr q := by
  rintro (⟨e, he, hbad⟩ | ⟨a, rfl⟩)
  · exact hp.reach h e he hbad
  · exact hfail tr a h

end Avoids

section Spares

open Prog (NeverWhile Ensures)

variable {ok : Ev S → Prop} {bad : S.Req → Prop}

/-- With answers in `ok`, no request in `bad`, whatever the outcome. -/
def Spares (ok : Ev S → Prop) (bad : S.Req → Prop) (p : Proc S ε α) : Prop := NeverWhile ok bad p.run

theorem spares_pure : Spares ok bad (pure a : Proc S ε α) := trivial

theorem spares_throw : Spares ok bad (throw e : Proc S ε α) := trivial

theorem spares_throw_bind : Spares ok bad ((throw e : Proc S ε α) >>= f) := trivial

theorem spares_request (h : ¬bad r) : Spares ok bad (Proc.request r : Proc S ε _) := ⟨h, fun _ _ => trivial⟩

/-- A sequence spares what its first part does and, where that succeeds, its second. -/
theorem spares_bind :
    Spares ok bad (p >>= f) ↔ Spares ok bad p ∧
      Ensures ok (fun
        | .ok a => Spares ok bad (f a)
        | .error _ => True) p.run := by
  refine Prog.neverWhile_bind.trans (and_congr_right fun _ => ?_)
  refine ⟨fun h => h.mono ?_, fun h => h.mono ?_⟩
  all_goals
    rintro (e | a) hr
    · trivial
    · exact hr

theorem Spares.bind (hp : Spares ok bad p) (hf : ∀ a, Spares ok bad (f a)) : Spares ok bad (p >>= f) := by
  refine Prog.NeverWhile.bind hp ?_
  rintro (e | a)
  · trivial
  · exact hf a

theorem Spares.avoids (h : Spares (fun _ => True) bad p) : Avoids bad p := by
  unfold Spares Avoids at *
  generalize p.run = q at *
  induction q with
  | ret a => trivial
  | ask r k ih => exact ⟨h.1, fun x => ih x (h.2 x trivial)⟩

theorem spares_lift {p : Prog S α} (h : NeverWhile ok bad p) : Spares ok bad (ExceptT.lift p : Proc S ε α) :=
  h.bind fun _ => trivial

theorem Avoids.spares (h : Avoids bad p) : Spares ok bad p := Prog.Never.neverWhile h

/-- With answers in `ok`, no request in `bad` after the first. -/
def Once (ok : Ev S → Prop) (bad : S.Req → Prop) (p : Proc S ε α) : Prop := Prog.Once ok bad p.run

theorem once_pure : Once ok bad (pure a : Proc S ε α) := trivial

theorem once_throw : Once ok bad (throw e : Proc S ε α) := trivial

theorem once_request : Once ok bad (Proc.request r : Proc S ε _) := fun _ => ⟨trivial, fun _ => trivial⟩

theorem Once.bind (hp : Once ok bad p) (hf : ∀ a, Once ok bad (f a)) (hrest : ∀ a, Spares ok bad (f a)) :
    Once ok bad (p >>= f) := by
  refine Prog.Once.bind hp ?_ ?_
  all_goals
    rintro (e | a)
    · trivial
  · exact hf a
  · exact hrest a

theorem Avoids.once_bind (hp : Avoids bad p) (hf : ∀ a, Once ok bad (f a)) : Once ok bad (p >>= f) := by
  refine Prog.Never.once_bind hp ?_
  rintro (e | a)
  · trivial
  · exact hf a

theorem Once.lift (h : Once ok bad p) : Once ok bad (ExceptT.lift p.run : Proc S ε (Except ε α)) :=
  Prog.Once.bind h (fun _ => trivial) fun _ => trivial

end Spares

end Proc

end Zap.Lib
