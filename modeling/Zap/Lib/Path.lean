/-
# Zap.Lib.Path — runs of a labelled transition system and the invariant rule.

A run is a list of labels that leads from one state to another (`Path`). Everything proved about whole
runs in this development goes through the rules below: `Path.invariant` (what every step preserves, every
run preserves), `Path.concat_induction` (the same for statements that also speak of the labels so far)
and `Path.det` (labels that determine each step determine the run). Two processes that share a state
and take turns in any order are `both`; when every step of one can be moved before the other's,
`Path.sorted` reduces every schedule to the one that lets it run first.
-/
import Mathlib.Data.List.Induction

namespace Zap.Lib

variable {σ L : Type*} {step : σ → L → σ → Prop}

/-- `Path step s tr t`: the labels `tr`, one step each, lead from `s` to `t`. -/
inductive Path (step : σ → L → σ → Prop) : σ → List L → σ → Prop
  | nil (s : σ) : Path step s [] s
  | cons {s t u : σ} {l : L} {tr : List L} : step s l t → Path step t tr u → Path step s (l :: tr) u

namespace Path

variable {s t u t' : σ} {l l' : L} {tr pre pre' : List L}

theorem nil_iff : Path step s [] t ↔ s = t := by
  constructor
  · rintro ⟨⟩
    rfl
  · rintro rfl
    exact .nil _

theorem cons_iff : Path step s (l :: tr) u ↔ ∃ t, step s l t ∧ Path step t tr u := by
  constructor
  · rintro ⟨⟩
    exact ⟨_, ‹_›, ‹_›⟩
  · rintro ⟨t, hstep, hrest⟩
    exact .cons hstep hrest

theorem append_iff {tr' : List L} : Path step s (tr ++ tr') u ↔ ∃ t, Path step s tr t ∧ Path step t tr' u := by
  induction tr generalizing s with
  | nil => simp [nil_iff]
  | cons l tr ih =>
    simp only [List.cons_append, cons_iff, ih]
    constructor
    · rintro ⟨t, hl, t', htr, htr'⟩
      exact ⟨t', ⟨t, hl, htr⟩, htr'⟩
    · rintro ⟨t', ⟨t, hl, htr⟩, htr'⟩
      exact ⟨t, hl, t', htr, htr'⟩

theorem concat_iff : Path step s (tr ++ [l]) u ↔ ∃ t, Path step s tr t ∧ step t l u := by
  simp [append_iff, cons_iff, nil_iff]

theorem concat_induction {motive : ∀ tr t, Path step s tr t → Prop} (init : motive [] s (.nil s))
    (snoc : ∀ {tr t l u} (h : Path step s tr t) (hl : step t l u), motive tr t h →
      motive (tr ++ [l]) u (concat_iff.mpr ⟨t, h, hl⟩)) {tr : List L} {t : σ} (h : Path step s tr t) :
    motive tr t h := by
  induction tr using List.reverseRecOn generalizing t with
  | nil =>
    obtain rfl := nil_iff.mp h
    exact init
  | append_singleton tr l ih =>
    obtain ⟨u, hrun, hstep⟩ := concat_iff.mp h
    exact snoc hrun hstep (ih hrun)

theorem stay (h : ∀ l ∈ tr, step s l s) : Path step s tr s := by
  induction tr with
  | nil => exact .nil s
  | cons l tr ih => exact .cons (h l List.mem_cons_self) (ih fun l' hl' => h l' (List.mem_cons_of_mem _ hl'))

theorem det (hdet : ∀ {s l t t'}, step s l t → step s l t' → t = t') (h : Path step s tr t) (h' : Path step s tr t') :
    t = t' := by
  induction h with
  | nil => exact nil_iff.mp h'
  | cons hl _ ih =>
    obtain ⟨u, hu, hrest⟩ := cons_iff.mp h'
    obtain rfl := hdet hl hu
    exact ih hrest

theorem foldlM_iff {f : σ → L → Option σ} : Path (fun s l t => f s l = some t) s tr u ↔ tr.foldlM f s = some u := by
  induction tr generalizing s with
  | nil => simp [nil_iff]
  | cons l tr ih => simp only [cons_iff, ih, List.foldlM_cons, Option.bind_eq_bind, Option.bind_eq_some_iff]

theorem mono {step' : σ → L → σ → Prop} (hstep : ∀ {s l t}, step s l t → step' s l t) (h : Path step s tr t) :
    Path step' s tr t := by
  induction h with
  | nil s => exact .nil s
  | cons hl _ ih => exact .cons (hstep hl) ih

theorem invariant {I : σ → Prop} (hstep : ∀ {s l t}, I s → step s l t → I t) (h : Path step s tr t) (hs : I s) :
    I t := by
  induction h with
  | nil => exact hs
  | cons hl _ ih => exact ih (hstep hs hl)

/-! ## Positions in a run -/

/-- The label `l` occurs in a run from `s`, after the labels `pre` and in the state `t`. -/
def Occurs (step : σ → L → σ → Prop) (s : σ) (tr pre : List L) (l : L) (t : σ) : Prop :=
  (∃ post, tr = pre ++ l :: post) ∧ Path step s pre t

/-- What holds at the end and not at first was brought about by some step. -/
theorem cause {P : σ → Prop} {Q : L → Prop} (hgiven : ∀ {s l t}, step s l t → P t → P s ∨ Q l) (h : Path step s tr t)
    (hs : ¬P s) (ht : P t) : ∃ l ∈ tr, Q l := by
  induction h with
  | nil => exact absurd ht hs
  | @cons s t1 t l tr hstep _ ih =>
    by_cases h1 : P t1
    · exact ⟨l, List.mem_cons_self, (hgiven hstep h1).resolve_left hs⟩
    · obtain ⟨l', hl', hq⟩ := ih h1 ht
      exact ⟨l', List.mem_cons_of_mem _ hl', hq⟩

/-- What a step brings about, and no later one undoes, holds at the end. -/
theorem lasts {I : σ → Prop} (h : Path step s tr t) (hl : l ∈ tr) (hstep : ∀ {s l t}, I s → step s l t → I t)
    (hset : ∀ {s t}, step s l t → I t) : I t := by
  obtain ⟨pre, post, rfl⟩ := List.append_of_mem hl
  obtain ⟨s1, -, hrest⟩ := append_iff.mp h
  obtain ⟨s2, hl, hpost⟩ := cons_iff.mp hrest
  exact hpost.invariant hstep (hset hl)

theorem Occurs.snoc (h : Occurs step s tr pre l t) (l' : L) : Occurs step s (tr ++ [l']) pre l t := by
  obtain ⟨⟨post, rfl⟩, hpath⟩ := h
  exact ⟨⟨post ++ [l'], by simp⟩, hpath⟩

theorem Occurs.mem (h : Occurs step s tr pre l t) : l ∈ tr := by
  obtain ⟨⟨post, rfl⟩, -⟩ := h
  simp

theorem occurs_of_mem (h : Path step s tr u) (hl : l ∈ tr) : ∃ pre t, Occurs step s tr pre l t := by
  obtain ⟨pre, post, rfl⟩ := List.append_of_mem hl
  obtain ⟨t, hpre, -⟩ := append_iff.mp h
  exact ⟨pre, t, ⟨post, rfl⟩, hpre⟩

theorem Occurs.next (h : Occurs step s tr pre l t) (hrun : Path step s tr u)
    (hdet : ∀ {s l t t'}, step s l t → step s l t' → t = t') : ∃ t', step t l t' ∧ Path step s (pre ++ [l]) t' := by
  obtain ⟨⟨post, rfl⟩, hpre⟩ := h
  obtain ⟨t1, hpre1, hrest⟩ := append_iff.mp hrun
  obtain rfl : t = t1 := @det σ L step s t t1 pre hdet hpre hpre1
  obtain ⟨t', hstep, -⟩ := cons_iff.mp hrest
  exact ⟨t', hstep, concat_iff.mpr ⟨t, hpre, hstep⟩⟩

theorem Occurs.trichotomy (h : Occurs step s tr pre l t) (h' : Occurs step s tr pre' l' t') :
    (pre' = pre ∧ l' = l) ∨ (∃ mid, pre' = pre ++ l :: mid) ∨ ∃ mid, pre = pre' ++ l' :: mid := by
  obtain ⟨⟨post, rfl⟩, -⟩ := h
  obtain ⟨⟨post', heq⟩, -⟩ := h'
  rcases List.append_eq_append_iff.mp heq with ⟨mid, rfl, hmid⟩ | ⟨mid, rfl, hmid⟩
  · cases mid with
    | nil => exact .inl ⟨by simp, (List.cons.inj hmid).1.symm⟩
    | cons x mid =>
      obtain ⟨rfl, -⟩ := List.cons.inj hmid
      exact .inr (.inl ⟨mid, rfl⟩)
  · cases mid with
    | nil => exact .inl ⟨by simp, (List.cons.inj hmid).1⟩
    | cons x mid =>
      obtain ⟨rfl, -⟩ := List.cons.inj hmid
      exact .inr (.inr ⟨mid, rfl⟩)

theorem Occurs.first_unique {P : L → Prop} (h : Occurs step s tr pre l t) (h' : Occurs step s tr pre' l' t') (hl : P l)
    (hl' : P l') (hpre : ∀ x ∈ pre, ¬P x) (hpre' : ∀ x ∈ pre', ¬P x) : pre' = pre ∧ l' = l := by
  rcases h.trichotomy h' with hsame | ⟨mid, rfl⟩ | ⟨mid, rfl⟩
  · exact hsame
  · exact absurd hl (hpre' l (by simp))
  · exact absurd hl' (hpre l' (by simp))

/-! ## Schedules of two processes -/

variable {L₁ L₂ : Type*} {step₁ : σ → L₁ → σ → Prop} {step₂ : σ → L₂ → σ → Prop}

/-- Two processes on one state; the label says which of them moves. -/
def both (step₁ : σ → L₁ → σ → Prop) (step₂ : σ → L₂ → σ → Prop) (s : σ) : L₁ ⊕ L₂ → σ → Prop
  | .inl a => step₁ s a
  | .inr b => step₂ s b

theorem both_append {tr1 : List L₁} {tr2 : List L₂} (h1 : Path step₁ s tr1 t) (h2 : Path step₂ t tr2 u) :
    Path (both step₁ step₂) s (tr1.map .inl ++ tr2.map .inr) u := by
  refine append_iff.mpr ⟨t, ?_, ?_⟩
  · clear h2
    induction h1 with
    | nil => exact .nil _
    | cons hl _ ih => exact .cons hl ih
  · clear h1
    induction h2 with
    | nil => exact .nil _
    | cons hl _ ih => exact .cons hl ih

theorem swap (hswap : ∀ {s a t b u}, step₂ s b t → step₁ t a u → ∃ t', step₁ s a t' ∧ step₂ t' b u) {b : L₂}
    {tr : List L₁} (hb : step₂ s b t) (h : Path step₁ t tr u) : ∃ t', Path step₁ s tr t' ∧ step₂ t' b u := by
  induction h generalizing s with
  | nil => exact ⟨s, .nil _, hb⟩
  | cons ha _ ih =>
    obtain ⟨s1, hfirst, hsecond⟩ := hswap hb ha
    obtain ⟨t', hrun, hlast⟩ := ih hsecond
    exact ⟨t', .cons hfirst hrun, hlast⟩

/-- **Every schedule can be sorted** when the first process's steps move to the front. -/
theorem sorted (hswap : ∀ {s a t b u}, step₂ s b t → step₁ t a u → ∃ t', step₁ s a t' ∧ step₂ t' b u)
    {sched : List (L₁ ⊕ L₂)} (h : Path (both step₁ step₂) s sched u) :
    ∃ t, Path step₁ s (sched.filterMap Sum.getLeft?) t ∧ Path step₂ t (sched.filterMap Sum.getRight?) u := by
  induction h with
  | nil s => exact ⟨s, .nil _, .nil _⟩
  | @cons s _ u l sched hl _ ih =>
    obtain ⟨t, hfirst, hsecond⟩ := ih
    cases l with
    | inl a => exact ⟨t, .cons hl hfirst, hsecond⟩
    | inr b =>
      have hb : step₂ s b _ := hl
      obtain ⟨t', hrun, hlast⟩ := swap hswap hb hfirst
      exact ⟨t', hrun, .cons hlast hsecond⟩

end Path

end Zap.Lib
