/-
# Zap.Node.Handles — `Retain` and `Release` on a shared message.

The count of a slab's references is in its `bufRef`, but the way to it is a field of the message, and the message
is shared: `Release` takes the pointer out of `m.refs` and `m.data` before it decrements the count. A holder that
comes later finds nil in both. It has no bytes left to read, and its own `Release` decrements nothing.

Holders take turns between any two statements of `Retain` and `Release`; the loads and stores of the fields are
taken to be atomic, as `refs.Add` is.
-/
import Mathlib.Algebra.Group.Nat.Defs
import Zap.Lib.Path

namespace Zap.Handles

open Zap.Lib

/-! ## The message and its holders -/

/-- The fields of the message, set or nil, the count of its `bufRef`, and how often the slab went to its pool. -/
structure Shared where
  refs : Bool
  data : Bool
  count : BitVec 32
  puts : Nat

/-- Where a holder is; `r` is what it read from `m.refs`. -/
inductive Phase
  | held
  /-- `Retain` has seen `m.refs != nil`. -/
  | checked
  /-- `Release` has read `r := m.refs`. -/
  | loaded (r : Bool)
  /-- `m.refs = nil` -/
  | cleared (r : Bool)
  /-- `m.data = nil` -/
  | emptied (r : Bool)
  deriving DecidableEq

inductive Op
  | retain
  | release
  /-- The next statement of the call under way. -/
  | next

def Phase.released : Phase → Bool
  | loaded _ | cleared _ | emptied _ => true
  | held | checked => false

/-- `bufRef.release`, up to the `Put` of the slab. -/
def Shared.release (m : Shared) : Shared :=
  { m with count := m.count - 1, puts := if m.count - 1 ≠ 0 then m.puts else m.puts + 1 }

/-- What a holder does, and the holders there are in its place: after `Retain` one more, to whom the message is
handed, after `Release` none. `m.refs.retain()` reads the field once more, and panics on nil. -/
def act (m : Shared) : Op → Phase → Option (Shared × List Phase)
  | .retain, .held => some (m, if m.refs then [.checked] else [.held, .held])
  | .next, .checked => if m.refs then some ({ m with count := m.count + 1 }, [.held, .held]) else none
  | .release, .held => some (m, [.loaded m.refs])
  | .next, .loaded r => some ({ m with refs := false }, [.cleared r])
  | .next, .cleared r => some ({ m with data := false }, [.emptied r])
  | .next, .emptied r => some (if r then m.release else m, [])
  | _, _ => none

structure State where
  mem : Shared
  holders : List Phase

/-- A message over a slab from `getBuf`, with one holder. -/
def init : State := ⟨⟨true, true, 1, 0⟩, [.held]⟩

def step (σ : State) (l : Nat × Op) : Option State := do
  let x ← σ.holders[l.1]?
  let (m, ys) ← act σ.mem l.2 x
  some ⟨m, σ.holders.take l.1 ++ ys ++ σ.holders.drop (l.1 + 1)⟩

abbrev Run (σ : State) (tr : List (Nat × Op)) (τ : State) : Prop := Path (fun s l t => step s l = some t) σ tr τ

def always (p : State → Bool) : State → List (Nat × Op) → Bool
  | σ, [] => p σ
  | σ, l :: tr => p σ && (step σ l).all (always p · tr)

/-- Whoever has not called `Release` can read the bytes, and the slab is not in its pool while somebody has it. -/
def Readable (σ : State) : Bool :=
  (σ.mem.data || σ.holders.all Phase.released) && (σ.mem.puts = 0 || σ.holders.isEmpty)

/-- If the step clears `m.refs`, then every holder's `Release` has read it. -/
def LoadedFirst (σ : State) (l : Nat × Op) : Bool :=
  match l.2, σ.holders[l.1]? with
  | .next, some (.loaded _) => σ.holders.all Phase.released
  | _, _ => true

def together : State → List (Nat × Op) → Bool
  | _, [] => true
  | σ, l :: tr => LoadedFirst σ l && (step σ l).all (together · tr)

/-! ## One step -/

variable {σ τ : State} {l : Nat × Op} {tr : List (Nat × Op)}

theorem step_eq (h : step σ l = some τ) : ∃ a x b m ys, σ.holders = a ++ x :: b ∧ σ.holders[l.1]? = some x ∧
    act σ.mem l.2 x = some (m, ys) ∧ τ = ⟨m, a ++ ys ++ b⟩ := by
  obtain ⟨x, hx, h⟩ := Option.bind_eq_some_iff.mp h
  obtain ⟨⟨m, ys⟩, hact, h⟩ := Option.bind_eq_some_iff.mp h
  obtain ⟨hlt, hget⟩ := List.getElem?_eq_some_iff.mp hx
  refine ⟨_, x, _, m, ys, ?_, hx, hact, (Option.some.inj h).symm⟩
  rw [← hget, ← List.drop_eq_getElem_cons hlt, List.take_append_drop]

/-- The holder has read the reference in its `Release`, and will decrement the count. -/
def Phase.drops : Phase → Bool
  | loaded r | cleared r | emptied r => r
  | held | checked => false

/-- Nobody has cleared anything, and the count is the number of holders. -/
structure Whole (σ : State) : Prop where
  count : σ.mem.count = BitVec.ofNat 32 σ.holders.length
  puts : σ.mem.puts = 0
  fields : σ.mem.refs = true ∧ σ.mem.data = true
  holders : σ.holders ≠ [] ∧ ∀ x ∈ σ.holders, x = .held ∨ x = .checked ∨ x = .loaded true

/-- `m.refs` is cleared, and the count is `d` above what will be taken from it: there were `d` holders who had not
read it. -/
structure Cleared (d : Nat) (σ : State) : Prop where
  refs : σ.mem.refs = false
  count : σ.mem.count = BitVec.ofNat 32 (σ.holders.countP Phase.drops + d)
  bound : σ.holders.countP Phase.drops + d < 2 ^ 32
  puts : σ.mem.puts = if σ.holders.countP Phase.drops + d = 0 then 1 else 0
  drops : d = 0 → ∀ x ∈ σ.holders, x.drops = true

theorem Whole.init : Whole init := ⟨rfl, rfl, ⟨rfl, rfl⟩, by decide⟩

theorem Whole.readable (h : Whole σ) : Readable σ = true := by
  simp [Readable, h.puts, h.fields.2]

theorem Cleared.released (h : Cleared 0 σ) : σ.holders.all Phase.released = true := by
  refine List.all_eq_true.mpr fun x hx => ?_
  have hx := h.drops rfl x hx
  cases x <;> first | rfl | cases hx

theorem Cleared.readable (h : Cleared 0 σ) : Readable σ = true := by
  have hputs : σ.mem.puts = 0 ∨ σ.holders = [] := by
    rw [h.puts, List.countP_eq_length.mpr (h.drops rfl)]
    cases σ.holders <;> simp
  simpa [Readable, h.released] using hputs

theorem Shared.release_eq {m : Shared} {n : Nat} (hn : n < 2 ^ 32) (hc : m.count = BitVec.ofNat 32 (n + 1))
    (hp : m.puts = 0) : m.release.count = BitVec.ofNat 32 n ∧ m.release.puts = if n = 0 then 1 else 0 := by
  have hpred : m.count - 1 = BitVec.ofNat 32 n := by
    rw [hc, ← BitVec.ofNat_add_ofNat]
    exact BitVec.add_sub_cancel _ _
  have hzero : BitVec.ofNat 32 n = 0 ↔ n = 0 := by
    rw [← BitVec.toNat_inj, BitVec.toNat_ofNat, Nat.mod_eq_of_lt hn]
    rfl
  simp only [Shared.release, hpred, hp, ne_eq, hzero, ite_not, and_self]

/-- After the first clearing every step leaves `d` as it is. -/
theorem Cleared.next {d : Nat} (h : Cleared d σ) (hs : step σ l = some τ) : Cleared d τ := by
  obtain ⟨a, x, b, m, ys, hσ, -, hact, rfl⟩ := step_eq hs
  obtain ⟨mem, holders⟩ := σ
  obtain ⟨i, op⟩ := l
  obtain ⟨hrefs, hcount, hbound, hputs, hdrops⟩ := h
  dsimp only at hσ hact hrefs hcount hbound hputs hdrops
  subst hσ
  -- as many will decrement the count as before, and nobody has yet
  have same : ∀ (m : Shared) (ys : List Phase), m.refs = false → m.count = mem.count → m.puts = mem.puts →
      ys.countP Phase.drops = [x].countP Phase.drops → (x.drops = true → ∀ y ∈ ys, y.drops = true) →
      Cleared d ⟨m, a ++ ys ++ b⟩ := by
    intro m ys hr hc hp hys hall
    have hsum : (a ++ ys ++ b).countP Phase.drops = (a ++ x :: b).countP Phase.drops := by
      simp only [List.countP_append, hys, List.append_cons a x b]
    refine ⟨hr, by rw [hc, hcount, hsum], by rwa [hsum], by rw [hp, hputs, hsum], fun h0 => ?_⟩
    have := hdrops h0
    simp only [List.forall_mem_append, List.forall_mem_cons] at this ⊢
    exact ⟨⟨this.1, hall this.2.1⟩, this.2.2⟩
  cases op <;> cases x <;> simp only [act, hrefs, reduceCtorEq] at hact
  case next.checked => cases hact
  case retain.held => cases hact; exact same _ _ hrefs rfl rfl rfl nofun
  case release.held => cases hact; exact same _ _ hrefs rfl rfl rfl nofun
  case next.loaded r => cases hact; exact same _ _ rfl rfl rfl rfl (by simp [Phase.drops])
  case next.cleared r => cases hact; exact same _ _ rfl rfl rfl rfl (by simp [Phase.drops])
  case next.emptied r =>
    cases hact
    cases r
    · exact same _ _ hrefs rfl rfl rfl nofun
    have hsum : (a ++ .emptied true :: b).countP Phase.drops = (a ++ [] ++ b).countP Phase.drops + 1 := by
      rw [List.append_nil, List.countP_append, List.countP_append, List.countP_cons_of_pos rfl, Nat.add_assoc]
    rw [hsum, Nat.add_right_comm] at hcount hbound hputs
    have hlt := Nat.lt_of_succ_lt hbound
    obtain ⟨hc, hp⟩ := Shared.release_eq hlt hcount (hputs.trans (if_neg (Nat.succ_ne_zero _)))
    refine ⟨hrefs, hc, hlt, hp, fun h0 => ?_⟩
    have := hdrops h0
    simp only [List.forall_mem_append, List.forall_mem_cons] at this ⊢
    exact ⟨⟨this.1, nofun⟩, this.2.2⟩

/-- Before it the message stays whole, and the first clearing leaves behind whoever has not read `m.refs`. -/
theorem Whole.next (h : Whole σ) (hfew : σ.holders.length < 2 ^ 31) (hs : step σ l = some τ) :
    (LoadedFirst σ l = true ∧ Whole τ) ∨ ∃ d, (LoadedFirst σ l = true ↔ d = 0) ∧ Cleared d τ := by
  obtain ⟨a, x, b, m, ys, hσ, hx, hact, rfl⟩ := step_eq hs
  obtain ⟨mem, holders⟩ := σ
  obtain ⟨i, op⟩ := l
  obtain ⟨hcount, hputs, ⟨hrefs, hdata⟩, -, hall⟩ := h
  dsimp only at hσ hx hact hcount hputs hrefs hdata hall hfew
  subst hσ
  have hother : (∀ z ∈ a, z = .held ∨ z = .checked ∨ z = .loaded true) ∧
      (∀ z ∈ b, z = .held ∨ z = .checked ∨ z = .loaded true) := by
    simp only [List.forall_mem_append, List.forall_mem_cons] at hall
    exact ⟨hall.1, hall.2.2⟩
  rcases hall x (by simp) with rfl | rfl | rfl <;> cases op <;> simp only [act, hrefs, reduceCtorEq] at hact <;>
  cases hact
  case inl.retain | inl.release =>
    refine .inl ⟨rfl, by simpa using hcount, hputs, ⟨hrefs, hdata⟩, by simp, ?_⟩
    simpa [or_imp, forall_and] using hother
  case inr.inl.next =>
    refine .inl ⟨by simp [LoadedFirst, hx], ?_, hputs, ⟨rfl, hdata⟩, by simp, ?_⟩
    · simp [hcount, ← BitVec.ofNat_add_ofNat, BitVec.add_assoc]
    · simpa [or_imp, forall_and] using hother
  case inr.inr.next =>
    have hdrops : ∀ z ∈ a ++ [Phase.cleared true] ++ b, z.drops = z.released := by
      simp only [List.forall_mem_append, List.forall_mem_singleton]
      refine ⟨⟨fun z hz => ?_, rfl⟩, fun z hz => ?_⟩
      · rcases hother.1 z hz with rfl | rfl | rfl <;> rfl
      · rcases hother.2 z hz with rfl | rfl | rfl <;> rfl
    have hsum : (a ++ .loaded true :: b).length = (a ++ [Phase.cleared true] ++ b).countP Phase.drops +
        (a ++ [Phase.cleared true] ++ b).countP fun z => ¬z.drops = true := by
      rw [← List.length_eq_countP_add_countP]
      simp
    have hzero : ((a ++ [Phase.cleared true] ++ b).countP fun z => ¬z.drops = true) = 0 ↔
        ∀ z ∈ a ++ [Phase.cleared true] ++ b, z.drops = true := by
      rw [List.countP_eq_zero]
      simp
    refine .inr ⟨_, ?_, rfl, hsum ▸ hcount, by dsimp only; omega, ?_, hzero.mp⟩
    · rw [hzero, forall₂_congr fun z hz => by rw [hdrops z hz]]
      simp [LoadedFirst, hx, or_imp, forall_and, Phase.released]
    · rw [← hsum, if_neg (by simp)]
      exact hputs

/-! ## Whole runs -/

def Few (σ : State) : Bool := σ.holders.length < 2 ^ 31

def Fine (σ : State) : Prop := Whole σ ∨ Cleared 0 σ

theorem Fine.readable (h : Fine σ) : Readable σ = true := h.elim Whole.readable Cleared.readable

theorem Fine.next (h : Fine σ) (hfew : σ.holders.length < 2 ^ 31) (hs : step σ l = some τ) :
    (LoadedFirst σ l = true ∧ Fine τ) ∨ (LoadedFirst σ l = false ∧ ∃ d, d ≠ 0 ∧ Cleared d τ) := by
  rcases h with h | h
  · rcases h.next hfew hs with ⟨hfirst, hτ⟩ | ⟨d, hfirst, hτ⟩
    · exact .inl ⟨hfirst, .inl hτ⟩
    · by_cases hd : d = 0
      · exact .inl ⟨hfirst.mpr hd, .inr (hd ▸ hτ)⟩
      · exact .inr ⟨Bool.eq_false_iff.mpr fun h => hd (hfirst.mp h), d, hd, hτ⟩
  · refine .inl ⟨?_, .inr (h.next hs)⟩
    unfold LoadedFirst
    split <;> [exact h.released; rfl]

/-- A reference is lost exactly if `m.refs` was cleared too early. -/
theorem Fine.run (h : Fine σ) (hrun : Run σ tr τ) (hfew : always Few σ tr = true) :
    (together σ tr = true ∧ always Readable σ tr = true ∧ Fine τ) ∨
      (together σ tr = false ∧ ∃ d, d ≠ 0 ∧ Cleared d τ) := by
  induction hrun with
  | nil σ => exact .inl ⟨rfl, h.readable, h⟩
  | cons hs hrest ih =>
    simp only [always, together, hs, Option.all_some, Bool.and_eq_true, Bool.and_eq_false_iff] at hfew ⊢
    rcases h.next (of_decide_eq_true hfew.1) hs with ⟨hfirst, hnext⟩ | ⟨hfirst, d, hd, hnext⟩
    · rcases ih hnext hfew.2 with ⟨ht, hr, hτ⟩ | ⟨ht, hτ⟩
      · exact .inl ⟨⟨hfirst, ht⟩, ⟨h.readable, hr⟩, hτ⟩
      · exact .inr ⟨.inr ht, hτ⟩
    · exact .inr ⟨.inl hfirst, d, hd, Path.invariant (fun h hs => h.next hs) hrest hnext⟩

/-- **When `Retain` and `Release` balance.**  After any number of `Retain`s, and with every holder's `Release` over,
the bytes were readable to every holder until it called `Release`, and the slab went to its pool once, with the last
`Release`, exactly if no `Release` cleared `m.refs` before all of them had read it. -/
theorem balanced_iff (hrun : Run init tr σ) (hover : σ.holders = []) (hfew : always Few init tr = true) :
    (always Readable init tr = true ∧ σ.mem.puts = 1) ↔ together init tr = true := by
  have hputs : ∀ d, Cleared d σ → σ.mem.puts = if d = 0 then 1 else 0 := by
    intro d h
    simpa [hover] using h.puts
  rcases Fine.run (.inl .init) hrun hfew with ⟨ht, hr, hσ⟩ | ⟨ht, d, hd, hσ⟩
  · rcases hσ with hσ | hσ
    · exact absurd hover hσ.holders.1
    · simp [ht, hr, hputs 0 hσ]
  · simp [ht, hputs d hσ, hd]

def retained : List (Nat × Op) := [(0, .retain), (0, .next)]

/-- Both holders' `Release`s have begun before either goes on. -/
theorem overlapping_balanced : ∃ σ,
    let tr := retained ++ [(0, .release), (1, .release)] ++ List.replicate 6 (0, .next)
    Run init tr σ ∧ always Readable init tr = true ∧ σ.mem.puts = 1 :=
  have hrun : Run init (retained ++ [(0, .release), (1, .release)] ++ List.replicate 6 (0, .next)) _ :=
    Path.foldlM_iff.mpr rfl
  ⟨_, hrun, (balanced_iff hrun rfl rfl).mpr rfl⟩

/-- **One after the other**: the second holder has nothing to read once the first has released, and the slab is not
in its pool after the second has. -/
theorem second_holder_stranded : ∃ σ τ,
    Run init (retained ++ (0, .release) :: List.replicate 3 (0, .next)) σ ∧ σ.holders = [.held] ∧
      σ.mem.data = false ∧ Run σ ((0, .release) :: List.replicate 3 (0, .next)) τ ∧ τ.holders = [] ∧ τ.mem.puts = 0 :=
  ⟨_, _, Path.foldlM_iff.mpr rfl, rfl, rfl, Path.foldlM_iff.mpr rfl, rfl, rfl⟩

end Zap.Handles
