/-
# Zap.Lib.Refcount — reference-counted blocks that go back to a pool.

A block is handed out under a header that counts its references; headers are pooled as well. Each
reference is a *hold*, numbered in the order it was taken. `release` decrements the count whatever the hold's
history, and the thread that brings the count to zero puts the block back and then the header; these are
steps of their own, so that other threads may move in between.

Nothing in the operations keeps a hold from being released twice. What does is the discipline of the
program: every hold that is still open has exactly one owner (`Disciplined`). Under it the count of a header is the
number of its open holds (`Sound`), hence

* `Sound.unreferenced` — a block on its way back to the pool is referred to by no open hold;
* `Sound.balance`      — a block was handed out as often as it came back, or once more.

Whether every block comes back is another matter: an open hold nobody owns any more keeps its block for good.
`Covered` says there is none; then a block that is out can be traced to an owner (`Placed.referred`).
-/
import Mathlib.Data.List.Basic
import Mathlib.Logic.Function.Basic

namespace Zap.Lib

/-! ## Pools -/

/-- A pool of `α`: what was ever made, and how many copies of each item lie in the pool. -/
structure Shelf (α : Type) where
  made : α → Bool
  copies : α → Nat

namespace Shelf

variable {α : Type} [DecidableEq α]

def empty : Shelf α := ⟨fun _ => false, fun _ => 0⟩

/-- Hand out `x`: a copy from the pool, or a new item. -/
def get? (p : Shelf α) (x : α) : Option (Shelf α) :=
  if 0 < p.copies x then some { p with copies := Function.update p.copies x (p.copies x - 1) }
  else if p.made x = false then some { p with made := Function.update p.made x true }
  else none

def put (p : Shelf α) (x : α) : Shelf α := { p with copies := Function.update p.copies x (p.copies x + 1) }

/-- `x` was handed out and has not come back. -/
def Away (p : Shelf α) (x : α) : Prop := p.made x = true ∧ p.copies x = 0

/-- No item lies in the pool twice, or before it was made. -/
def Single (p : Shelf α) : Prop := ∀ x, p.copies x ≤ 1 ∧ (p.made x = false → p.copies x = 0)

omit [DecidableEq α] in
theorem single_empty : (empty : Shelf α).Single := fun _ => ⟨Nat.zero_le 1, fun _ => rfl⟩

omit [DecidableEq α] in
theorem not_away_empty (x : α) : ¬(empty : Shelf α).Away x := fun h => nomatch h.1

variable {p q : Shelf α} {x : α}

theorem single_get (hp : p.Single) (h : p.get? x = some q) : q.Single := by
  unfold get? at h
  intro y
  have hy := hp y
  split_ifs at h with hpos hnew
  · cases h
    by_cases hyx : y = x
    · subst hyx
      have hmade : p.made y ≠ false := fun hf => by have := hy.2 hf; omega
      simp only [Function.update_self]
      exact ⟨by omega, fun hf => absurd hf hmade⟩
    · simpa only [Function.update_of_ne hyx] using hy
  · cases h
    by_cases hyx : y = x
    · subst hyx
      simp only [Function.update_self]
      exact ⟨hy.1, fun hf => nomatch hf⟩
    · simpa only [Function.update_of_ne hyx] using hy

theorem away_get (hp : p.Single) (h : p.get? x = some q) : ¬p.Away x ∧ ∀ y, q.Away y ↔ y = x ∨ p.Away y := by
  unfold get? at h
  have hx := hp x
  split_ifs at h with hpos hnew
  · cases h
    have hmade : p.made x = true := by
      cases hm : p.made x with
      | true => rfl
      | false => have := hx.2 hm; omega
    refine ⟨fun haway => by have := haway.2; omega, fun y => ?_⟩
    by_cases hyx : y = x
    · subst hyx
      have hzero : p.copies y - 1 = 0 := by omega
      simp [Away, hmade, hzero]
    · simp [Away, hyx]
  · cases h
    refine ⟨fun haway => by simp [Away, hnew] at haway, fun y => ?_⟩
    by_cases hyx : y = x
    · subst hyx
      simp [Away, hx.2 hnew]
    · simp [Away, hyx]

theorem single_put (hp : p.Single) (hx : p.Away x) : (p.put x).Single := by
  intro y
  by_cases hyx : y = x
  · subst hyx
    simp only [put, Function.update_self, hx.2]
    exact ⟨Nat.le_refl 1, fun hf => by simp [hx.1] at hf⟩
  · simpa only [put, Function.update_of_ne hyx] using hp y

theorem away_put {y : α} : (p.put x).Away y ↔ y ≠ x ∧ p.Away y := by
  by_cases hyx : y = x
  · subst hyx
    simp [Away, put]
  · simp [Away, put, hyx]

end Shelf

/-! ## Headers, blocks and holds -/

/-- How far a hold has come. -/
inductive Status
  | held
  /-- Its release brought the count to zero. -/
  | last
  /-- The block is back, the header is not. -/
  | emptied
  | gone
  deriving DecidableEq

/-- One reference: the header it counts on, and the block it refers to, if that is a pooled one. -/
structure Hold (H B : Type) where
  header : H
  block : Option B
  status : Status

structure Store (H B : Type) where
  holds : List (Hold H B)
  refs : H → Int
  /-- The block a header has at present. -/
  block : H → Option B
  headers : Shelf H
  blocks : Shelf B
  /-- How often a block was handed out, and how often it was put back. -/
  gets : B → Nat
  puts : B → Nat

namespace Store

variable {H B : Type}

def init : Store H B := ⟨[], fun _ => 0, fun _ => none, .empty, .empty, fun _ => 0, fun _ => 0⟩

/-- A thread is about to put the block back. -/
def Closing (σ : Store H B) (b : B) : Prop :=
  ∃ (k : Nat) (d : Hold H B), σ.holds[k]? = some d ∧ d.status = .last ∧ σ.block d.header = some b

/-- Mark what has become of the hold `k`. -/
def mark (σ : Store H B) (k : Nat) (d : Hold H B) (s : Status) : Store H B :=
  { σ with holds := σ.holds.set k { d with status := s } }

variable {h : H} {b : Option B} {l : List (Hold H B)} {j : Nat} {s : Status}

section Operations

variable [DecidableEq H]

/-- A further hold on what the hold `k` refers to. -/
def retain (σ : Store H B) (k : Nat) : Option (Store H B) :=
  (σ.holds[k]?).map fun d =>
    { σ with
      refs := Function.update σ.refs d.header (σ.refs d.header + 1)
      holds := σ.holds ++ [⟨d.header, d.block, .held⟩] }

/-- Decrement the count; who brings it to zero goes on to recycle. -/
def release (σ : Store H B) (k : Nat) : Option (Store H B) :=
  (σ.holds[k]?).map fun d =>
    { σ.mark k d (if σ.refs d.header - 1 = 0 then .last else .gone) with
      refs := Function.update σ.refs d.header (σ.refs d.header - 1) }

def shelve (σ : Store H B) (k : Nat) : Option (Store H B) :=
  match σ.holds[k]? with
  | some d =>
    if d.status = .emptied then
      some { σ.mark k d .gone with headers := σ.headers.put d.header }
    else none
  | none => none

variable {σ τ : Store H B} {k : Nat}

theorem shelve_eq (h : σ.shelve k = some τ) : ∃ d, σ.holds[k]? = some d ∧ d.status = .emptied ∧
    τ = { σ.mark k d .gone with headers := σ.headers.put d.header } := by
  unfold shelve at h
  split at h
  case h_1 d hk =>
    split_ifs at h with hempty
    exact ⟨d, hk, hempty, (Option.some.inj h).symm⟩
  case h_2 => cases h

theorem retain_holds (h : σ.retain k = some τ) :
    ∃ d, σ.holds[k]? = some d ∧ τ.holds = σ.holds ++ [⟨d.header, d.block, .held⟩] := by
  obtain ⟨d, hk, rfl⟩ := Option.map_eq_some_iff.mp h
  exact ⟨d, hk, rfl⟩

theorem release_holds (h : σ.release k = some τ) :
    ∃ d s, σ.holds[k]? = some d ∧ s ≠ .held ∧ τ.holds = (σ.mark k d s).holds := by
  obtain ⟨d, hk, rfl⟩ := Option.map_eq_some_iff.mp h
  refine ⟨d, _, hk, ?_, rfl⟩
  split_ifs <;> simp

theorem shelve_holds (h : σ.shelve k = some τ) :
    ∃ d, σ.holds[k]? = some d ∧ d.status = .emptied ∧ τ.holds = (σ.mark k d .gone).holds := by
  obtain ⟨d, hk, hempty, rfl⟩ := shelve_eq h
  exact ⟨d, hk, hempty, rfl⟩

/-- The blocks are where they were. -/
structure Unmoved (σ τ : Store H B) : Prop where
  blocks : τ.blocks = σ.blocks
  block : τ.block = σ.block
  accounts : τ.gets = σ.gets ∧ τ.puts = σ.puts

theorem retain_unmoved (h : σ.retain k = some τ) : σ.Unmoved τ := by
  obtain ⟨d, -, rfl⟩ := Option.map_eq_some_iff.mp h
  exact ⟨rfl, rfl, rfl, rfl⟩

theorem release_unmoved (h : σ.release k = some τ) : σ.Unmoved τ := by
  obtain ⟨d, -, rfl⟩ := Option.map_eq_some_iff.mp h
  exact ⟨rfl, rfl, rfl, rfl⟩

theorem shelve_unmoved (h : σ.shelve k = some τ) : σ.Unmoved τ := by
  obtain ⟨d, -, -, rfl⟩ := shelve_eq h
  exact ⟨rfl, rfl, rfl, rfl⟩

variable [DecidableEq B]

/-- Take a block from its pool; without one, the block is a one-off. -/
def takeBlock (σ : Store H B) : Option B → Option (Store H B)
  | none => some σ
  | some b => (σ.blocks.get? b).map fun p =>
    { σ with blocks := p, gets := Function.update σ.gets b (σ.gets b + 1) }

/-- A new hold under the header `h`, with the count at one. -/
def get (σ : Store H B) (h : H) (b : Option B) : Option (Store H B) := do
  let headers ← σ.headers.get? h
  let σ ← σ.takeBlock b
  some { σ with
    headers := headers
    refs := Function.update σ.refs h 1
    block := Function.update σ.block h b
    holds := σ.holds ++ [⟨h, b, .held⟩] }

/-- Put the header's block back, if it has one. -/
def putBlock (σ : Store H B) (h : H) : Store H B :=
  match σ.block h with
  | none => σ
  | some b => { σ with
      blocks := σ.blocks.put b
      puts := Function.update σ.puts b (σ.puts b + 1)
      block := Function.update σ.block h none }

def recycle (σ : Store H B) (k : Nat) : Option (Store H B) :=
  match σ.holds[k]? with
  | some d => if d.status = .last then some ((σ.putBlock d.header).mark k d .emptied) else none
  | none => none

theorem get_eq (hget : σ.get h b = some τ) :
    ∃ p ρ, σ.headers.get? h = some p ∧ σ.takeBlock b = some ρ ∧ τ = { ρ with
      headers := p
      refs := Function.update ρ.refs h 1
      block := Function.update ρ.block h b
      holds := ρ.holds ++ [⟨h, b, .held⟩] } := by
  obtain ⟨p, hp, hget⟩ := Option.bind_eq_some_iff.mp hget
  obtain ⟨ρ, hρ, hget⟩ := Option.bind_eq_some_iff.mp hget
  exact ⟨p, ρ, hp, hρ, (Option.some.inj hget).symm⟩

theorem recycle_eq (h : σ.recycle k = some τ) : ∃ d, σ.holds[k]? = some d ∧ d.status = .last ∧
    τ = (σ.putBlock d.header).mark k d .emptied := by
  unfold recycle at h
  split at h
  case h_1 d hk =>
    split_ifs at h with hlast
    exact ⟨d, hk, hlast, (Option.some.inj h).symm⟩
  case h_2 => cases h

theorem get_holds (hget : σ.get h b = some τ) : τ.holds = σ.holds ++ [⟨h, b, .held⟩] := by
  obtain ⟨p, ρ, -, hρ, rfl⟩ := get_eq hget
  cases b with
  | none =>
    cases hρ
    rfl
  | some b =>
    obtain ⟨q, -, rfl⟩ := Option.map_eq_some_iff.mp hρ
    rfl

theorem putBlock_holds (h : H) : (σ.putBlock h).holds = σ.holds := by
  unfold putBlock
  split <;> rfl

theorem recycle_holds (h : σ.recycle k = some τ) :
    ∃ d, σ.holds[k]? = some d ∧ d.status = .last ∧ τ.holds = (σ.mark k d .emptied).holds := by
  obtain ⟨d, hk, hlast, rfl⟩ := recycle_eq h
  exact ⟨d, hk, hlast, by simp only [mark, putBlock_holds]⟩

theorem get_accounts {x : Option B} (hget : σ.get h x = some τ) (b : B) :
    τ.gets b = σ.gets b + (if x = some b then 1 else 0) ∧ τ.puts b = σ.puts b := by
  obtain ⟨p, ρ, -, hρ, rfl⟩ := get_eq hget
  cases x with
  | none =>
    cases hρ
    simp
  | some x =>
    obtain ⟨q, -, rfl⟩ := Option.map_eq_some_iff.mp hρ
    by_cases hb : b = x
    · simp [hb]
    · simp [hb, Ne.symm hb]

theorem recycle_accounts (h : σ.recycle k = some τ) (b : B) :
    τ.gets b = σ.gets b ∧ (τ.puts b = σ.puts b ∨ (σ.Closing b ∧ τ.puts b = σ.puts b + 1)) := by
  obtain ⟨d, hk, hlast, rfl⟩ := recycle_eq h
  simp only [mark, putBlock]
  split
  case h_1 => exact ⟨rfl, .inl rfl⟩
  case h_2 x hx =>
    by_cases hb : b = x
    · exact ⟨rfl, .inr ⟨⟨k, d, hk, hlast, hb ▸ hx⟩, by simp [hb]⟩⟩
    · exact ⟨rfl, .inl (by simp [hb])⟩

end Operations

/-! ## The count is the number of open holds -/

variable {σ τ : Store H B} {k : Nat} {d e : Hold H B}

/-- Replacing an entry moves a count by what the two entries contribute. -/
theorem countP_set_add (p : Hold H B → Bool) (hk : l[k]? = some d) :
    (l.set k e).countP p + (if p d then 1 else 0) = l.countP p + (if p e then 1 else 0) := by
  obtain ⟨hlt, rfl⟩ := List.getElem?_eq_some_iff.mp hk
  rw [List.countP_set hlt]
  have hpos : p l[k] = true → 0 < l.countP p := fun hp =>
    List.countP_pos_iff.mpr ⟨_, List.getElem_mem hlt, hp⟩
  by_cases hd : p l[k] = true
  · have hsome := hpos hd
    rw [if_pos hd]
    omega
  · rw [if_neg hd]
    omega

/-- Where a hold stands after another, or itself, was marked. -/
theorem mark_getElem? (s : Status) (h : (σ.mark k d s).holds[j]? = some e) :
    (j ≠ k ∧ σ.holds[j]? = some e) ∨ (j = k ∧ e = { d with status := s }) := by
  rw [mark, List.getElem?_set] at h
  split_ifs at h with hkj hlt
  · exact .inr ⟨hkj.symm, (Option.some.inj h).symm⟩
  · exact .inl ⟨fun hj => hkj hj.symm, h⟩

theorem append_getElem? (h : (l ++ [d])[k]? = some e) : l[k]? = some e ∨ e = d := by
  rw [List.getElem?_append] at h
  split_ifs at h with hlt
  · exact .inl h
  · exact .inr (by simpa using List.mem_of_getElem? h)

section Books

variable [DecidableEq H]

def holders (σ : Store H B) (h : H) : Nat := σ.holds.countP fun d => d.header = h ∧ d.status = .held

/-- The holds whose release has brought the header's count to zero. -/
def closers (σ : Store H B) (h : H) : Nat :=
  σ.holds.countP fun d => d.header = h ∧ (d.status = .last ∨ d.status = .emptied)

/-- The count is the number of open holds, or one thread is recycling and there is none. -/
def Tally (closers holders : Nat) (refs : Int) : Prop :=
  (closers = 0 ∧ 0 < holders ∧ refs = holders) ∨ (closers = 1 ∧ holders = 0)

structure Sound (σ : Store H B) : Prop where
  headers : σ.headers.Single
  blocks : σ.blocks.Single
  idle : ∀ h, ¬σ.headers.Away h → σ.closers h = 0 ∧ σ.holders h = 0 ∧ σ.block h = none
  counted : ∀ h, σ.headers.Away h → Tally (σ.closers h) (σ.holders h) (σ.refs h)
  refers : ∀ (k : Nat) (d : Hold H B), σ.holds[k]? = some d → d.status = .held → σ.block d.header = d.block
  emptied : ∀ (k : Nat) (d : Hold H B), σ.holds[k]? = some d → d.status = .emptied → σ.block d.header = none
  away : ∀ h b, σ.block h = some b → σ.blocks.Away b
  single : ∀ h h' b, σ.block h = some b → σ.block h' = some b → h = h'
  balance : ∀ b, (σ.blocks.Away b → σ.gets b = σ.puts b + 1) ∧ (¬σ.blocks.Away b → σ.gets b = σ.puts b)

theorem holders_mark (s : Status) (h : H) (hk : σ.holds[k]? = some d) :
    (σ.mark k d s).holders h + (if d.header = h ∧ d.status = .held then 1 else 0) =
      σ.holders h + (if d.header = h ∧ s = .held then 1 else 0) := by
  simpa [holders, mark] using countP_set_add (fun d => d.header = h ∧ d.status = .held) hk

theorem closers_mark (s : Status) (h : H) (hk : σ.holds[k]? = some d) :
    (σ.mark k d s).closers h +
        (if d.header = h ∧ (d.status = .last ∨ d.status = .emptied) then 1 else 0) =
      σ.closers h + (if d.header = h ∧ (s = .last ∨ s = .emptied) then 1 else 0) := by
  simpa [closers, mark] using
    countP_set_add (fun d => d.header = h ∧ (d.status = .last ∨ d.status = .emptied)) hk

theorem holders_pos (hk : σ.holds[k]? = some d) (hd : d.status = .held) : 0 < σ.holders d.header :=
  List.countP_pos_iff.mpr ⟨d, List.mem_of_getElem? hk, by simp [hd]⟩

theorem closers_pos (hk : σ.holds[k]? = some d) (hd : d.status = .last ∨ d.status = .emptied) :
    0 < σ.closers d.header :=
  List.countP_pos_iff.mpr ⟨d, List.mem_of_getElem? hk, by simpa using hd⟩

theorem holders_append (h : H) (hτ : τ.holds = σ.holds ++ [d]) (hd : d.status = .held) :
    τ.holders h = σ.holders h + if d.header = h then 1 else 0 := by
  simp [holders, hτ, hd, List.countP_append, List.countP_cons]

theorem closers_append (h : H) (hτ : τ.holds = σ.holds ++ [d]) (hd : d.status = .held) :
    τ.closers h = σ.closers h := by
  simp [closers, hτ, hd, List.countP_append]

/-! ## The operations keep the books -/

namespace Sound

theorem init : (Store.init : Store H B).Sound where
  headers := Shelf.single_empty
  blocks := Shelf.single_empty
  idle _ _ := ⟨rfl, rfl, rfl⟩
  counted h haway := absurd haway (Shelf.not_away_empty h)
  refers _ _ hk := nomatch hk
  emptied _ _ hk := nomatch hk
  away _ _ hb := nomatch hb
  single _ _ _ hb := nomatch hb
  balance b := ⟨fun haway => absurd haway (Shelf.not_away_empty b), fun _ => rfl⟩

variable (hs : σ.Sound)

include hs

theorem open_counted (hk : σ.holds[k]? = some d) (hd : d.status = .held) :
    σ.headers.Away d.header ∧ σ.closers d.header = 0 ∧ σ.refs d.header = σ.holders d.header := by
  have hpos := holders_pos hk hd
  have haway : σ.headers.Away d.header := by
    by_contra hn
    have := (hs.idle _ hn).2.1
    omega
  rcases hs.counted _ haway with ⟨hclosers, -, hrefs⟩ | ⟨-, hholders⟩
  · exact ⟨haway, hclosers, hrefs⟩
  · omega

/-- The header a thread is recycling is out, and has no open hold. -/
theorem closing (hk : σ.holds[k]? = some d) (hd : d.status = .last ∨ d.status = .emptied) :
    σ.headers.Away d.header ∧ σ.closers d.header = 1 ∧ σ.holders d.header = 0 := by
  have hpos := closers_pos hk hd
  have haway : σ.headers.Away d.header := by
    by_contra hn
    have := (hs.idle _ hn).1
    omega
  rcases hs.counted _ haway with ⟨hclosers, -, -⟩ | ⟨hclosers, hholders⟩
  · omega
  · exact ⟨haway, hclosers, hholders⟩

/-- **Nothing refers to a block that is put back.** -/
theorem unreferenced (hk : σ.holds[k]? = some d) (hd : d.status = .last) {b : B} (hb : σ.block d.header = some b)
    (hj : σ.holds[j]? = some e) (he : e.status = .held) : e.block ≠ some b := by
  intro heb
  have hsame : e.header = d.header := hs.single _ _ b ((hs.refers j e hj he).trans heb) hb
  have hpos := holders_pos hj he
  have hnone := (hs.closing hk (.inl hd)).2.2
  rw [hsame] at hpos
  omega

theorem marked (k : Nat) (d : Hold H B) (hs' : s ≠ .held)
    (hnone : s = .emptied → σ.block d.header = none) :
    (∀ (j : Nat) (e : Hold H B), (σ.mark k d s).holds[j]? = some e → e.status = .held → σ.block e.header = e.block) ∧
    ∀ (j : Nat) (e : Hold H B), (σ.mark k d s).holds[j]? = some e → e.status = .emptied → σ.block e.header = none := by
  constructor <;> intro j e hj he <;> rcases mark_getElem? s hj with ⟨-, hj⟩ | ⟨-, rfl⟩
  · exact hs.refers j e hj he
  · exact absurd he hs'
  · exact hs.emptied j e hj he
  · exact hnone he

theorem retain (hk : σ.holds[k]? = some d) (hd : d.status = .held) (h : σ.retain k = some τ) : τ.Sound := by
  simp only [Store.retain, hk, Option.map_some, Option.some.injEq] at h
  subst h
  obtain ⟨haway, hclosers, hrefs⟩ := hs.open_counted hk hd
  refine { hs with idle := ?_, counted := ?_, refers := ?_, emptied := ?_ }
  · intro h' hn
    have hne : d.header ≠ h' := fun heq => hn (heq ▸ haway)
    obtain ⟨hc, hh, hb⟩ := hs.idle h' hn
    refine ⟨?_, ?_, hb⟩
    · rw [closers_append h' rfl rfl]
      exact hc
    · rw [holders_append h' rfl rfl, if_neg hne]
      exact hh
  · intro h' ha
    rw [closers_append h' rfl rfl, holders_append h' rfl rfl]
    by_cases hh' : d.header = h'
    · subst hh'
      left
      simp [hclosers, hrefs]
    · simpa [hh', Ne.symm hh'] using hs.counted h' ha
  · intro j e hj he
    rcases append_getElem? hj with hj | rfl
    · exact hs.refers j e hj he
    · exact hs.refers k d hk hd
  · intro j e hj he
    rcases append_getElem? hj with hj | rfl
    · exact hs.emptied j e hj he
    · cases he

theorem release (hk : σ.holds[k]? = some d) (hd : d.status = .held) (h : σ.release k = some τ) : τ.Sound := by
  simp only [Store.release, hk, Option.map_some, Option.some.injEq] at h
  subst h
  obtain ⟨haway, hclosers, hrefs⟩ := hs.open_counted hk hd
  have hpos := holders_pos hk hd
  set st : Status := if σ.refs d.header - 1 = 0 then .last else .gone with hst
  have hopen : st ≠ .held ∧ st ≠ .emptied := by
    rw [hst]
    split_ifs <;> simp
  have hholders := fun h' => holders_mark st h' hk
  have hclosing := fun h' => closers_mark st h' hk
  simp only [hd, and_true, hopen.1, and_false, if_false, Nat.add_zero] at hholders
  simp only [hd, hopen.2, or_false, reduceCtorEq, and_false, if_false, Nat.add_zero] at hclosing
  have hmarked := hs.marked k d hopen.1 fun h => absurd h hopen.2
  refine { hs with idle := ?_, counted := ?_, refers := hmarked.1, emptied := hmarked.2 }
  · intro h' hn
    have hne : d.header ≠ h' := fun heq => hn (heq ▸ haway)
    obtain ⟨hc, hh, hb⟩ := hs.idle h' hn
    have h1 := hholders h'
    have h2 := hclosing h'
    simp only [hne, false_and, if_false, Nat.add_zero] at h1 h2
    exact ⟨h2.trans hc, h1.trans hh, hb⟩
  · intro h' ha
    have h1 := hholders h'
    have h2 := hclosing h'
    show Tally ((σ.mark k d st).closers h') ((σ.mark k d st).holders h')
      (Function.update σ.refs d.header (σ.refs d.header - 1) h')
    by_cases hh' : d.header = h'
    · subst hh'
      rw [Function.update_self]
      by_cases hzero : σ.refs d.header - 1 = 0
      · have hlast : st = .last := if_pos hzero
        simp only [hlast, if_true, true_and] at h1 h2 ⊢
        exact .inr ⟨by omega, by omega⟩
      · have hgone : st = .gone := if_neg hzero
        simp only [hgone, reduceCtorEq, and_false, if_true, if_false] at h1 h2 ⊢
        exact .inl ⟨by omega, by omega, by omega⟩
    · simp only [hh', false_and, if_false, Nat.add_zero] at h1 h2
      rw [h1, h2, Function.update_of_ne (Ne.symm hh')]
      exact hs.counted h' ha

theorem shelve (h : σ.shelve k = some τ) : τ.Sound := by
  obtain ⟨d, hk, hempty, rfl⟩ := shelve_eq h
  obtain ⟨haway, hone, hnone⟩ := hs.closing hk (.inr hempty)
  have hholders : ∀ h', (σ.mark k d .gone).holders h' = σ.holders h' := fun h' => by
    simpa [hempty] using holders_mark .gone h' hk
  have hclosers := fun h' => closers_mark .gone h' hk
  simp only [hempty, or_true, and_true, reduceCtorEq, or_self, and_false, if_false, Nat.add_zero] at hclosers
  have hmarked := hs.marked k d (s := .gone) (by simp) nofun
  refine { hs with
    headers := Shelf.single_put hs.headers haway
    idle := ?_, counted := ?_, refers := hmarked.1, emptied := hmarked.2 }
  · intro h' hn
    show (σ.mark k d .gone).closers h' = 0 ∧ (σ.mark k d .gone).holders h' = 0 ∧ σ.block h' = none
    have hc := hclosers h'
    by_cases hh' : d.header = h'
    · subst hh'
      rw [if_pos rfl] at hc
      exact ⟨by omega, (hholders _).trans hnone, hs.emptied k d hk hempty⟩
    · rw [if_neg hh'] at hc
      obtain ⟨h1, h2, h3⟩ := hs.idle h' fun ha => hn (Shelf.away_put.mpr ⟨Ne.symm hh', ha⟩)
      exact ⟨hc.trans h1, (hholders _).trans h2, h3⟩
  · intro h' ha
    show Tally ((σ.mark k d .gone).closers h') ((σ.mark k d .gone).holders h') (σ.refs h')
    obtain ⟨hne, ha⟩ := Shelf.away_put.mp ha
    have hc := hclosers h'
    rw [if_neg (Ne.symm hne), Nat.add_zero] at hc
    rw [hholders, hc]
    exact hs.counted h' ha

variable [DecidableEq B]

theorem takeBlock (h : σ.takeBlock b = some τ) :
    τ.Sound ∧ (∀ x, b = some x → τ.blocks.Away x ∧ ∀ h', τ.block h' ≠ some x) ∧ τ.headers = σ.headers := by
  cases b with
  | none =>
    cases h
    exact ⟨hs, by simp, rfl⟩
  | some b =>
    obtain ⟨p, hget, rfl⟩ := Option.map_eq_some_iff.mp h
    obtain ⟨hfree, haway⟩ := Shelf.away_get hs.blocks hget
    refine ⟨{ hs with
      blocks := Shelf.single_get hs.blocks hget
      away := fun h' x hx => (haway x).mpr (.inr (hs.away h' x hx))
      balance := ?_ }, ?_, rfl⟩
    · intro x
      by_cases hxb : x = b
      · subst hxb
        have hbal := (hs.balance x).2 hfree
        simp [haway, hbal]
      · simpa [haway, hxb] using hs.balance x
    · intro x hx
      cases hx
      exact ⟨(haway b).mpr (.inl rfl), fun h' hb => hfree (hs.away h' b hb)⟩

theorem get (hget : σ.get h b = some τ) : τ.Sound := by
  obtain ⟨p, ρ, hp, hρ, rfl⟩ := get_eq hget
  obtain ⟨hs, hnew, hheaders⟩ := hs.takeBlock hρ
  rw [← hheaders] at hp
  obtain ⟨hfree, haway⟩ := Shelf.away_get hs.headers hp
  obtain ⟨hclosers, hholders, -⟩ := hs.idle h hfree
  -- no hold, open or closing, is on a header that was not out
  have hother : ∀ {j : Nat} {e : Hold H B}, ρ.holds[j]? = some e → e.status ≠ .gone → e.header ≠ h := by
    intro j e hj he heh
    subst heh
    cases hst : e.status with
    | held => have := holders_pos hj hst; omega
    | last => have := closers_pos hj (.inl hst); omega
    | emptied => have := closers_pos hj (.inr hst); omega
    | gone => exact he hst
  constructor
  case headers => exact Shelf.single_get hs.headers hp
  case blocks => exact hs.blocks
  case idle =>
    intro h' hn
    have hn' : h' ≠ h ∧ ¬ρ.headers.Away h' := by simpa [haway] using hn
    obtain ⟨hc, hh, hb⟩ := hs.idle h' hn'.2
    refine ⟨?_, ?_, ?_⟩
    · rw [closers_append h' rfl rfl]
      exact hc
    · rw [holders_append h' rfl rfl, if_neg (Ne.symm hn'.1)]
      exact hh
    · rw [← hb]
      exact Function.update_of_ne hn'.1 _ _
  case counted =>
    intro h' ha
    rw [closers_append h' rfl rfl, holders_append h' rfl rfl]
    by_cases hh' : h' = h
    · subst hh'
      left
      simp [hclosers, hholders]
    · simpa [hh', Ne.symm hh'] using hs.counted h' (by simpa [haway, hh'] using ha)
  case refers =>
    intro j e hj he
    rcases append_getElem? hj with hj | rfl
    · have hne := hother hj (by simp [he])
      exact (Function.update_of_ne hne _ _).trans (hs.refers j e hj he)
    · exact Function.update_self _ _ _
  case emptied =>
    intro j e hj he
    rcases append_getElem? hj with hj | rfl
    · have hne := hother hj (by simp [he])
      exact (Function.update_of_ne hne _ _).trans (hs.emptied j e hj he)
    · cases he
  case away =>
    intro h' x hx
    by_cases hh' : h' = h
    · subst hh'
      exact (hnew x (by simpa using hx)).1
    · exact hs.away h' x (by simpa [hh'] using hx)
  case single =>
    intro h₁ h₂ x hx1 hx2
    by_cases h1 : h₁ = h <;> by_cases h2 : h₂ = h
    · rw [h1, h2]
    · exact absurd (by simpa [h2] using hx2) ((hnew x (by simpa [h1] using hx1)).2 h₂)
    · exact absurd (by simpa [h1] using hx1) ((hnew x (by simpa [h2] using hx2)).2 h₁)
    · exact hs.single h₁ h₂ x (by simpa [h1] using hx1) (by simpa [h2] using hx2)
  case balance => exact hs.balance

theorem putBlock (hnone : σ.holders h = 0) : (σ.putBlock h).Sound := by
  unfold Store.putBlock
  split
  case h_1 => exact hs
  case h_2 b hb =>
    have haway := hs.away h b hb
    have hkept : ∀ {h' x}, Function.update σ.block h none h' = some x → h' ≠ h ∧ σ.block h' = some x := by
      intro h' x hx
      by_cases hh' : h' = h
      · simp [hh'] at hx
      · exact ⟨hh', by simpa [hh'] using hx⟩
    refine { hs with
      blocks := Shelf.single_put hs.blocks haway
      idle := ?_, refers := ?_, emptied := ?_, away := ?_, single := ?_, balance := ?_ }
    · intro h' hn
      obtain ⟨hc, hh, hb'⟩ := hs.idle h' hn
      have hne : h' ≠ h := fun heq => by simp [heq, hb] at hb'
      exact ⟨hc, hh, (Function.update_of_ne hne _ _).trans hb'⟩
    · intro j e hj he
      have hpos : 0 < σ.holders e.header := holders_pos hj he
      have hne : e.header ≠ h := fun heq => by
        rw [heq] at hpos
        omega
      exact (Function.update_of_ne hne _ _).trans (hs.refers j e hj he)
    · intro j e hj he
      by_cases hh' : e.header = h
      · exact hh' ▸ Function.update_self _ _ _
      · exact (Function.update_of_ne hh' _ _).trans (hs.emptied j e hj he)
    · intro h' x hx
      obtain ⟨hne, hx'⟩ := hkept hx
      refine Shelf.away_put.mpr ⟨?_, hs.away h' x hx'⟩
      rintro rfl
      exact hne (hs.single _ _ _ hx' hb)
    · intro h1 h2 x hx1 hx2
      exact hs.single h1 h2 x (hkept hx1).2 (hkept hx2).2
    · intro x
      by_cases hxb : x = b
      · subst hxb
        simp [Shelf.away_put, (hs.balance x).1 haway]
      · simpa [Shelf.away_put, hxb] using hs.balance x

theorem recycle (h : σ.recycle k = some τ) : τ.Sound := by
  obtain ⟨d, hk, hlast, rfl⟩ := recycle_eq h
  have hρ := hs.putBlock (hs.closing hk (.inl hlast)).2.2
  have hnone : (σ.putBlock d.header).block d.header = none := by
    unfold Store.putBlock
    split
    · assumption
    · exact Function.update_self _ _ _
  have hk' : (σ.putBlock d.header).holds[k]? = some d := by rw [putBlock_holds, hk]
  -- the hold stays a closing one, so no count moves
  have hholders : ∀ h', ((σ.putBlock d.header).mark k d .emptied).holders h' =
      (σ.putBlock d.header).holders h' := fun h' => by
    simpa [hlast] using holders_mark .emptied h' hk'
  have hclosers : ∀ h', ((σ.putBlock d.header).mark k d .emptied).closers h' =
      (σ.putBlock d.header).closers h' := fun h' => by
    simpa [hlast] using closers_mark .emptied h' hk'
  have hmarked := hρ.marked k d (s := .emptied) (by simp) fun _ => hnone
  refine { hρ with idle := ?_, counted := ?_, refers := hmarked.1, emptied := hmarked.2 }
  · intro h' hn
    rw [hholders, hclosers]
    exact hρ.idle h' hn
  · intro h' ha
    rw [hholders, hclosers]
    exact hρ.counted h' ha

end Sound

end Books

/-! ## One owner for every open hold -/

/-- `own` says which hold an owner will release, if any: an open one, and no other owner's. -/
structure Disciplined {O : Type} (σ : Store H B) (own : O → Option Nat) : Prop where
  held : ∀ o k, own o = some k → ∃ d, σ.holds[k]? = some d ∧ d.status = .held
  single : ∀ o o' k, own o = some k → own o' = some k → o = o'

namespace Disciplined

variable {O : Type} {own : O → Option Nat} {o o' : O} (hd : σ.Disciplined own)

include hd

theorem mark (s : Status) (hτ : τ.holds = (σ.mark k d s).holds)
    (hfree : ∀ o, own o ≠ some k) : τ.Disciplined own := by
  refine ⟨fun o j hj => ?_, hd.single⟩
  obtain ⟨e, he, hst⟩ := hd.held o j hj
  have hne : k ≠ j := fun heq => hfree o (heq ▸ hj)
  exact ⟨e, by rw [hτ, Store.mark, List.getElem?_set_ne hne, he], hst⟩

theorem not_owned (hk : σ.holds[k]? = some d) (hst : d.status ≠ .held) (o : O) :
    own o ≠ some k := by
  intro ho
  obtain ⟨e, he, hheld⟩ := hd.held o k ho
  exact hst (Option.some.inj (hk.symm.trans he) ▸ hheld)

variable [DecidableEq O]

/-- An owner lets go of its hold without releasing it: the block never comes back. -/
theorem drop (o : O) : σ.Disciplined (Function.update own o none) := by
  have hkept : ∀ {o' k}, Function.update own o none o' = some k → own o' = some k := by
    intro o' k hk
    by_cases ho : o' = o
    · simp [ho] at hk
    · simpa [ho] using hk
  exact ⟨fun o' k hk => hd.held o' k (hkept hk), fun o1 o2 k h1 h2 => hd.single o1 o2 k (hkept h1) (hkept h2)⟩

theorem assign (hk : σ.holds[k]? = some d) (hheld : d.status = .held)
    (hfree : ∀ o, own o ≠ some k) : σ.Disciplined (Function.update own o (some k)) := by
  have hcases : ∀ {o1 j}, Function.update own o (some k) o1 = some j → (o1 = o ∧ j = k) ∨ own o1 = some j := by
    intro o1 j hj
    by_cases heq : o1 = o
    · rw [heq, Function.update_self] at hj
      exact .inl ⟨heq, (Option.some.inj hj).symm⟩
    · exact .inr (by rwa [Function.update_of_ne heq] at hj)
  constructor
  · intro o1 j hj
    rcases hcases hj with ⟨-, rfl⟩ | hj
    · exact ⟨d, hk, hheld⟩
    · exact hd.held o1 j hj
  · intro o1 o2 j h1 h2
    rcases hcases h1 with ⟨ho1, hj⟩ | hown1 <;> rcases hcases h2 with ⟨ho2, hj⟩ | hown2
    · exact ho1.trans ho2.symm
    · exact absurd (hj ▸ hown2) (hfree o2)
    · exact absurd (hj ▸ hown1) (hfree o1)
    · exact hd.single o1 o2 j hown1 hown2

theorem drop_free (ho : own o = some k) (o1 : O) :
    Function.update own o none o1 ≠ some k := by
  intro h1
  by_cases heq : o1 = o
  · simp [heq] at h1
  · rw [Function.update_of_ne heq] at h1
    exact heq (hd.single _ _ k h1 ho)

theorem hand (ho : own o = some k) :
    σ.Disciplined (Function.update (Function.update own o none) o' (some k)) := by
  obtain ⟨d, hk, hheld⟩ := hd.held o k ho
  exact (hd.drop o).assign hk hheld (hd.drop_free ho)

theorem fresh (hτ : τ.holds = σ.holds ++ [d]) (hheld : d.status = .held) :
    τ.Disciplined (Function.update own o (some σ.holds.length)) := by
  have hlt : ∀ {o1 j}, own o1 = some j → j < σ.holds.length := fun hj =>
    have ⟨_, he, _⟩ := hd.held _ _ hj
    (List.getElem?_eq_some_iff.mp he).1
  have hτd : τ.Disciplined own := by
    refine ⟨fun o1 j hj => ?_, hd.single⟩
    obtain ⟨e, he, hst⟩ := hd.held o1 j hj
    exact ⟨e, by rw [hτ, List.getElem?_append_left (hlt hj), he], hst⟩
  exact hτd.assign (by simp [hτ]) hheld fun o1 h1 => Nat.lt_irrefl _ (hlt h1)

theorem release [DecidableEq H] (ho : own o = some k) (h : σ.release k = some τ) :
    τ.Disciplined (Function.update own o none) := by
  obtain ⟨d, hk, rfl⟩ := Option.map_eq_some_iff.mp h
  exact (hd.drop o).mark _ rfl (hd.drop_free ho)

end Disciplined

/-! ## No open hold is forgotten -/

/-- Every open hold has an owner. -/
def Covered {O : Type} (σ : Store H B) (own : O → Option Nat) : Prop :=
  ∀ (k : Nat) (d : Hold H B), σ.holds[k]? = some d → d.status = .held → ∃ o, own o = some k

namespace Covered

variable {O : Type} {own : O → Option Nat} {o o' : O} (hc : σ.Covered own)

include hc

theorem mark (hs : s ≠ .held) (hτ : τ.holds = (σ.mark k d s).holds) : τ.Covered own := by
  intro j e hj he
  rw [hτ] at hj
  rcases mark_getElem? s hj with ⟨-, hj⟩ | ⟨-, rfl⟩
  · exact hc j e hj he
  · exact absurd he hs

variable [DecidableEq O]

theorem fresh (hτ : τ.holds = σ.holds ++ [d]) (hnone : own o = none) :
    τ.Covered (Function.update own o (some σ.holds.length)) := by
  intro k e hk he
  rw [hτ] at hk
  by_cases hlt : k < σ.holds.length
  · rw [List.getElem?_append_left hlt] at hk
    obtain ⟨o1, h1⟩ := hc k e hk he
    refine ⟨o1, ?_⟩
    rw [Function.update_of_ne ?_, h1]
    rintro rfl
    rw [hnone] at h1
    cases h1
  · have hk' := (List.getElem?_eq_some_iff.mp hk).1
    rw [List.length_append, List.length_singleton] at hk'
    exact ⟨o, by rw [Function.update_self]; congr 1; omega⟩

theorem hand (ho : own o = some k) (hto : own o' = none ∨ own o' = some k) :
    σ.Covered (Function.update (Function.update own o none) o' (some k)) := by
  intro j e hj he
  by_cases hjk : j = k
  · exact ⟨o', by rw [hjk, Function.update_self]⟩
  obtain ⟨o1, h1⟩ := hc j e hj he
  have hne : o1 ≠ o' := by
    rintro rfl
    rcases hto with hto | hto
    · rw [hto] at h1
      cases h1
    · exact hjk (Option.some.inj (h1.symm.trans hto))
  have hne' : o1 ≠ o := by
    rintro rfl
    exact hjk (Option.some.inj (h1.symm.trans ho))
  exact ⟨o1, by rw [Function.update_of_ne hne, Function.update_of_ne hne', h1]⟩

theorem release [DecidableEq H] (ho : own o = some k) (h : σ.release k = some τ) :
    τ.Covered (Function.update own o none) := by
  obtain ⟨d, s, hk, hs, hτ⟩ := release_holds h
  intro j e hj he
  obtain ⟨o1, h1⟩ := hc.mark hs hτ j e hj he
  refine ⟨o1, ?_⟩
  rw [Function.update_of_ne ?_, h1]
  rintro rfl
  cases h1.symm.trans ho
  rw [hτ] at hj
  rcases mark_getElem? s hj with ⟨hne, -⟩ | ⟨-, rfl⟩
  · exact hne rfl
  · exact hs he

end Covered

/-- Every block that is out is the block of a header. -/
def Placed (σ : Store H B) : Prop := ∀ b, σ.blocks.Away b → ∃ h, σ.block h = some b

namespace Placed

variable (hp : σ.Placed)

include hp

theorem unmoved (h : σ.Unmoved τ) : τ.Placed := by
  intro b hb
  rw [h.block]
  exact hp b (h.blocks ▸ hb)

variable [DecidableEq H]

/-- **A block that is out is referred to**, by an open hold or by the one whose release puts it back. -/
theorem referred (hs : σ.Sound) {b : B} (hb : σ.blocks.Away b) :
    ∃ (k : Nat) (d : Hold H B), σ.holds[k]? = some d ∧
      (d.status = .held ∧ d.block = some b ∨ d.status = .last) := by
  obtain ⟨h, hh⟩ := hp b hb
  have haway : σ.headers.Away h := by
    by_contra hn
    rw [(hs.idle h hn).2.2] at hh
    cases hh
  rcases hs.counted h haway with ⟨-, hpos, -⟩ | ⟨hone, -⟩
  · obtain ⟨d, hmem, hd⟩ := List.countP_pos_iff.mp hpos
    obtain ⟨rfl, hheld⟩ : d.header = h ∧ d.status = .held := by simpa using hd
    obtain ⟨k, hk⟩ := List.mem_iff_getElem?.mp hmem
    exact ⟨k, d, hk, .inl ⟨hheld, (hs.refers k d hk hheld).symm.trans hh⟩⟩
  · have hpos : 0 < σ.closers h := by omega
    obtain ⟨d, hmem, hd⟩ := List.countP_pos_iff.mp hpos
    obtain ⟨k, hk⟩ := List.mem_iff_getElem?.mp hmem
    obtain ⟨rfl, hlast | hempty⟩ : d.header = h ∧ (d.status = .last ∨ d.status = .emptied) := by simpa using hd
    · exact ⟨k, d, hk, .inr hlast⟩
    · rw [hs.emptied k d hk hempty] at hh
      cases hh

variable [DecidableEq B]

theorem get (hs : σ.Sound) (hget : σ.get h b = some τ) : τ.Placed := by
  obtain ⟨p, ρ, hheader, hρ, rfl⟩ := get_eq hget
  have hidle := (hs.idle h (Shelf.away_get hs.headers hheader).1).2.2
  have hkept : ∀ x, σ.blocks.Away x → ∃ h', Function.update σ.block h b h' = some x := by
    intro x hx
    obtain ⟨h', hh'⟩ := hp x hx
    refine ⟨h', ?_⟩
    rw [Function.update_of_ne ?_, hh']
    rintro rfl
    rw [hidle] at hh'
    cases hh'
  cases b with
  | none =>
    cases hρ
    exact hkept
  | some b =>
    obtain ⟨q, hblock, rfl⟩ := Option.map_eq_some_iff.mp hρ
    intro x hx
    rcases ((Shelf.away_get hs.blocks hblock).2 x).mp hx with rfl | hx
    · exact ⟨h, Function.update_self ..⟩
    · exact hkept x hx

theorem putBlock (h : H) : (σ.putBlock h).Placed := by
  unfold Store.putBlock
  split
  case h_1 => exact hp
  case h_2 b hb =>
    intro x hx
    obtain ⟨hne, hx⟩ := Shelf.away_put.mp hx
    obtain ⟨h', hh'⟩ := hp x hx
    refine ⟨h', ?_⟩
    show Function.update σ.block h none h' = some x
    rw [Function.update_of_ne ?_, hh']
    rintro rfl
    exact hne (Option.some.inj (hh'.symm.trans hb))

theorem recycle (h : σ.recycle k = some τ) : τ.Placed := by
  obtain ⟨d, -, -, rfl⟩ := recycle_eq h
  exact hp.putBlock d.header

end Placed

end Store

end Zap.Lib
