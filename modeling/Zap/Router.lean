/-
# Zap.Router — interfaces by cost, registered while a message is on its way (`router.go`).

`Register` appends an interface and sorts the slice by cost, in place. `Send` copies the slice header under
the lock and then walks it without: it sees the cells of the backing array as they are when it gets to them.
Whether a later `Register` reaches those cells depends on the capacity of the array alone. A full array is
left as it is, the interfaces are copied to a new one; in an array with room they move under the walk, and the
dearest of them moves out of its sight.
-/
import Zap.Lib.Path
import Mathlib.Data.List.Sort
import Mathlib.Logic.Function.Basic

namespace Zap.Routing

open Zap.Lib

/-! ## The router -/

/-- A backing array: the cells that were written, and how many there is room for. -/
structure Backing (ι : Type) where
  cells : List ι
  cap : Nat
  fits : cells.length ≤ cap

variable {ι : Type}

def Backing.nil : Backing ι := ⟨[], 0, Nat.le_refl 0⟩

/-- A `Router`, with the arrays its slice has left and the cost each interface reports at present. The slice
covers what was written to its array. -/
structure Router (ι : Type) where
  left : List (Backing ι)
  array : Backing ι
  cost : ι → Int

namespace Router

/-- `NewRouter`, where the interfaces have been made with the costs given. -/
def newRouter (cost : ι → Int) : Router ι := ⟨[], .nil, cost⟩

def ifaces (r : Router ι) : List ι := r.array.cells

/-- What `append` and `sort.SliceStable` leave in the slice. -/
def sorted (r : Router ι) (x : ι) : List ι := (r.ifaces ++ [x]).insertionSort fun a b => r.cost a ≤ r.cost b

theorem sorted_length (r : Router ι) (x : ι) : (r.sorted x).length = r.ifaces.length + 1 := by
  rw [sorted, List.length_insertionSort, List.length_append, List.length_singleton]

/-- `Register`. `grow` is how the runtime sizes a new array for one that was full. -/
def register (grow : Nat → Nat) (r : Router ι) (x : ι) : Router ι :=
  if h : r.ifaces.length < r.array.cap then
    { r with array := ⟨r.sorted x, r.array.cap, by rw [sorted_length]; exact h⟩ }
  else
    { r with
      left := r.left ++ [r.array]
      array := ⟨r.sorted x, max (grow r.ifaces.length) (r.ifaces.length + 1), by
        rw [sorted_length]
        exact Nat.le_max_right _ _⟩ }

def withCost [DecidableEq ι] (r : Router ι) (x : ι) (c : Int) : Router ι :=
  { r with cost := Function.update r.cost x c }

def cell (r : Router ι) (k i : Nat) : Option ι := ((r.left ++ [r.array])[k]?).bind fun a => a.cells[i]?

end Router

inductive Change (ι : Type)
  | register (x : ι)
  | withCost (x : ι) (c : Int)

variable [DecidableEq ι]

def Router.change (grow : Nat → Nat) (r : Router ι) : Change ι → Router ι
  | .register x => r.register grow x
  | .withCost x c => r.withCost x c

/-! ## One `Send` -/

/-- Where a `Send` is: before the cell `i`, inside the `CanReach` of the interface it has found there, or
returned. -/
inductive Send (ι : Type)
  | scanning (i : Nat)
  | asking (i : Nat) (x : ι)
  | delivered (x : ι)
  | noRoute

/-- A step of the `Send`, or a `Register` by anyone, which may be the `CanReach` that is running. -/
inductive Act (ι : Type)
  | load
  | answer (x : ι) (reach : Bool)
  | register (x : ι)

/-- One step while a `Send` walks the first `n` cells of the array `k`. -/
def step (grow : Nat → Nat) (k n : Nat) : Router ι × Send ι → Act ι → Option (Router ι × Send ι)
  | (r, .scanning i), .load =>
    if i < n then (r.cell k i).map fun x => (r, .asking i x) else some (r, .noRoute)
  | (r, .asking i x), .answer y reach =>
    if y = x then some (r, if reach then .delivered x else .scanning (i + 1)) else none
  | (r, p), .register x => some (r.register grow x, p)
  | _, _ => none

/-- A `Send` on the router, from the copy of the slice header on. -/
def Walk (grow : Nat → Nat) (r : Router ι) : List (Act ι) → Router ι × Send ι → Prop :=
  Path (fun s a t => step grow r.left.length r.ifaces.length s a = some t) (r, .scanning 0)

/-- The interfaces in `reach` can reach the destination throughout. -/
def Keeps (reach : ι → Prop) (tr : List (Act ι)) : Prop := ∀ x b, .answer x b ∈ tr → reach x → b = true

def Send.Returned : Send ι → Prop
  | .delivered _ | .noRoute => True
  | _ => False

/-- If an interface that was registered when the `Send` began can reach the destination throughout, the `Send`
delivers, through an interface that can reach it and is no dearer than any of those. -/
def Stable (grow : Nat → Nat) (r : Router ι) : Prop :=
  ∀ reach tr r' p, Walk grow r tr (r', p) → Keeps reach tr → p.Returned → (∃ x ∈ r.ifaces, reach x) →
    ∃ x, p = .delivered x ∧ .answer x true ∈ tr ∧ ∀ y ∈ r.ifaces, reach y → r.cost x ≤ r.cost y

/-- The slice is in the order of the costs its interfaces report now. -/
def Router.Sorted (r : Router ι) : Prop := r.ifaces.Pairwise fun a b => r.cost a ≤ r.cost b

def Router.Full (r : Router ι) : Prop := r.ifaces.length = r.array.cap

/-! ## A full array is left alone -/

section Cells

variable {grow : Nat → Nat} {r : Router ι} {k : Nat} {a : Backing ι}

/-- The array `k` is full and has the cells of `a`. -/
def Router.Rests (r : Router ι) (k : Nat) (a : Backing ι) : Prop :=
  r.left[k]? = some a ∨ k = r.left.length ∧ r.array = a ∧ r.Full

omit [DecidableEq ι] in
theorem Router.Rests.cell (h : r.Rests k a) (i : Nat) : r.cell k i = a.cells[i]? := by
  unfold Router.cell
  rcases h with h | ⟨rfl, rfl, -⟩
  · rw [List.getElem?_append_left (List.getElem?_eq_some_iff.mp h).1, h]
    rfl
  · rw [List.getElem?_concat_length]
    rfl

omit [DecidableEq ι] in
theorem Router.Rests.register (h : r.Rests k a) (x : ι) : (r.register grow x).Rests k a := by
  unfold Router.register
  rcases h with h | ⟨rfl, rfl, hfull⟩
  · split_ifs
    · exact .inl h
    · exact .inl (by rw [List.getElem?_append_left (List.getElem?_eq_some_iff.mp h).1, h])
  · rw [dif_neg (by rw [hfull]; exact Nat.lt_irrefl _)]
    exact .inl List.getElem?_concat_length

end Cells

/-! ## The walk over cells that rest -/

variable {x : ι}

section Walk

variable {grow : Nat → Nat} {k n : Nat} {cells : List ι} {reach : ι → Prop}

/-- What a walk has found out about the cells. -/
def Send.Knows (cells : List ι) (reach : ι → Prop) : Send ι → Prop
  | .scanning i => ∀ x ∈ cells.take i, ¬reach x
  | .asking i x => cells[i]? = some x ∧ ∀ y ∈ cells.take i, ¬reach y
  | .delivered x => ∃ i, cells[i]? = some x ∧ ∀ y ∈ cells.take i, ¬reach y
  | .noRoute => ∀ x ∈ cells, ¬reach x

variable {r r' : Router ι} {p : Send ι} {e : Act ι}

theorem step_knows {a : Backing ι} {p' : Send ι} (h : step grow k a.cells.length (r, p) e = some (r', p'))
    (hrests : r.Rests k a) (hp : p.Knows a.cells reach) (hkeeps : ∀ x b, e = .answer x b → reach x → b = true) :
    r'.Rests k a ∧ p'.Knows a.cells reach := by
  cases e with
  | register x =>
    have h' : (r.register grow x, p) = (r', p') := by
      cases p <;> exact Option.some.inj h
    obtain ⟨rfl, rfl⟩ := Prod.mk.inj h'
    exact ⟨hrests.register x, hp⟩
  | load =>
    cases p with
    | scanning i =>
      simp only [step] at h
      split_ifs at h with hi
      · obtain ⟨x, hx, heq⟩ := Option.map_eq_some_iff.mp h
        obtain ⟨rfl, rfl⟩ := Prod.mk.inj heq
        rw [hrests.cell] at hx
        exact ⟨hrests, hx, hp⟩
      · cases h
        refine ⟨hrests, fun x hx => hp x ?_⟩
        rwa [List.take_of_length_le (Nat.not_lt.mp hi)]
    | _ => cases h
  | answer y b =>
    cases p with
    | asking i x =>
      simp only [step] at h
      split_ifs at h with hy hb
      · cases h
        exact ⟨hrests, i, hp⟩
      cases h
      subst hy
      refine ⟨hrests, fun z hz => ?_⟩
      rw [List.take_add_one, hp.1] at hz
      rcases List.mem_append.mp hz with hz | hz
      · exact hp.2 z hz
      · obtain rfl := List.mem_singleton.mp hz
        exact fun hreach => hb (hkeeps z b rfl hreach)
    | _ => cases h

theorem step_delivered (h : step grow k n (r, p) e = some (r', .delivered x)) :
    p = .delivered x ∨ e = .answer x true := by
  cases e with
  | register y =>
    have h' : (r.register grow y, p) = (r', .delivered x) := by
      cases p <;> exact Option.some.inj h
    exact .inl (Prod.mk.inj h').2
  | load =>
    cases p with
    | scanning i =>
      simp only [step] at h
      split_ifs at h
      · obtain ⟨y, -, heq⟩ := Option.map_eq_some_iff.mp h
        cases (Prod.mk.inj heq).2
      · cases (Prod.mk.inj (Option.some.inj h)).2
    | _ => cases h
  | answer y b =>
    cases p with
    | asking i z =>
      simp only [step] at h
      split_ifs at h with hy hb
      · obtain rfl := Send.delivered.inj (Prod.mk.inj (Option.some.inj h)).2
        exact .inr (by rw [hy, hb])
      · cases (Prod.mk.inj (Option.some.inj h)).2
    | _ => cases h

theorem walk_knows {tr : List (Act ι)} (hfull : r.Full) (h : Walk grow r tr (r', p)) (hkeeps : Keeps reach tr) :
    p.Knows r.ifaces reach ∧ ∀ x, p = .delivered x → .answer x true ∈ tr := by
  have hrun : ∀ tr (s : Router ι × Send ι), Walk grow r tr s → Keeps reach tr →
      (s.1.Rests r.left.length r.array ∧ s.2.Knows r.ifaces reach) ∧
        ∀ x, s.2 = .delivered x → .answer x true ∈ tr := by
    intro tr s h hk
    induction h using Path.concat_induction with
    | init => exact ⟨⟨.inr ⟨rfl, rfl, hfull⟩, by simp [Send.Knows]⟩, fun x hx => nomatch hx⟩
    | @snoc tr s e t _ hstep ih =>
      obtain ⟨⟨hrests, hp⟩, hyes⟩ := ih fun x b hx => hk x b (List.mem_append_left _ hx)
      have hlast : ∀ x b, e = .answer x b → reach x → b = true := by
        rintro x b rfl
        exact hk x b (List.mem_append_right _ (List.mem_singleton.mpr rfl))
      refine ⟨step_knows hstep hrests hp hlast, fun x hx => ?_⟩
      obtain ⟨r', p'⟩ := t
      obtain rfl : p' = .delivered x := hx
      rcases step_delivered hstep with h' | rfl
      · exact List.mem_append_left _ (hyes x h')
      · exact List.mem_append_right _ (List.mem_singleton.mpr rfl)
  obtain ⟨⟨-, hp⟩, hyes⟩ := hrun tr _ h hkeeps
  exact ⟨hp, hyes⟩

/-- **A full array in order is enough**, whatever is registered meanwhile. -/
theorem stable_of_full (hfull : r.Full) (hsorted : r.Sorted) : Stable grow r := by
  rintro reach tr r' p h hkeeps hret ⟨x0, hx0, hreach0⟩
  obtain ⟨hp, hyes⟩ := walk_knows hfull h hkeeps
  cases p with
  | scanning i | asking i x => exact hret.elim
  | noRoute => exact absurd hreach0 (hp x0 hx0)
  | delivered x =>
    refine ⟨x, rfl, hyes x rfl, fun y hy hreach => ?_⟩
    obtain ⟨i, hi, hbefore⟩ := hp
    -- what can reach stands at `i` or behind it
    have hsplit : y ∈ r.ifaces.take i ++ r.ifaces.drop i := by rwa [List.take_append_drop]
    rcases List.mem_append.mp hsplit with hy | hy
    · exact absurd hreach (hbefore y hy)
    obtain ⟨hlt, rfl⟩ := List.getElem?_eq_some_iff.mp hi
    have htail := hsorted.sublist (List.drop_sublist i r.ifaces)
    rw [List.drop_eq_getElem_cons hlt] at htail hy
    rcases List.mem_cons.mp hy with rfl | hy
    · exact le_rfl
    · exact (List.pairwise_cons.mp htail).1 y hy

end Walk

/-! ## An array with room is not -/

section Quiet

variable {grow : Nat → Nat} {r : Router ι} {k n : Nat} {cells : List ι}

/-- The answers of a walk that nobody disturbs, from the cell `i` on. -/
def answers (reach : ι → Bool) : List ι → List (Act ι)
  | [] => [.load]
  | x :: xs => if reach x then [.load, .answer x true] else .load :: .answer x false :: answers reach xs

omit [DecidableEq ι] in
theorem answers_keeps {reach : ι → Bool} {b : Bool} :
    ∀ xs : List ι, .answer x b ∈ answers reach xs → b = reach x
  | [], h => by simp [answers] at h
  | y :: ys, h => by
      rw [answers] at h
      split_ifs at h with hy
      · obtain ⟨rfl, rfl⟩ : x = y ∧ b = true := by simpa using h
        exact hy.symm
      · obtain ⟨rfl, rfl⟩ | h : (x = y ∧ b = false) ∨ _ := by simpa using h
        · simpa using hy
        · exact answers_keeps ys h

def outcome (reach : ι → Bool) (xs : List ι) : Send ι :=
  match xs.find? reach with
  | some x => .delivered x
  | none => .noRoute

theorem quiet_walk (reach : ι → Bool) : ∀ (xs : List ι) (i : Nat), i + xs.length = n →
    (∀ j < xs.length, r.cell k (i + j) = xs[j]?) →
    Path (fun s a t => step grow k n s a = some t) (r, .scanning i) (answers reach xs) (r, outcome reach xs)
  | [], i, hlen, _ => by
      refine .cons ?_ (.nil _)
      simp only [step]
      rw [if_neg (by simpa using hlen.ge)]
      rfl
  | x :: xs, i, hlen, hcells => by
      rw [List.length_cons] at hlen
      have hload : step grow k n (r, .scanning i) .load = some (r, .asking i x) := by
        have hx : r.cell k i = some x := hcells 0 (Nat.succ_pos _)
        simp only [step]
        rw [if_pos (by omega), hx]
        rfl
      unfold answers outcome
      rw [List.find?_cons]
      split_ifs with hreach
      · rw [hreach]
        refine .cons hload (.cons ?_ (.nil _))
        simp [step]
      rw [Bool.not_eq_true] at hreach
      rw [hreach]
      refine .cons hload (.cons (t := (r, .scanning (i + 1))) (by simp [step]) ?_)
      refine quiet_walk reach xs (i + 1) (by omega) fun j hj => ?_
      have hj := hcells (j + 1) (by simpa using hj)
      rwa [List.getElem?_cons_succ, ← Nat.add_assoc, Nat.add_right_comm] at hj

omit [DecidableEq ι] in
theorem outcome_returned (reach : ι → Bool) (xs : List ι) : (outcome reach xs).Returned := by
  unfold outcome
  split <;> trivial

omit [DecidableEq ι] in
theorem cell_current (i : Nat) : r.cell r.left.length i = r.ifaces[i]? := by
  rw [Router.cell, List.getElem?_concat_length]
  rfl

theorem sorted_of_stable (hnodup : r.ifaces.Nodup) (h : Stable grow r) : r.Sorted := by
  rw [Router.Sorted, List.pairwise_iff_getElem]
  intro i j hi hj hij
  -- the two alone can reach, and the first of them is found
  let reach : ι → Bool := fun x => x = r.ifaces[i] ∨ x = r.ifaces[j]
  have hwalk : Walk grow r (answers reach r.ifaces) (r, outcome reach r.ifaces) :=
    quiet_walk reach r.ifaces 0 (Nat.zero_add _) fun j _ => by rw [Nat.zero_add, cell_current]
  have hkeeps : Keeps (fun x => reach x = true) (answers reach r.ifaces) := fun x b hx hreach =>
    (answers_keeps _ hx).trans hreach
  have hreach : ∀ x, reach x = true ↔ x = r.ifaces[i] ∨ x = r.ifaces[j] := fun x => decide_eq_true_iff
  obtain ⟨x, hx, -, hcheap⟩ := h _ _ _ _ hwalk hkeeps (outcome_returned ..)
    ⟨_, List.getElem_mem hi, (hreach _).mpr (.inl rfl)⟩
  have hfind : r.ifaces.find? reach = some r.ifaces[i] := by
    rw [List.find?_eq_some_iff_getElem]
    refine ⟨(hreach _).mpr (.inl rfl), i, hi, rfl, fun m hm => ?_⟩
    rw [Bool.not_eq_true', ← Bool.not_eq_true, hreach, hnodup.getElem_inj_iff, hnodup.getElem_inj_iff]
    omega
  rw [outcome, hfind] at hx
  obtain rfl := Send.delivered.inj hx
  exact hcheap _ (List.getElem_mem hj) ((hreach _).mpr (.inr rfl))

omit [DecidableEq ι] in
theorem sorted_cheapest (hsorted : r.Sorted) (hx : ∀ y ∈ r.ifaces, r.cost x < r.cost y) :
    r.sorted x = x :: r.ifaces := by
  have hsort : ∀ xs : List ι, (xs.Pairwise fun a b => r.cost a ≤ r.cost b) → (∀ y ∈ xs, r.cost x < r.cost y) →
      ((xs ++ [x]).insertionSort fun a b => r.cost a ≤ r.cost b) = x :: xs := by
    intro xs
    induction xs with
    | nil => exact fun _ _ => rfl
    | cons y ys ih =>
      intro hpair hcheap
      obtain ⟨hhead, htail⟩ := List.pairwise_cons.mp hpair
      have hxy := hcheap y (List.mem_cons_self ..)
      rw [List.cons_append, List.insertionSort_cons, ih htail fun z hz => hcheap z (List.mem_cons_of_mem _ hz),
        List.orderedInsert_cons, if_neg (not_le.mpr hxy)]
      congr 1
      cases ys with
      | nil => rfl
      | cons z zs => rw [List.orderedInsert_cons, if_pos (hhead z (List.mem_cons_self ..))]
  exact hsort r.ifaces hsorted hx

theorem full_of_stable (hx : ∀ y ∈ r.ifaces, r.cost x < r.cost y) (hnodup : r.ifaces.Nodup) (h : Stable grow r) :
    r.ifaces = [] ∨ r.Full := by
  by_contra hnot
  obtain ⟨hne, hroom⟩ := not_or.mp hnot
  have hlt : r.ifaces.length < r.array.cap := lt_of_le_of_ne r.array.fits hroom
  have hsorted := sorted_of_stable hnodup h
  -- the dearest alone can reach; it moves to the cell behind the last one of the walk
  let dearest := r.ifaces.getLast hne
  have hmem : dearest ∈ r.ifaces := List.getLast_mem hne
  have hlast : r.ifaces.dropLast ++ [dearest] = r.ifaces := List.dropLast_append_getLast hne
  have hx' : x ≠ dearest := by
    rintro rfl
    exact lt_irrefl _ (hx _ hmem)
  have hout : dearest ∉ r.ifaces.dropLast := by
    rw [← hlast, List.nodup_append] at hnodup
    exact fun hin => hnodup.2.2 dearest hin dearest (List.mem_singleton.mpr rfl) rfl
  let seen : List ι := x :: r.ifaces.dropLast
  let reach : ι → Bool := fun y => y = dearest
  have hpos : 0 < r.ifaces.length := List.length_pos_iff.mpr hne
  have hseen : seen.length = r.ifaces.length := by
    rw [List.length_cons, List.length_dropLast]
    omega
  have hcells : ∀ j < seen.length, (r.register grow x).cell r.left.length (0 + j) = seen[j]? := by
    intro j hj
    have hnew : (r.register grow x).cell r.left.length j = (r.sorted x)[j]? := by
      rw [Router.register, dif_pos hlt]
      exact cell_current (r := { r with array := ⟨r.sorted x, r.array.cap, _⟩ }) j
    have hall : x :: r.ifaces = seen ++ [dearest] := by rw [List.cons_append, hlast]
    rw [Nat.zero_add, hnew, sorted_cheapest hsorted hx, hall, List.getElem?_append_left hj]
  have hwalk : Walk grow r (.register x :: answers reach seen) (r.register grow x, outcome reach seen) :=
    .cons rfl (quiet_walk reach seen 0 (by omega) hcells)
  have hkeeps : Keeps (· = dearest) (.register x :: answers reach seen) := by
    intro y b hy hreach
    rcases List.mem_cons.mp hy with hy | hy
    · cases hy
    · rw [answers_keeps _ hy]
      exact decide_eq_true hreach
  obtain ⟨y, hy, -⟩ := h _ _ _ _ hwalk hkeeps (outcome_returned ..) ⟨dearest, hmem, rfl⟩
  have hnone : seen.find? reach = none := by
    rw [List.find?_eq_none]
    intro z hz
    rw [decide_eq_true_iff]
    rintro rfl
    rcases List.mem_cons.mp hz with hz | hz
    · exact hx' hz.symm
    · exact hout hz
  rw [outcome, hnone] at hy
  cases hy

end Quiet

/-! ## When `Send` is stable -/

/-- **When routing is stable under registration**, whatever the router has gone through: if its array is full and
its slice is in the order of the present costs. Where no interface is registered twice, and there is one that
is cheaper than all of them, it is so only then, or if nothing is registered. -/
theorem stable_iff (grow : Nat → Nat) (r : Router ι) :
    (r.Full → r.Sorted → Stable grow r) ∧
      (r.ifaces.Nodup → (∃ x, ∀ y ∈ r.ifaces, r.cost x < r.cost y) →
        (Stable grow r ↔ r.ifaces = [] ∨ r.Full ∧ r.Sorted)) := by
  refine ⟨stable_of_full, fun hnodup ⟨x, hx⟩ => ⟨fun h => ?_, ?_⟩⟩
  · exact (full_of_stable hx hnodup h).imp_right fun hfull => ⟨hfull, sorted_of_stable hnodup h⟩
  rintro (hnil | ⟨hfull, hsorted⟩)
  · rintro reach tr r' p - - - ⟨x, hx, -⟩
    rw [hnil] at hx
    cases hx
  · exact stable_of_full hfull hsorted

/-- Interfaces of cost 10, 20 and 30, in arrays that double: one cell of the last is free. -/
def three : Router Int :=
  [.register 10, .register 20, .register 30].foldl (Router.change (2 * ·)) (.newRouter fun c => c)

/-- Interfaces of cost 10 and 20 fill an array; then the second is made the cheaper one. -/
def recosted : Router Int :=
  [.register 10, .register 20, .withCost 20 5].foldl (Router.change (2 * ·)) (.newRouter fun c => c)

/-- Before the third is asked an interface of cost 5 comes, and moves the second to the third's cell: the third,
which can reach the destination throughout, is never asked. And the order of the slice does not follow a cost
that changes. -/
theorem dearest_not_asked :
    (Walk (2 * ·) three [.load, .answer 10 false, .load, .answer 20 false, .register 5, .load, .answer 20 false,
        .load] (three.register (2 * ·) 5, .noRoute) ∧
      30 ∈ three.ifaces ∧ ¬Stable (2 * ·) three) ∧
    Walk (2 * ·) recosted [.load, .answer 10 true] (recosted, .delivered 10) ∧ 20 ∈ recosted.ifaces ∧
      recosted.cost 20 < recosted.cost 10 ∧ ¬Stable (2 * ·) recosted := by
  have hwalk : Walk (2 * ·) three [.load, .answer 10 false, .load, .answer 20 false, .register 5, .load,
      .answer 20 false, .load] (three.register (2 * ·) 5, .noRoute) := Path.foldlM_iff.mpr rfl
  have hmem : (30 : Int) ∈ three.ifaces := by decide
  have hfirst : Walk (2 * ·) recosted [.load, .answer 10 true] (recosted, .delivered 10) := Path.foldlM_iff.mpr rfl
  have hin : (20 : Int) ∈ recosted.ifaces := by decide
  refine ⟨⟨hwalk, hmem, fun h => ?_⟩, hfirst, hin, by decide, fun h => ?_⟩
  · obtain ⟨x, hx, -⟩ := h (· = 30) _ _ _ hwalk (by simp [Keeps]) trivial ⟨30, hmem, rfl⟩
    cases hx
  · obtain ⟨x, hx, -, hcost⟩ := h (fun _ => True) _ _ _ hfirst (by simp [Keeps]) trivial ⟨20, hin, trivial⟩
    obtain rfl := Send.delivered.inj hx
    exact absurd (hcost 20 hin trivial) (by decide)

/-- A fourth interface fills the array, and `Send` is stable; with three it is not. -/
theorem four_stable : Stable (2 * ·) (three.register (2 * ·) 25) ∧ ¬Stable (2 * ·) three := by
  refine ⟨(stable_iff (2 * ·) (three.register (2 * ·) 25)).1 rfl ?_, fun h => ?_⟩
  · show [10, 20, 25, 30].Pairwise fun a b : Int => a ≤ b
    decide
  have hcheap : ∃ x, ∀ y ∈ three.ifaces, three.cost x < three.cost y := by
    refine ⟨5, ?_⟩
    show ∀ y ∈ [(10 : Int), 20, 30], 5 < y
    decide
  rcases ((stable_iff (2 * ·) three).2 (by decide) hcheap).mp h with hnil | ⟨hfull, -⟩
  · exact absurd hnil (by decide)
  · exact absurd hfull (show ¬(three.ifaces.length = three.array.cap) by decide)

end Zap.Routing
