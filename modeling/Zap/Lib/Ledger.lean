/-
# Zap.Lib.Ledger — a ledger of the slots a sender has spent, and in-order delivery by slot number.

A sender numbers its messages by slots. It spends its current slot on a message (`spend`), and moves on
when the message is out (`commit`) or when it gives the slot up for a later one (`skip`). A slot is
reused when two different messages were spent on it. The ledger carries its own bookkeeping as fields:
the spent slots are in order, none is past the current one, and `unsent` holds the message last spent on
the current slot, if any.

* `noReuse_spend` — the exact condition under which a spend keeps the ledger free of reuse.
* `sublist_of_ranked` — messages taken from a ledger at strictly increasing slots form a subsequence of
  it: what a receiver that insists on increasing numbers gets is in order and without repetition.
-/
import Mathlib.Data.List.Forall2

namespace Zap.Lib

/-- The slots spent so far; `used` is in the order of spending. -/
structure Ledger (α : Type) where
  slot : Nat
  unsent : Option α
  used : List (Nat × α)
  sorted : used.Pairwise fun x y => x.1 ≤ y.1
  below : ∀ x ∈ used, x.1 ≤ slot
  fresh : unsent = none → ∀ x ∈ used, x.1 < slot
  stale : ∀ q, unsent = some q → (slot, q) ∈ used

namespace Ledger

variable {α : Type}

/-- No slot carries two different messages. -/
def NoReuse (l : Ledger α) : Prop := ∀ x ∈ l.used, ∀ y ∈ l.used, x.1 = y.1 → x.2 = y.2

def empty (α : Type) : Ledger α where
  slot := 0
  unsent := none
  used := []
  sorted := .nil
  below := by simp
  fresh := by simp
  stale := by simp

def spend (l : Ledger α) (p : α) : Ledger α where
  slot := l.slot
  unsent := some p
  used := l.used ++ [(l.slot, p)]
  sorted := by
    refine List.pairwise_append.mpr ⟨l.sorted, List.pairwise_singleton _ _, ?_⟩
    simpa using l.below
  below := by
    intro x hx
    rcases List.mem_append.mp hx with hx | hx
    · exact l.below x hx
    · simp_all
  fresh := by simp
  stale := by simp

def commit (l : Ledger α) : Ledger α where
  slot := l.slot + 1
  unsent := none
  used := l.used
  sorted := l.sorted
  below := fun x hx => Nat.le_succ_of_le (l.below x hx)
  fresh := fun _ x hx => Nat.lt_succ_of_le (l.below x hx)
  stale := by simp

def skip (l : Ledger α) (n : Nat) (h : l.slot < n) : Ledger α where
  slot := n
  unsent := none
  used := l.used
  sorted := l.sorted
  below := fun x hx => Nat.le_of_lt (Nat.lt_of_le_of_lt (l.below x hx) h)
  fresh := fun _ x hx => Nat.lt_of_le_of_lt (l.below x hx) h
  stale := by simp

theorem noReuse_congr {l l' : Ledger α} (h : l.used = l'.used) : l.NoReuse ↔ l'.NoReuse := by
  simp only [NoReuse, h]

/-- **The retry condition.**  Spending the current slot keeps the ledger free of reuse exactly when the
slot is unspent or was last spent on the same message. -/
theorem noReuse_spend (l : Ledger α) (p : α) :
    (l.spend p).NoReuse ↔ l.NoReuse ∧ ∀ q, l.unsent = some q → p = q := by
  constructor
  · intro h
    have hold : ∀ {x}, x ∈ l.used → x ∈ (l.spend p).used := fun hx => List.mem_append_left _ hx
    have hnew : (l.slot, p) ∈ (l.spend p).used := by simp [spend]
    exact ⟨fun x hx y hy => h x (hold hx) y (hold hy), fun q hq => h _ hnew _ (hold (l.stale q hq)) rfl⟩
  · rintro ⟨hno, hretry⟩
    -- every message already on the current slot is `p`
    have hcur : ∀ x ∈ l.used, x.1 = l.slot → x.2 = p := by
      intro x hx hslot
      cases hu : l.unsent with
      | none => exact absurd hslot (Nat.ne_of_lt (l.fresh hu x hx))
      | some q => rw [hretry q hu, hno x hx _ (l.stale q hu) hslot]
    intro x hx y hy hxy
    simp only [spend, List.mem_append, List.mem_singleton] at hx hy
    rcases hx with hx | rfl <;> rcases hy with hy | rfl
    · exact hno x hx y hy hxy
    · exact hcur x hx hxy
    · exact (hcur y hy hxy.symm).symm
    · rfl

theorem noReuse_skip_spend (l : Ledger α) {n : Nat} (h : l.slot < n) (p : α) :
    ((l.skip n h).spend p).NoReuse ↔ l.NoReuse := by
  simp only [noReuse_spend, skip, reduceCtorEq, false_implies, implies_true, and_true]
  exact Iff.rfl

end Ledger

variable {α β : Type} {R : α → β → Prop} {as : List α} {bs : List β}

theorem forall₂_exists_right (h : List.Forall₂ R as bs) {a : α} (ha : a ∈ as) : ∃ b ∈ bs, R a b := by
  induction h with
  | nil => simp at ha
  | cons hab _ ih =>
    rcases List.mem_cons.mp ha with rfl | ha
    · exact ⟨_, List.mem_cons_self .., hab⟩
    · obtain ⟨b, hb, hr⟩ := ih ha
      exact ⟨b, List.mem_cons_of_mem _ hb, hr⟩

theorem forall₂_exists_left (h : List.Forall₂ R as bs) {b : β} (hb : b ∈ bs) : ∃ a ∈ as, R a b :=
  forall₂_exists_right h.flip hb

theorem sublist_of_ranked (rank : α → Nat) {xs ys : List α} (hxs : xs.Pairwise fun x y => rank x < rank y)
    (hys : ys.Pairwise fun x y => rank x ≤ rank y) (hmem : ∀ x ∈ xs, x ∈ ys) : xs.Sublist ys := by
  induction ys generalizing xs with
  | nil =>
    cases xs with
    | nil => exact .slnil
    | cons x xs => exact absurd (hmem x (List.mem_cons_self ..)) (by simp)
  | cons y ys ih =>
    rw [List.pairwise_cons] at hys
    cases xs with
    | nil => exact List.nil_sublist _
    | cons x xs =>
      rw [List.pairwise_cons] at hxs
      by_cases hxy : x = y
      · subst y
        refine (ih hxs.2 hys.2 fun z hz => ?_).cons_cons x
        have hne : z ≠ x := by
          rintro rfl
          exact absurd (hxs.1 z hz) (Nat.lt_irrefl _)
        exact (List.mem_cons.mp (hmem z (List.mem_cons_of_mem _ hz))).resolve_left hne
      · -- `y` is not picked: it comes before `x`, and all other picks come after `x`
        have hx : x ∈ ys := (List.mem_cons.mp (hmem x (List.mem_cons_self ..))).resolve_left hxy
        refine (ih (List.pairwise_cons.mpr hxs) hys.2 fun z hz => ?_).cons y
        rcases List.mem_cons.mp hz with rfl | hz
        · exact hx
        · have hne : z ≠ y := by
            rintro rfl
            exact absurd (Nat.lt_of_lt_of_le (hxs.1 z hz) (hys.1 x hx)) (by omega)
          exact (List.mem_cons.mp (hmem z (List.mem_cons_of_mem _ hz))).resolve_left hne

end Zap.Lib
