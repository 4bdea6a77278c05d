/-
# Zap.Lib.Buffer — writing into the middle of a byte string.

`overwrite l i bs` replaces the bytes of `l` from `i` on by `bs`. The frame rule
(`window_overwrite_apart`) and the read-back rule (`window_overwrite_self`) are all a serializer needs
that patches fields it has reserved; `Apart` is the side condition of the first.
-/
import Zap.Lib.Bytes

namespace Zap.Lib

/-- `bs` in place of the bytes of `l` from `i` on. -/
def overwrite (l : List UInt8) (i : Nat) (bs : List UInt8) : List UInt8 := l.take i ++ (bs ++ l.drop (i + bs.length))

/-- Two ranges, each by its start and its length, share no position. -/
def Apart (i n j k : Nat) : Prop := i + n ≤ j ∨ j + k ≤ i

theorem Apart.symm {i n j k : Nat} (h : Apart i n j k) : Apart j k i n := Or.symm h

section Overwrite

variable {l bs : List UInt8} {i : Nat}

@[simp]
theorem overwrite_length (h : i + bs.length ≤ l.length) : (overwrite l i bs).length = l.length := by
  simp only [overwrite, List.length_append, List.length_take, List.length_drop]
  omega

theorem overwrite_getElem? (h : i + bs.length ≤ l.length) (k : Nat) :
    (overwrite l i bs)[k]? = if i ≤ k ∧ k < i + bs.length then bs[k - i]? else l[k]? := by
  have hi : (l.take i).length = i := by
    rw [List.length_take]
    omega
  unfold overwrite
  split_ifs with hk
  · rw [List.getElem?_append_right (by omega), hi, List.getElem?_append_left (by omega)]
  by_cases hlt : k < i
  · rw [List.getElem?_append_left (by omega), List.getElem?_take_of_lt hlt]
  · rw [List.getElem?_append_right (by omega), hi, List.getElem?_append_right (by omega), List.getElem?_drop]
    congr 1
    omega

theorem window_getElem? (l : List UInt8) (off n k : Nat) :
    (window l off n)[k]? = if k < n then l[off + k]? else none := by
  unfold window
  split_ifs with h
  · rw [List.getElem?_take_of_lt h, List.getElem?_drop]
  · rw [List.getElem?_eq_none]
    rw [List.length_take]
    omega

theorem window_overwrite_self (h : i + bs.length ≤ l.length) : window (overwrite l i bs) i bs.length = bs := by
  have hi : (l.take i).length = i := by
    rw [List.length_take]
    omega
  exact window_mid hi rfl

theorem window_overwrite_apart {j n : Nat} (h : i + bs.length ≤ l.length)
    (hd : Apart i bs.length j n) : window (overwrite l i bs) j n = window l j n := by
  apply List.ext_getElem?
  intro k
  rw [window_getElem?, window_getElem?]
  split_ifs with hk
  · rw [overwrite_getElem? h, if_neg]
    rcases hd with hd | hd <;> omega
  · rfl

theorem window_append_left {r : List UInt8} {j n : Nat} (h : j + n ≤ l.length) :
    window (l ++ r) j n = window l j n := by
  unfold window
  rw [List.drop_append_of_le_length (by omega), List.take_append_of_le_length]
  rw [List.length_drop]
  omega

theorem window_window {j n off w : Nat} (h : off + w ≤ n) :
    window (window l j n) off w = window l (j + off) w := by
  unfold window
  rw [List.drop_take, List.take_take, List.drop_drop]
  congr 1
  omega

theorem window_append_split {a b : List UInt8} {j n k : Nat} (ha : a.length = n) (hb : b.length = k)
    (h : window l j (n + k) = a ++ b) : window l j n = a ∧ window l (j + n) k = b := by
  subst ha hb
  constructor
  · have := congrArg (fun x => window x 0 a.length) h
    simpa [window_window, window, List.take_take] using this
  · have := congrArg (fun x => window x a.length b.length) h
    simp only [window_window (Nat.le_refl _)] at this
    rw [this, window_append_right rfl, List.take_length]

end Overwrite

end Zap.Lib
