/-
# Zap.Lib.Reader — a stream that arrives in pieces.

A reader hands out the bytes of a stream a piece at a time and stops with an error; where the pieces begin and
end is not the program's choice. `io.ReadFull` loops over it until its buffer is full. What it returns depends
on the bytes alone (`readFull_of_append`, `readFull_ok`, `readFull_error`), so a program that reads through it
cannot tell one division of a stream from another.
-/
import Zap.Lib.Bytes

namespace Zap.Lib.Reader

/-- What a loop of reads into an `n`-byte buffer collects, each read ending with the piece it began in, and
what is left of the pieces. -/
def gather {α : Type*} : Nat → List (List α) → List α × List (List α)
  | 0, cs => ([], cs)
  | _ + 1, [] => ([], [])
  | n + 1, c :: cs =>
    if c.length ≤ n + 1 then (c ++ (gather (n + 1 - c.length) cs).1, (gather (n + 1 - c.length) cs).2)
    else (c.take (n + 1), c.drop (n + 1) :: cs)

/-- The loop takes the front of the stream, however it is divided, and leaves the rest. -/
theorem gather_spec {α : Type*} (n : Nat) (cs : List (List α)) :
    (gather n cs).1 = cs.flatten.take n ∧ (gather n cs).2.flatten = cs.flatten.drop n := by
  induction cs generalizing n with
  | nil => cases n <;> simp [gather]
  | cons c cs ih =>
    cases n with
    | zero => simp [gather]
    | succ n =>
      rw [gather, List.flatten_cons, List.take_append, List.drop_append]
      split_ifs with hle
      · obtain ⟨hgot, hrest⟩ := ih (n + 1 - c.length)
        rw [List.take_of_length_le hle, List.drop_of_length_le hle, List.nil_append]
        exact ⟨congrArg (c ++ ·) hgot, hrest⟩
      · have hinside : n + 1 - c.length = 0 := by omega
        rw [hinside]
        simp

/-- `io.ReadFull` of `n` bytes from a reader that stops with `stop`. -/
def readFull (stop : String) (n : Nat) (cs : List (List UInt8)) : Except String (Arr n) × List (List UInt8) :=
  let got := gather n cs
  (if h : got.1.length = n then .ok ⟨got.1, h⟩
    else if got.1 ≠ [] ∧ stop = "EOF" then .error "unexpected EOF" else .error stop, got.2)

section ReadFull

variable {stop : String} {n : Nat} {cs : List (List UInt8)}

theorem readFull_of_append (stop : String) (a : Arr n) {rest : List UInt8} (h : cs.flatten = a.bytes ++ rest) :
    ∃ cs', readFull stop n cs = (.ok a, cs') ∧ cs'.flatten = rest := by
  obtain ⟨hgot, hrest⟩ := gather_spec n cs
  rw [h, List.take_left' a.len] at hgot
  rw [h, List.drop_left' a.len] at hrest
  refine ⟨(gather n cs).2, ?_, hrest⟩
  have hlen : (gather n cs).1.length = n := by rw [hgot, a.len]
  simp only [readFull, dif_pos hlen]
  exact Prod.ext (congrArg Except.ok (Arr.ext hgot)) rfl

theorem readFull_ok {a : Arr n} {cs' : List (List UInt8)} (h : readFull stop n cs = (.ok a, cs')) :
    cs.flatten = a.bytes ++ cs'.flatten := by
  obtain ⟨hgot, hrest⟩ := gather_spec n cs
  unfold readFull at h
  obtain ⟨hfst, rfl⟩ := Prod.mk.inj h
  split_ifs at hfst
  cases hfst
  show cs.flatten = (gather n cs).1 ++ (gather n cs).2.flatten
  rw [hgot, hrest, List.take_append_drop]

theorem readFull_error {e : String} {cs' : List (List UInt8)} (h : readFull stop n cs = (.error e, cs')) :
    cs'.flatten = [] := by
  obtain ⟨hgot, hrest⟩ := gather_spec n cs
  unfold readFull at h
  obtain ⟨hfst, rfl⟩ := Prod.mk.inj h
  have hshort : (gather n cs).1.length ≠ n := by
    intro hlen
    rw [dif_pos hlen] at hfst
    cases hfst
  rw [hgot, List.length_take] at hshort
  rw [hrest, List.drop_of_length_le (by omega)]

theorem readFull_nil (h : cs.flatten = []) (hn : n ≠ 0) : (readFull stop n cs).1 = .error stop := by
  have hgot : (gather n cs).1 = [] := by rw [(gather_spec n cs).1, h, List.take_nil]
  simp only [readFull, hgot]
  rw [dif_neg (by simpa using hn.symm), if_neg (by simp)]

end ReadFull

end Zap.Lib.Reader
