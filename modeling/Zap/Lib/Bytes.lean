/-
# Zap.Lib.Bytes — byte strings, fixed-width byte arrays and positional integers.

Byte strings are `List UInt8`: lists are what the proofs take apart. A fixed-width array carries its
width as a field (`Arr n`), so a codec that stores a `[n]byte` never re-proves a length. Integers are
written positionally in base 256; `be` is the big-endian writer, `ofBE` its reader, and the little-endian
pair is the same pair read backwards. The two laws every codec rides are `ofBE_be` (read back modulo the
width) and `be_ofBE` (every string of the right width is the encoding of what it spells).
-/
import Mathlib.Data.List.Induction
import Mathlib.Data.Nat.ModEq
import Mathlib.Tactic.Ring

namespace Zap.Lib

/-- A text, as its bytes. -/
abbrev Str := List UInt8

def str (s : String) : Str := s.toUTF8.data.toList

def cut (c : UInt8) (s : Str) : Str × Str := (s.takeWhile (· != c), (s.dropWhile (· != c)).tail)

/-! ## Fixed-width arrays -/

/-- A byte array of width exactly `n`. -/
@[ext]
structure Arr (n : Nat) where
  bytes : List UInt8
  len : bytes.length = n
  deriving DecidableEq

variable {l a b c : List UInt8} {off n w : Nat}

namespace Arr

variable {n : Nat}

attribute [simp] Arr.len

def zero (n : Nat) : Arr n := ⟨List.replicate n 0, by simp⟩

/-- Copy a string into a zeroed array: the first `n` bytes, zeros past the end of the source. -/
def copy (n : Nat) (l : List UInt8) : Arr n := ⟨l.take n ++ List.replicate (n - l.length) 0, by simp; omega⟩

theorem copy_bytes (h : l.length = n) : (copy n l).bytes = l := by
  simp [copy, ← h]

@[simp]
theorem copy_self (a : Arr n) : copy n a.bytes = a := Arr.ext (copy_bytes a.len)

theorem bytes_injective : Function.Injective (Arr.bytes : Arr n → List UInt8) := fun _ _ h => Arr.ext h

end Arr

/-! ## Taking strings apart -/

theorem append_split {d : List UInt8} (hlen : a.length = c.length) (h : a ++ b = c ++ d) : a = c ∧ b = d :=
  List.append_inj h hlen

def window (l : List UInt8) (off n : Nat) : List UInt8 := (l.drop off).take n

variable {l : List UInt8}

theorem window_length (h : off + n ≤ l.length) : (window l off n).length = n := by
  simp only [window, List.length_take, List.length_drop]
  omega

theorem window_append_right (h : a.length = off) : window (a ++ b) off n = b.take n := by
  simp [window, ← h]

theorem window_mid (ha : a.length = off) (hb : b.length = n) : window (a ++ (b ++ c)) off n = b := by
  rw [window_append_right ha, ← hb, List.take_left]

theorem window_cat (l : List UInt8) (off n m : Nat) :
    window l off n ++ window l (off + n) m = window l off (n + m) := by
  simp only [window, ← List.drop_drop, List.take_add]

theorem prefix_cat (l : List UInt8) (n m : Nat) : window l 0 n ++ window l n m = window l 0 (n + m) := by
  have h := window_cat l 0 n m
  rwa [Nat.zero_add] at h

theorem window_whole (h : l.length = n) : window l 0 n = l := by
  simp [window, ← h]

theorem window_one (h : off < l.length) : window l off 1 = [l.getD off 0] := by
  rw [window, List.drop_eq_getElem_cons h, List.take_succ_cons, List.take_zero]
  simp [h]

/-! ## Positional integers -/

/-- The low `w` base-256 digits of `v`, most significant first. -/
def be : Nat → Nat → List UInt8
  | 0, _ => []
  | w + 1, v => be w (v / 256) ++ [UInt8.ofNat v]

/-- The number a big-endian digit string spells. -/
def ofBE (l : List UInt8) : Nat := l.foldl (fun acc d => acc * 256 + d.toNat) 0

/-- The low `w` base-256 digits of `v`, least significant first. -/
def le (w v : Nat) : List UInt8 := (be w v).reverse

/-- The number a little-endian digit string spells. -/
def ofLE (l : List UInt8) : Nat := ofBE l.reverse

@[simp]
theorem be_length (w v : Nat) : (be w v).length = w := by
  induction w generalizing v with
  | zero => rfl
  | succ w ih => simp [be, ih]

@[simp]
theorem le_length (w v : Nat) : (le w v).length = w := by
  simp [le]

theorem ofBE_concat (l : List UInt8) (d : UInt8) : ofBE (l ++ [d]) = ofBE l * 256 + d.toNat := by
  simp [ofBE, List.foldl_append]

theorem ofBE_lt (l : List UInt8) : ofBE l < 256 ^ l.length := by
  induction l using List.reverseRecOn with
  | nil => exact Nat.zero_lt_one
  | append_singleton l d ih =>
    have hd : d.toNat < 256 := d.toNat_lt
    rw [ofBE_concat, List.length_append, List.length_singleton, pow_succ]
    omega

theorem ofBE_be (w v : Nat) : ofBE (be w v) = v % 256 ^ w := by
  induction w generalizing v with
  | zero => exact (Nat.mod_one v).symm
  | succ w ih =>
    have hdigit : (UInt8.ofNat v).toNat = v % 256 := by simp
    rw [be, ofBE_concat, ih, hdigit, pow_succ, Nat.mul_comm (256 ^ w) 256, Nat.mod_mul]
    ring

theorem be_ofBE (l : List UInt8) : be l.length (ofBE l) = l := by
  induction l using List.reverseRecOn with
  | nil => rfl
  | append_singleton l d ih =>
    have hd : d.toNat < 256 := d.toNat_lt
    have hq : (ofBE l * 256 + d.toNat) / 256 = ofBE l := by omega
    have hr : UInt8.ofNat (ofBE l * 256 + d.toNat) = d := by
      apply UInt8.toNat_inj.mp
      simp
    rw [List.length_append, List.length_singleton, be, ofBE_concat, hq, hr, ih]

theorem be_ofBE_of_length (h : l.length = w) : be w (ofBE l) = l := by
  rw [← h, be_ofBE]

theorem ofBE_be_of_lt {v : Nat} (h : v < 256 ^ w) : ofBE (be w v) = v := by
  rw [ofBE_be, Nat.mod_eq_of_lt h]

theorem be_inj_mod {a b : Nat} (h : be w a = be w b) : a % 256 ^ w = b % 256 ^ w := by
  rw [← ofBE_be, ← ofBE_be, h]

theorem be_inj {a b : Nat} (ha : a < 256 ^ w) (hb : b < 256 ^ w) (h : be w a = be w b) : a = b := by
  have := be_inj_mod h
  rwa [Nat.mod_eq_of_lt ha, Nat.mod_eq_of_lt hb] at this

theorem ofBE_inj {m : List UInt8} (hlen : l.length = m.length) (h : ofBE l = ofBE m) : l = m := by
  rw [← be_ofBE l, ← be_ofBE m, h, hlen]

theorem ofLE_le (w v : Nat) : ofLE (le w v) = v % 256 ^ w := by
  simp [ofLE, le, ofBE_be]

/-! ## Machine words -/

theorem byte_forall {P : UInt8 → Prop} (h : ∀ n : Fin 256, P (UInt8.ofNat n)) (c : UInt8) : P c := by
  have hc := h ⟨c.toNat, c.toNat_lt⟩
  rwa [UInt8.ofNat_toNat] at hc

def be64 (v : UInt64) : List UInt8 := be 8 v.toNat

def ofBE64 (l : List UInt8) : UInt64 := UInt64.ofNat (ofBE l)

@[simp]
theorem be64_length (v : UInt64) : (be64 v).length = 8 := be_length 8 _

@[simp]
theorem ofBE64_be64 (v : UInt64) : ofBE64 (be64 v) = v := by
  have hv : v.toNat < 256 ^ 8 := v.toNat_lt
  rw [ofBE64, be64, ofBE_be_of_lt hv, UInt64.ofNat_toNat]

theorem be64_injective : Function.Injective be64 := by
  intro a b h
  have := congrArg ofBE64 h
  simpa using this

theorem be64_ofBE64 (h : l.length = 8) : be64 (ofBE64 l) = l := by
  have hl : ofBE l < 2 ^ 64 := by
    have := ofBE_lt l
    rw [h] at this
    exact this
  rw [be64, ofBE64, UInt64.toNat_ofNat_of_lt' hl, ← h, be_ofBE]

end Zap.Lib
