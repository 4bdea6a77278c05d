/-
# Zap.Handshake.Replay — the replay gate of a responder (`handshake/replay.go`).

Two gates: a timestamp window of ±30 s, and a cache of `(client_id, client_random)` in two generations
rotated lazily. `CheckTimestamp` and `SeenOrAdd` each read the clock for themselves, and `SeenOrAdd` reads
it before it takes the lock; in a program the reading and the locked part are two requests.

The generations are maps to `struct{}`, here the lists of their keys; an insert happens only for a key that
is in neither list.
-/
import Zap.Handshake.FrameRuns
import Zap.Handshake.Kdf

namespace Zap.Handshake

open Zap.Lib Zap.Lib.Proc

/-! ## The cache -/

structure ReplayCache where
  active : List ReplayKey
  frozen : List ReplayKey
  frozenAt : Int
  ttl : Int
  maxLen : Nat

def newReplayCache (now : Int) : ReplayCache where
  active := []
  frozen := []
  frozenAt := now
  ttl := replayCacheTTLSec * second
  maxLen := 2 ^ 20

/-- The generation flip `SeenOrAdd` and `Sweep` share. -/
def ReplayCache.rotate (c : ReplayCache) (now : Int) : ReplayCache :=
  if now - c.frozenAt ≥ c.ttl then { c with frozen := c.active, active := [], frozenAt := now }
  else c

/-- The locked part of `SeenOrAdd`, for the clock reading `now` taken before the lock. -/
def ReplayCache.seenOrAdd (c : ReplayCache) (now : Int) (key : ReplayKey) : Bool × ReplayCache :=
  let c := c.rotate now
  if key ∈ c.frozen then (true, c)
  else if key ∈ c.active then (true, c)
  else if c.active.length ≥ c.maxLen then (true, c)
  else (false, { c with active := key :: c.active })

def ReplayCache.sweep (c : ReplayCache) (now : Int) : ReplayCache := c.rotate now

section Holds

variable {c : ReplayCache} {key : ReplayKey} {r now : Int}

/-- How a key that was added at the reading `r` is still held: in the active generation, in the frozen one,
or no longer, after two rotations. Each rotation is a ttl later than the last. -/
def ReplayCache.Holds (c : ReplayCache) (key : ReplayKey) (r : Int) : Prop :=
  (key ∈ c.active ∧ r < c.frozenAt + c.ttl) ∨ (key ∈ c.frozen ∧ r < c.frozenAt) ∨ r + c.ttl < c.frozenAt

theorem ReplayCache.rotate_ttl (c : ReplayCache) (now : Int) : (c.rotate now).ttl = c.ttl := by
  unfold ReplayCache.rotate
  split <;> rfl

theorem ReplayCache.rotate_frozenAt_le {b : Int} (hc : c.frozenAt ≤ b) (hnow : now ≤ b) :
    (c.rotate now).frozenAt ≤ b := by
  unfold ReplayCache.rotate
  split
  · exact hnow
  · exact hc

theorem ReplayCache.rotate_due (httl : 0 < c.ttl) : now < (c.rotate now).frozenAt + (c.rotate now).ttl := by
  unfold ReplayCache.rotate
  split
  · show now < now + c.ttl
    omega
  · omega

theorem ReplayCache.Holds.rotate (h : c.Holds key r) (httl : 0 < c.ttl) : (c.rotate now).Holds key r := by
  unfold ReplayCache.rotate
  split
  · rename_i hdue
    rcases h with ⟨hin, hr⟩ | ⟨-, hr⟩ | hr
    · exact .inr (.inl ⟨hin, show r < now by omega⟩)
    · exact .inr (.inr (show r + c.ttl < now by omega))
    · exact .inr (.inr (show r + c.ttl < now by omega))
  · exact h

/-- The cache after `SeenOrAdd` is the rotated one, with at most a key more in the active generation. -/
theorem ReplayCache.seenOrAdd_cache (c : ReplayCache) (now : Int) (k : ReplayKey) :
    (c.seenOrAdd now k).2 = c.rotate now ∨
      (c.seenOrAdd now k).2 = { c.rotate now with active := k :: (c.rotate now).active } := by
  unfold ReplayCache.seenOrAdd
  dsimp only
  split
  · exact .inl rfl
  split
  · exact .inl rfl
  · split
    · exact .inl rfl
    · exact .inr rfl

theorem ReplayCache.seenOrAdd_ttl (c : ReplayCache) (now : Int) (k : ReplayKey) :
    (c.seenOrAdd now k).2.ttl = c.ttl := by
  rcases c.seenOrAdd_cache now k with h | h <;> rw [h] <;> exact c.rotate_ttl now

theorem ReplayCache.seenOrAdd_frozenAt (c : ReplayCache) (now : Int) (k : ReplayKey) :
    (c.seenOrAdd now k).2.frozenAt = (c.rotate now).frozenAt := by
  rcases c.seenOrAdd_cache now k with h | h <;> rw [h]

theorem ReplayCache.Holds.seenOrAdd (h : c.Holds key r) (httl : 0 < c.ttl) (k : ReplayKey) :
    (c.seenOrAdd now k).2.Holds key r := by
  have hrot : (c.rotate now).Holds key r := h.rotate httl
  rcases c.seenOrAdd_cache now k with hc | hc
  · rw [hc]
    exact hrot
  · rw [hc]
    exact hrot.imp_left fun ⟨hin, hr⟩ => ⟨List.mem_cons_of_mem _ hin, hr⟩

/-- What `SeenOrAdd` answers `false` for is in neither generation and is held from then on. -/
theorem ReplayCache.seenOrAdd_false (h : (c.seenOrAdd now key).1 = false) :
    key ∉ (c.rotate now).frozen ∧ key ∉ (c.rotate now).active ∧
      (c.seenOrAdd now key).2 = { c.rotate now with active := key :: (c.rotate now).active } := by
  unfold ReplayCache.seenOrAdd at h ⊢
  dsimp only at h ⊢
  split at h
  · cases h
  rename_i hfrozen
  split at h
  · cases h
  rename_i hactive
  split at h
  · cases h
  · rename_i hroom
    rw [if_neg hfrozen, if_neg hactive, if_neg hroom]
    exact ⟨hfrozen, hactive, rfl⟩

theorem ReplayCache.holds_added (h : (c.seenOrAdd now key).1 = false) (httl : 0 < c.ttl) :
    (c.seenOrAdd now key).2.Holds key now := by
  rw [(seenOrAdd_false h).2.2]
  exact .inl ⟨List.mem_cons_self .., rotate_due httl⟩

/-- **A key is let in again only two rotations later.** -/
theorem ReplayCache.Holds.readmitted (h : c.Holds key r) (httl : 0 < c.ttl)
    (hfalse : (c.seenOrAdd now key).1 = false) : r + c.ttl < (c.rotate now).frozenAt := by
  have hrot : (c.rotate now).Holds key r := h.rotate httl
  obtain ⟨hfrozen, hactive, -⟩ := seenOrAdd_false hfalse
  rcases hrot with ⟨hin, -⟩ | ⟨hin, -⟩ | hr
  · exact absurd hin hactive
  · exact absurd hin hfrozen
  · rwa [c.rotate_ttl] at hr

end Holds

/-! ## The timestamp window -/

/-- The `int64` arithmetic of `CheckTimestamp` at a clock reading: the difference wraps around. -/
def checkTimestampAt (now : Int) (timestampNS : UInt64) : Except Err Unit :=
  let now := Int64.ofInt now
  if now < 0 then .error (.sentinel .replayDetected)
  else
    let skew := timestampNS.toInt64 - now
    let skew := if skew < 0 then -skew else skew
    if skew > Int64.ofInt replayWindowNS then .error (.sentinel .replayDetected)
    else .ok ()

variable {t : Int} {ts : UInt64}

/-- What the window lets through at a clock reading in range: a skew of at most 30 s, or the one skew whose
negation overflows. -/
theorem checkTimestampAt_ok (h0 : 0 ≤ t) (h63 : t < 2 ^ 63) :
    checkTimestampAt t ts = .ok () ↔
      let skew := (ts.toInt64.toInt - t).bmod (2 ^ 64)
      (-replayWindowNS ≤ skew ∧ skew ≤ replayWindowNS) ∨ skew = -2 ^ 63 := by
  have hnow : (Int64.ofInt t).toInt = t := Int64.toInt_ofInt_of_le (by omega) (by omega)
  have hwin : (Int64.ofInt replayWindowNS).toInt = 30000000000 := by decide
  have hw : replayWindowNS = 30000000000 := by decide
  have hzero : (0 : Int64).toInt = 0 := rfl
  have hskew : (ts.toInt64 - Int64.ofInt t).toInt = (ts.toInt64.toInt - t).bmod (2 ^ 64) := by
    rw [Int64.toInt_sub, hnow]
  unfold checkTimestampAt
  simp only [gt_iff_lt, Int64.lt_iff_toInt_lt, hnow, hzero, hwin, ← hskew, if_neg (Int.not_lt.mpr h0)]
  generalize ts.toInt64 - Int64.ofInt t = s
  have hlo := Int64.le_toInt s
  have hhi := Int64.toInt_lt s
  by_cases hneg : s.toInt < 0
  · rw [if_pos hneg, Int64.toInt_neg]
    by_cases hmin : s.toInt = -2 ^ 63
    · rw [hmin]
      simp
    · rw [Int.bmod_eq_of_le (by omega) (by omega)]
      split <;> simp <;> omega
  · rw [if_neg hneg]
    split <;> simp <;> omega

theorem toInt64_toInt (ts : UInt64) : ts.toInt64.toInt = (ts.toNat : Int).bmod (2 ^ 64) :=
  BitVec.toInt_eq_toNat_bmod ts.toBitVec

/-- **What the window lets through**, by the true difference: at most 30 s; the one of `2 ^ 63` ns; and those so
close to `2 ^ 64` ns that they come round to within 30 s. -/
theorem checkTimestampAt_window (h0 : 0 ≤ t) (h63 : t < 2 ^ 63) :
    checkTimestampAt t ts = .ok () ↔
      ((ts.toNat : Int) - t).natAbs ≤ replayWindowNS ∨ (ts.toNat : Int) - t = 2 ^ 63 ∨
        2 ^ 64 - replayWindowNS ≤ (ts.toNat : Int) - t := by
  have hw : replayWindowNS = 30000000000 := by decide
  have hlt := ts.toNat_lt
  rw [checkTimestampAt_ok h0 h63, toInt64_toInt, hw]
  simp only [Int.bmod_def]
  omega

/-- **The window is one minute wide**: two readings that both let a timestamp through are at most that far
apart. -/
theorem window_span {t1 t2 : Int} (h1 : checkTimestampAt t1 ts = .ok ()) (h2 : checkTimestampAt t2 ts = .ok ())
    (h0 : 0 ≤ t1) (hle : t1 ≤ t2) (hend : t2 + replayWindowNS < 2 ^ 63) : t2 ≤ t1 + 2 * replayWindowNS := by
  have hw : replayWindowNS = 30000000000 := by decide
  rw [checkTimestampAt_ok h0 (by omega)] at h1
  rw [checkTimestampAt_ok (by omega) (by omega)] at h2
  simp only [Int.bmod_def] at h1 h2
  omega

section Gate

variable {C : Prims}

def checkTimestamp (timestampNS : UInt64) : M C Unit := do
  let now : Int ← call .now
  orReturn (checkTimestampAt now timestampNS)

def seenOrAdd (key : ReplayKey) : M C Bool := do
  let now : Int ← call .now
  call (.seenOrAdd now key)

/-- The replay gate of both handshakes; the resumed one computes its key in between. -/
def replayGate (timestampNS : UInt64) (key : M C ReplayKey) : M C Unit := do
  orAlertWith (fun e => e) (checkTimestamp timestampNS)
  let k ← key
  let seen ← seenOrAdd k
  refuseIf (seen = true) (.sentinel .replayDetected)

variable {tr : List (Event C)} {u : Unit}

theorem checkTimestamp_yields :
    Yields (checkTimestamp ts : M C Unit) tr u ↔
      ∃ t, checkTimestampAt t ts = .ok () ∧ tr = [clock t] := by
  unfold checkTimestamp
  simp only [yields_bind, now_yields, orReturn_yields, existsAndEq, true_and, List.append_nil]
  exact exists_congr fun _ => and_comm

/-- **When the gate is exact.**  At a clock reading in range, `CheckTimestamp` returns nil just for the timestamps
within 30 s of it, unless the timestamp is `2 ^ 63` ns ahead or at least `2 ^ 64` ns less 30 s ahead. -/
theorem checkTimestamp_exact_iff (C : Prims) (t : Int) (ts : UInt64) (h0 : 0 ≤ t) (h63 : t < 2 ^ 63) :
    (Yields (checkTimestamp ts : M C Unit) [clock t] () ↔ ((ts.toNat : Int) - t).natAbs ≤ replayWindowNS) ↔
      (ts.toNat : Int) - t ≠ 2 ^ 63 ∧ (ts.toNat : Int) - t < 2 ^ 64 - replayWindowNS := by
  have hyields : Yields (checkTimestamp ts : M C Unit) [clock t] () ↔ checkTimestampAt t ts = .ok () := by
    rw [checkTimestamp_yields]
    constructor
    · rintro ⟨t', hok, htrace⟩
      cases htrace
      exact hok
    · exact fun hok => ⟨t, hok, rfl⟩
  have hw : replayWindowNS = 30000000000 := by decide
  rw [hyields, checkTimestampAt_window h0 h63, hw]
  omega

/-- Thirty seconds after the epoch the gate is exact for a timestamp of that moment. -/
theorem checkTimestamp_exact_early :
    Yields (checkTimestamp 30000000000 : M samplePrims Unit) [clock 30000000000] () ↔
      (((30000000000 : UInt64).toNat : Int) - 30000000000).natAbs ≤ replayWindowNS :=
  (checkTimestamp_exact_iff samplePrims 30000000000 30000000000 (by decide) (by decide)).mpr (by decide)

/-- A timestamp 292 years ahead of the clock is let through: the negation of its skew overflows. -/
theorem checkTimestamp_far_ahead :
    Yields (checkTimestamp 9223372036854775808 : M samplePrims Unit) [clock 0] () ∧
      ¬((((9223372036854775808 : UInt64).toNat : Int) - 0).natAbs ≤ replayWindowNS) :=
  ⟨checkTimestamp_yields.mpr ⟨0, by decide, rfl⟩, by decide⟩

def seenEv (t : Int) (key : ReplayKey) (seen : Bool) : Event C := ⟨.seenOrAdd t key, seen⟩

theorem seenOrAdd_yields {key : ReplayKey} {seen : Bool} :
    Yields (seenOrAdd key : M C Bool) tr seen ↔ ∃ t, tr = [clock t, seenEv t key seen] := by
  unfold seenOrAdd
  have hcall : ∀ {t tr}, Yields (α := Bool) (call (C := C) (.seenOrAdd t key)) tr seen ↔
      tr = [seenEv t key seen] := call_yields
  simp only [yields_bind, now_yields, hcall, existsAndEq, and_true, List.singleton_append]

/-- The gate opens when the timestamp is in the window and the locked part saw the key first. -/
theorem replayGate_yields {key : M C ReplayKey} :
    Yields (replayGate ts key) tr u ↔ ∃ t tk k t', checkTimestampAt t ts = .ok () ∧ Yields key tk k ∧
      tr = clock t :: (tk ++ [clock t', seenEv t' k false]) := by
  unfold replayGate
  simp only [yields_bind, orAlertWith_yields, checkTimestamp_yields, seenOrAdd_yields, refuseIf_yields,
    existsAndEq, true_and, and_true, List.append_nil, Bool.not_eq_true]
  constructor
  · rintro ⟨-, tk, k, t', t, rfl, hok, hkey⟩
    exact ⟨t, tk, k, t', hok, hkey, rfl⟩
  · rintro ⟨t, tk, k, t', hok, hkey, rfl⟩
    exact ⟨(), tk, k, t', t, rfl, hok, hkey⟩

end Gate

end Zap.Handshake
