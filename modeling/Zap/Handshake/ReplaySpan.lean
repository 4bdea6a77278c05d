/-
# Zap.Handshake.ReplaySpan — how long the replay cache remembers a pair.

The generations turn over only inside a call, `SeenOrAdd` or `Sweep`, so how long a pair is remembered
depends on when calls are made. From below nothing can go wrong: a pair leaves the cache with the second
rotation after it came in, and that one is more than a ttl later. From above there is no bound without
calls: after an idle time of any length the next call rotates once, and the pair is still in the frozen
generation.
-/
import Zap.Handshake.Replay

namespace Zap.Handshake

/-! ## Sequences of calls -/

inductive CacheOp
  | seenOrAdd (key : ReplayKey)
  | sweep
  deriving DecidableEq

structure CacheCall where
  now : Int
  op : CacheOp

def CacheCall.present (now : Int) (key : ReplayKey) : CacheCall := ⟨now, .seenOrAdd key⟩

def InOrder (calls : List CacheCall) : Prop := calls.Pairwise fun x y => x.now ≤ y.now

instance (calls : List CacheCall) : Decidable (InOrder calls) :=
  inferInstanceAs (Decidable (calls.Pairwise fun x y => x.now ≤ y.now))

namespace ReplayCache

def after (c : ReplayCache) (x : CacheCall) : ReplayCache :=
  match x.op with
  | .seenOrAdd key => (c.seenOrAdd x.now key).2
  | .sweep => c.sweep x.now

def run (c : ReplayCache) (calls : List CacheCall) : ReplayCache := calls.foldl after c

variable {c : ReplayCache} {key : ReplayKey} {x : CacheCall} {t u : Int}

/-- A call rotates if a rotation is due, and adds at most the key it presents. -/
theorem after_cases (c : ReplayCache) (x : CacheCall) :
    c.after x = c.rotate x.now ∨
      ∃ k, x.op = .seenOrAdd k ∧
        c.after x = { c.rotate x.now with active := k :: (c.rotate x.now).active } := by
  obtain ⟨now, op⟩ := x
  cases op with
  | sweep => exact .inl rfl
  | seenOrAdd k =>
    rcases c.seenOrAdd_cache now k with h | h
    · exact .inl h
    · exact .inr ⟨k, rfl, h⟩

theorem after_ttl (c : ReplayCache) (x : CacheCall) : (c.after x).ttl = c.ttl := by
  rcases c.after_cases x with h | ⟨k, -, h⟩
  · rw [h, c.rotate_ttl]
  · rw [h]
    exact c.rotate_ttl x.now

theorem after_frozenAt (c : ReplayCache) (x : CacheCall) :
    (c.after x).frozenAt = (c.rotate x.now).frozenAt := by
  rcases c.after_cases x with h | ⟨k, -, h⟩ <;> rw [h]

theorem run_ttl (c : ReplayCache) (calls : List CacheCall) : (c.run calls).ttl = c.ttl := by
  induction calls generalizing c with
  | nil => rfl
  | cons x calls ih => exact (ih (c.after x)).trans (c.after_ttl x)

theorem run_concat (c : ReplayCache) (calls : List CacheCall) (x : CacheCall) :
    c.run (calls ++ [x]) = (c.run calls).after x := by
  simp [run]

theorem run_frozenAt_le {calls : List CacheCall} (hc : c.frozenAt ≤ u) (hnow : ∀ x ∈ calls, x.now ≤ u) :
    (c.run calls).frozenAt ≤ u := by
  induction calls using List.reverseRecOn with
  | nil => exact hc
  | append_singleton calls x ih =>
    rw [run_concat, after_frozenAt]
    exact rotate_frozenAt_le (ih fun y hy => hnow y (by simp [hy])) (hnow x (by simp))

theorem Holds.run (h : c.Holds key t) (httl : 0 < c.ttl) (calls : List CacheCall) :
    (c.run calls).Holds key t := by
  induction calls generalizing c with
  | nil => exact h
  | cons x calls ih =>
    refine ih (c := c.after x) ?_ (by rwa [c.after_ttl])
    obtain ⟨now, op⟩ := x
    cases op with
    | sweep => exact h.rotate httl
    | seenOrAdd k => exact h.seenOrAdd httl k

/-! ## The two rotations -/

/-- Where a pair is that came in when the last rotation was at `f` and has not been presented since: no
call has been due for a rotation, and it is active; the first such call was at `r`, none has been a ttl
later, and it is frozen; or there has been such a call, and it is gone. -/
def Aged (key : ReplayKey) (f : Int) (calls : List CacheCall) (c : ReplayCache) : Prop :=
  (key ∈ c.active ∧ c.frozenAt = f ∧ ∀ x ∈ calls, x.now < f + c.ttl) ∨
  (key ∈ c.frozen ∧ key ∉ c.active ∧ (∃ x ∈ calls, x.now = c.frozenAt) ∧ f + c.ttl ≤ c.frozenAt ∧
    (∀ x ∈ calls, f + c.ttl ≤ x.now → c.frozenAt ≤ x.now) ∧ ∀ x ∈ calls, x.now < c.frozenAt + c.ttl) ∨
  (key ∉ c.frozen ∧ key ∉ c.active ∧ ∃ x ∈ calls, f + c.ttl ≤ x.now ∧ ∃ y ∈ calls, x.now + c.ttl ≤ y.now)

namespace Aged

variable {f : Int} {calls : List CacheCall}

theorem rotate (h : Aged key f calls c) (httl : 0 < c.ttl) (hclock : ∀ y ∈ calls, y.now ≤ x.now) :
    Aged key f (calls ++ [x]) (c.rotate x.now) := by
  unfold ReplayCache.rotate
  split
  next hdue =>
    rcases h with ⟨hin, hf, hnone⟩ | ⟨-, hout, ⟨r, hr, hrnow⟩, hfirst, -, -⟩ | ⟨-, hout, y, hy, hfy, z, hz, hyz⟩
    · -- the first rotation since the pair came in
      have hlater : ∀ y ∈ calls ++ [x], f + c.ttl ≤ y.now → x.now ≤ y.now := by
        intro y hy hfy
        rcases List.mem_append.mp hy with hy | hy
        · exact absurd (hnone y hy) (by omega)
        · rw [List.mem_singleton.mp hy]
      refine .inr (.inl ⟨hin, List.not_mem_nil, ⟨x, by simp, rfl⟩, show f + c.ttl ≤ x.now by omega, hlater, ?_⟩)
      intro y hy
      show y.now < x.now + c.ttl
      rcases List.mem_append.mp hy with hy | hy
      · have := hclock y hy
        omega
      · rw [List.mem_singleton.mp hy]
        omega
    · -- the second one
      exact .inr (.inr ⟨hout, List.not_mem_nil, r, by simp [hr], show f + c.ttl ≤ r.now by omega, x, by simp,
        show r.now + c.ttl ≤ x.now by omega⟩)
    · exact .inr (.inr ⟨hout, List.not_mem_nil, y, by simp [hy], hfy, z, by simp [hz], hyz⟩)
  next hdue =>
    rcases h with ⟨hin, hf, hnone⟩ | ⟨hin, hout, ⟨r, hr, hrnow⟩, hfirst, hlater, hlast⟩ |
      ⟨hfrozen, hactive, y, hy, hfy, z, hz, hyz⟩
    · refine .inl ⟨hin, hf, fun y hy => ?_⟩
      rcases List.mem_append.mp hy with hy | hy
      · exact hnone y hy
      · rw [List.mem_singleton.mp hy]
        omega
    · refine .inr (.inl ⟨hin, hout, ⟨r, by simp [hr], hrnow⟩, hfirst, fun y hy hfy => ?_, fun y hy => ?_⟩)
      · rcases List.mem_append.mp hy with hy | hy
        · exact hlater y hy hfy
        · rw [List.mem_singleton.mp hy, ← hrnow]
          exact hclock r hr
      · rcases List.mem_append.mp hy with hy | hy
        · exact hlast y hy
        · rw [List.mem_singleton.mp hy]
          omega
    · exact .inr (.inr ⟨hfrozen, hactive, y, by simp [hy], hfy, z, by simp [hz], hyz⟩)

theorem add (h : Aged key f calls c) {k : ReplayKey} (hk : k ≠ key) :
    Aged key f calls { c with active := k :: c.active } := by
  have hmem : key ∈ k :: c.active ↔ key ∈ c.active := by simp [hk.symm]
  rcases h with ⟨hin, hrest⟩ | ⟨hin, hout, hrest⟩ | ⟨hfrozen, hout, hrest⟩
  · exact .inl ⟨hmem.mpr hin, hrest⟩
  · exact .inr (.inl ⟨hin, fun h => hout (hmem.mp h), hrest⟩)
  · exact .inr (.inr ⟨hfrozen, fun h => hout (hmem.mp h), hrest⟩)

theorem after (h : Aged key f calls c) (httl : 0 < c.ttl) (hclock : ∀ y ∈ calls, y.now ≤ x.now)
    (hother : x.op ≠ .seenOrAdd key) : Aged key f (calls ++ [x]) (c.after x) := by
  rcases c.after_cases x with hx | ⟨k, hop, hx⟩
  · rw [hx]
    exact h.rotate httl hclock
  · rw [hx]
    refine (h.rotate httl hclock).add ?_
    rintro rfl
    exact hother hop

theorem run (hin : key ∈ c.active) (httl : 0 < c.ttl) (hsorted : InOrder calls)
    (hother : ∀ x ∈ calls, x.op ≠ .seenOrAdd key) : Aged key c.frozenAt calls (c.run calls) := by
  induction calls using List.reverseRecOn with
  | nil => exact .inl ⟨hin, rfl, nofun⟩
  | append_singleton calls x ih =>
    obtain ⟨hpre, -, hlast⟩ := List.pairwise_append.mp hsorted
    rw [run_concat]
    refine (ih hpre fun y hy => hother y (by simp [hy])).after (by rwa [run_ttl])
      (fun y hy => hlast y hy x (by simp)) (hother x (by simp))

theorem seenOrAdd (h : Aged key f calls c) (hclock : ∀ y ∈ calls, y.now ≤ u)
    (hroom : c.active.length < c.maxLen) :
    (c.seenOrAdd u key).1 = false ↔ ∃ x ∈ calls, f + c.ttl ≤ x.now ∧ x.now + c.ttl ≤ u := by
  have hiff : (c.seenOrAdd u key).1 = false ↔ key ∉ (c.rotate u).frozen ∧ key ∉ (c.rotate u).active := by
    constructor
    · intro hfalse
      exact ⟨(seenOrAdd_false hfalse).1, (seenOrAdd_false hfalse).2.1⟩
    rintro ⟨hfrozen, hactive⟩
    have hspace : ¬(c.rotate u).active.length ≥ (c.rotate u).maxLen := by
      unfold ReplayCache.rotate
      split
      · show ¬0 ≥ c.maxLen
        omega
      · omega
    simp only [ReplayCache.seenOrAdd, if_neg hfrozen, if_neg hactive, if_neg hspace]
  rw [hiff]
  unfold ReplayCache.rotate
  rcases h with ⟨hin, hf, hnone⟩ | ⟨hin, hout, ⟨r, hr, hrnow⟩, hfirst, hlater, hlast⟩ |
    ⟨hfrozen, hactive, y, hy, hfy, z, hz, hyz⟩
  · -- no call has been due: one rotation at most, and the pair is in the cache
    refine iff_of_false ?_ ?_
    · split
      · exact fun h => h.1 hin
      · exact fun h => h.2 hin
    · rintro ⟨x, hx, hfx, -⟩
      exact absurd (hnone x hx) (by omega)
  · split
    next hdue => exact iff_of_true ⟨hout, List.not_mem_nil⟩ ⟨r, hr, by omega, by omega⟩
    next hdue =>
      refine iff_of_false (fun h => h.1 hin) ?_
      rintro ⟨x, hx, hfx, hxu⟩
      have := hlater x hx hfx
      omega
  · have hzu := hclock z hz
    refine iff_of_true ?_ ⟨y, hy, hfy, by omega⟩
    split
    · exact ⟨hactive, List.not_mem_nil⟩
    · exact ⟨hfrozen, hactive⟩

end Aged

/-! ## The span -/

/-- **How long a pair is remembered.**  In the order of the clock: calls `pre` on a new cache, the pair
accepted at `t`, calls `mid`, the pair presented at `u`. Up to `t + ttl` it is reported as seen. If none
of the calls in between presents it and the generation has room, it is accepted again exactly if one of
them was due for the rotation that follows `t` and was made a ttl or more before `u`. -/
theorem replay_memory_iff {start t u : Int} {key : ReplayKey} {pre mid : List CacheCall}
    (hclock : InOrder (pre ++ .present t key :: mid ++ [.present u key]))
    (hstart : ∀ x ∈ pre ++ [.present t key], start ≤ x.now)
    (haccepted : (((newReplayCache start).run pre).seenOrAdd t key).1 = false) :
    let c := ((newReplayCache start).run pre).after (.present t key)
    let c' := c.run mid
    (u ≤ t + c.ttl → (c'.seenOrAdd u key).1 = true) ∧
    ((∀ x ∈ mid, x.op ≠ .seenOrAdd key) → c'.active.length < c'.maxLen →
      ((c'.seenOrAdd u key).1 = false ↔ ∃ x ∈ mid, c.frozenAt + c.ttl ≤ x.now ∧ x.now + c.ttl ≤ u)) := by
  intro c c'
  have httl : c.ttl = replayCacheTTLSec * second := by
    rw [show c.ttl = _ from after_ttl _ _, run_ttl]
    rfl
  have hpos : 0 < c.ttl := by
    rw [httl]
    decide
  obtain ⟨hall, -, hlast⟩ := List.pairwise_append.mp hclock
  obtain ⟨-, hsuffix, hcross⟩ := List.pairwise_append.mp hall
  obtain ⟨hmid₀, hmid⟩ := List.pairwise_cons.mp hsuffix
  have hmidu : ∀ x ∈ mid, x.now ≤ u := fun x hx => hlast x (by simp [hx]) (.present u key) (by simp)
  have htu : t ≤ u := hlast (.present t key) (by simp) (.present u key) (by simp)
  have hc : c.active = key :: (((newReplayCache start).run pre).rotate t).active := by
    show (((newReplayCache start).run pre).seenOrAdd t key).2.active = _
    rw [(seenOrAdd_false haccepted).2.2]
  constructor
  · intro hu
    by_contra hseen
    have hfalse : (c'.seenOrAdd u key).1 = false := by simpa using hseen
    have hholds : c.Holds key t :=
      holds_added haccepted (by rwa [show c.ttl = _ from after_ttl _ _] at hpos)
    have hlate : t + c'.ttl < (c'.rotate u).frozenAt :=
      (hholds.run hpos mid).readmitted (by rwa [run_ttl]) hfalse
    have hfrozen : (c'.rotate u).frozenAt ≤ u := by
      refine rotate_frozenAt_le (run_frozenAt_le ?_ hmidu) (Int.le_refl u)
      show (((newReplayCache start).run pre).after (.present t key)).frozenAt ≤ u
      rw [after_frozenAt]
      refine rotate_frozenAt_le (run_frozenAt_le ?_ ?_) htu
      · show start ≤ u
        have := hstart (.present t key) (by simp)
        exact Int.le_trans this htu
      · intro x hx
        exact hlast x (by simp [hx]) (.present u key) (by simp)
    rw [show c'.ttl = c.ttl from run_ttl c mid] at hlate
    omega
  · intro hother hroom
    have haged : Aged key c.frozenAt mid c' := Aged.run (by rw [hc]; simp) hpos hmid hother
    have hiff := haged.seenOrAdd hmidu hroom
    rwa [show c'.ttl = c.ttl from run_ttl c mid] at hiff

def zeroKey : ReplayKey := ⟨.zero idLen, .zero clientRandLen⟩

/-- An idle hour: the pair is accepted at 0, and nobody calls until the pair comes again. -/
theorem idle_hour_remembered :
    ((newReplayCache 0).seenOrAdd 0 zeroKey).1 = false ∧
    ((newReplayCache 0).after (.present 0 zeroKey)).ttl = 60 * second ∧
    (((newReplayCache 0).after (.present 0 zeroKey)).seenOrAdd (3600 * second) zeroKey).1 = true := by
  decide

theorem swept_forgotten :
    ((((newReplayCache 0).after (.present 0 zeroKey)).run [⟨60 * second, .sweep⟩]).seenOrAdd
      (121 * second) zeroKey).1 = false := by
  have hiff := (@replay_memory_iff 0 0 (121 * second) zeroKey [] [⟨60 * second, .sweep⟩] (by decide)
    (by decide) (by decide)).2 (by decide) (by decide)
  exact hiff.mpr (by decide)

/-- No key is held twice, and neither generation is over the bound. -/
structure Kept (c : ReplayCache) : Prop where
  keys : (c.active ++ c.frozen).Nodup
  maxLen : c.maxLen = 2 ^ 20
  active : c.active.length ≤ 2 ^ 20
  frozen : c.frozen.length ≤ 2 ^ 20

theorem Kept.rotate (h : c.Kept) (now : Int) : (c.rotate now).Kept := by
  unfold ReplayCache.rotate
  split
  · exact ⟨(List.nodup_append.mp h.keys).1, h.maxLen, Nat.zero_le _, h.active⟩
  · exact h

theorem Kept.after (h : c.Kept) (x : CacheCall) : (c.after x).Kept := by
  obtain ⟨now, op⟩ := x
  cases op with
  | sweep => exact h.rotate now
  | seenOrAdd k =>
    have hrot := h.rotate now
    show (c.seenOrAdd now k).2.Kept
    unfold ReplayCache.seenOrAdd
    dsimp only
    split_ifs with hfrozen hactive hfull
    any_goals exact hrot
    rw [hrot.maxLen] at hfull
    exact ⟨List.nodup_cons.mpr ⟨by simp [hfrozen, hactive], hrot.keys⟩, hrot.maxLen, Nat.not_le.mp hfull, hrot.frozen⟩

/-- **The cache never outgrows its bound**, whatever is presented and whichever way the clock goes. -/
theorem cache_bounded (start : Int) (calls : List CacheCall) : ((newReplayCache start).run calls).Kept := by
  induction calls using List.reverseRecOn with
  | nil => exact ⟨List.nodup_nil, rfl, Nat.zero_le _, Nat.zero_le _⟩
  | append_singleton calls x ih =>
    rw [run_concat]
    exact ih.after x

end ReplayCache

end Zap.Handshake
