/-
# Zap.Dex.Calldata — the bytes a user signs: hookData and the calls of `calldata.go` and `v4liquidity.go`.

A swap call is a selector, nine words and the hookData behind them. Words are 32-byte arrays, so that the
layout carries its own widths: word `i` of a call sits at byte `4 + 32 * i` whatever the arguments are.
-/
import Zap.Lib.Buffer

namespace Zap.Dex

open Zap.Lib

/-! ## Words -/

abbrev Account := Arr 20

abbrev ID := Arr 32

abbrev Word := Arr 32

def wordAddr (a : Account) : Word := ⟨List.replicate 12 0 ++ a.bytes, by simp⟩

def wordU24 (v : UInt32) : Word := ⟨List.replicate 29 0 ++ be 3 v.toNat, by simp⟩

/-- `wordI24`: eight bytes of two's complement, and the sign in front of them. -/
def wordI24 (v : Int32) : Word :=
  ⟨List.replicate 24 (if v.toInt < 0 then 0xff else 0) ++ be 8 (v.toInt % 2 ^ 64).toNat, by simp⟩

def wordBool (b : Bool) : Word := ⟨List.replicate 31 0 ++ [if b then 1 else 0], by simp⟩

def wordU256FromU64 (v : UInt64) : Word := ⟨List.replicate 24 0 ++ be64 v, by simp⟩

def wordU160Zero : Word := Arr.zero 32

/-- The loop of `new256Neg`, from the last byte to the first: invert, add the carry, pass it on. -/
def negate : List UInt8 → List UInt8 × Nat
  | [] => ([], 1)
  | d :: rest =>
    let (out, carry) := negate rest
    let s := (255 - d.toNat) + carry
    (UInt8.ofNat s :: out, s / 256)

theorem negate_length (l : List UInt8) : (negate l).1.length = l.length := by
  induction l with
  | nil => rfl
  | cons d rest ih => simp [negate, ih]

def wordI256FromNegU64 (v : UInt64) : Word := ⟨(negate (wordU256FromU64 v).bytes).1, by rw [negate_length, Arr.len]⟩

theorem ofBE_cons (d : UInt8) (l : List UInt8) : ofBE (d :: l) = d.toNat * 256 ^ l.length + ofBE l := by
  induction l using List.reverseRecOn with
  | nil => simp [ofBE]
  | append_singleton l x ih =>
    rw [← List.cons_append, ofBE_concat, ih, ofBE_concat, List.length_append, List.length_singleton, Nat.pow_succ]
    ring

/-- The loop computes the two's complement: number, negation and last carry add up to the power. -/
theorem negate_sum (l : List UInt8) :
    ofBE l + ofBE (negate l).1 + (negate l).2 * 256 ^ l.length = 256 ^ l.length := by
  induction l with
  | nil => rfl
  | cons d rest ih =>
    have hd : d.toNat ≤ 255 := Nat.le_of_lt_succ d.toNat_lt
    have hlen := negate_length rest
    generalize hs : (255 - d.toNat) + (negate rest).2 = s
    have hout : negate (d :: rest) = (UInt8.ofNat s :: (negate rest).1, s / 256) := by
      rw [← hs]
      rfl
    rw [hout, ofBE_cons, ofBE_cons, hlen, UInt8.toNat_ofNat', List.length_cons,
      show (2 : Nat) ^ 8 = 256 from rfl, Nat.pow_succ 256]
    have hsplit : d.toNat + (s % 256 + s / 256 * 256) = 255 + (negate rest).2 := by omega
    calc d.toNat * 256 ^ rest.length + ofBE rest + (s % 256 * 256 ^ rest.length + ofBE (negate rest).1) +
          s / 256 * (256 ^ rest.length * 256)
        = (d.toNat + (s % 256 + s / 256 * 256)) * 256 ^ rest.length + ofBE rest +
            ofBE (negate rest).1 := by ring
      _ = 255 * 256 ^ rest.length +
            (ofBE rest + ofBE (negate rest).1 + (negate rest).2 * 256 ^ rest.length) := by
          rw [hsplit]
          ring
      _ = 256 ^ rest.length * 256 := by
          rw [ih]
          ring

theorem negate_injective {l m : List UInt8} (hlen : l.length = m.length)
    (h : (negate l).1 = (negate m).1) : l = m := by
  apply ofBE_inj hlen
  have hl := negate_sum l
  have hm := negate_sum m
  have hl' := ofBE_lt l
  have hm' := ofBE_lt m
  rw [h, hlen] at hl
  rw [hlen] at hl'
  have hmod : ofBE l % 256 ^ m.length = ofBE m % 256 ^ m.length := by
    have key : ofBE l + (negate l).2 * 256 ^ m.length = ofBE m + (negate m).2 * 256 ^ m.length := by omega
    have := congrArg (· % 256 ^ m.length) key
    simpa using this
  rwa [Nat.mod_eq_of_lt hl', Nat.mod_eq_of_lt hm'] at hmod

theorem word_inj {n : Nat} {a b c d : List UInt8} {h : (a ++ b).length = n} {h' : (c ++ d).length = n}
    (hlen : a.length = c.length) : (⟨a ++ b, h⟩ : Arr n) = ⟨c ++ d, h'⟩ ↔ a = c ∧ b = d := by
  constructor
  · intro heq
    exact append_split hlen (congrArg Arr.bytes heq)
  · rintro ⟨rfl, rfl⟩
    rfl

theorem wordBool_inj {b c : Bool} : wordBool b = wordBool c ↔ b = c := by
  rw [wordBool, wordBool, word_inj rfl, eq_self_iff_true, true_and]
  cases b <;> cases c <;> decide

theorem wordI256FromNegU64_inj {v w : UInt64} : wordI256FromNegU64 v = wordI256FromNegU64 w ↔ v = w := by
  constructor
  · intro h
    have hbytes := negate_injective (by rw [Arr.len, Arr.len]) (congrArg Arr.bytes h)
    rw [wordU256FromU64, wordU256FromU64] at hbytes
    exact be64_injective (append_split rfl hbytes).2
  · rintro rfl
    rfl

/-! ## HookData -/

def intentPhaseTag : List UInt8 := [0x44, 0x49, 0x30, 0x31]

def settlementPhaseTag : List UInt8 := [0x44, 0x53, 0x30, 0x31]

def encodeIntentHookData (deadline nonce : UInt64) : List UInt8 :=
  if deadline = 0 ∧ nonce = 0 then intentPhaseTag
  else if nonce = 0 then intentPhaseTag ++ (wordU256FromU64 deadline).bytes
  else intentPhaseTag ++ (wordU256FromU64 deadline).bytes ++ (wordU256FromU64 nonce).bytes

def encodeSettlementHookData (outputID : ID) (amount : UInt64) (intentID : ID) : List UInt8 :=
  settlementPhaseTag ++ outputID.bytes ++ (wordU256FromU64 amount).bytes ++ intentID.bytes

theorem wordU256FromU64_inj {v w : UInt64} : wordU256FromU64 v = wordU256FromU64 w ↔ v = w := by
  rw [wordU256FromU64, wordU256FromU64, word_inj rfl, eq_self_iff_true, true_and]
  exact be64_injective.eq_iff

theorem encodeIntentHookData_length_le (deadline nonce : UInt64) :
    (encodeIntentHookData deadline nonce).length ≤ 68 := by
  unfold encodeIntentHookData
  split_ifs <;> simp [intentPhaseTag]

/-- Deadline and nonce can be read off the hookData, its length included. -/
theorem encodeIntentHookData_inj {d n d' n' : UInt64} :
    encodeIntentHookData d n = encodeIntentHookData d' n' ↔ d = d' ∧ n = n' := by
  constructor
  · intro h
    have hlen := congrArg List.length h
    unfold encodeIntentHookData at h hlen
    split_ifs at h hlen with h1 h2 h3 h4 h5 h6 h7 h8
      <;> simp [intentPhaseTag] at hlen
    · exact ⟨h1.1.trans h2.1.symm, h1.2.trans h2.2.symm⟩
    · have := (append_split rfl h).2
      exact ⟨wordU256FromU64_inj.mp (Arr.ext this), h4.trans h6.symm⟩
    · have h := (append_split (by simp) h)
      exact ⟨wordU256FromU64_inj.mp (Arr.ext (append_split rfl h.1).2), wordU256FromU64_inj.mp (Arr.ext h.2)⟩
  · rintro ⟨rfl, rfl⟩
    rfl

/-! ## The swap call -/

structure PoolKeyArgs where
  currency0 : Account
  currency1 : Account
  fee : UInt32
  tickSpacing : Int32
  hooks : Account

def selectorSwap : List UInt8 := be 4 0xF3CD914C

def PoolKeyArgs.words (pk : PoolKeyArgs) : List Word :=
  [wordAddr pk.currency0, wordAddr pk.currency1, wordU24 pk.fee, wordI24 pk.tickSpacing, wordAddr pk.hooks]

def encodeDynamicBytes (b : List UInt8) : List UInt8 :=
  (wordU256FromU64 (UInt64.ofNat b.length)).bytes ++ b ++
    List.replicate ((b.length + 31) / 32 * 32 - b.length) 0

def headWords (pk : PoolKeyArgs) (zeroForOne : Bool) (amountIn : UInt64) : List Word :=
  pk.words ++ [wordBool zeroForOne, wordI256FromNegU64 amountIn, wordU160Zero, wordU256FromU64 (9 * 32)]

def encodeSwapCalldata (pk : PoolKeyArgs) (zeroForOne : Bool) (amountIn : UInt64)
    (hookData : List UInt8) : List UInt8 :=
  selectorSwap ++ ((headWords pk zeroForOne amountIn).map Arr.bytes).flatten ++ encodeDynamicBytes hookData

def selectorModifyLiquidity : List UInt8 := be 4 0x5A6BCFDA

/-- `wordI256FromInt64`: the sign is extended. -/
def wordI256FromInt64 (v : Int64) : Word :=
  ⟨List.replicate 24 (if v < 0 then 0xff else 0) ++ be 8 v.toUInt64.toNat, by simp⟩

structure ModifyLiquidityArgs where
  tickLower : Int32
  tickUpper : Int32
  liquidityDelta : Int64
  salt : ID

def encodeModifyLiquidityCalldata (pk : PoolKeyArgs) (args : ModifyLiquidityArgs) (hookData : List UInt8) :
    List UInt8 :=
  selectorModifyLiquidity ++
    ((pk.words ++ [wordI24 args.tickLower, wordI24 args.tickUpper, wordI256FromInt64 args.liquidityDelta,
      args.salt, wordU256FromU64 (10 * 32)]).map Arr.bytes).flatten ++ encodeDynamicBytes hookData

/-! ## What the call determines -/

def calldataWord (calldata : List UInt8) (i : Nat) : List UInt8 := window calldata (4 + i * 32) 32

def decodeBool (word : List UInt8) : Bool := ofBE word != 0

theorem flatten_window {ws : List Word} {rest : List UInt8} {i : Nat} {w : Word} (h : ws[i]? = some w) :
    window ((ws.map Arr.bytes).flatten ++ rest) (i * 32) 32 = w.bytes := by
  induction ws generalizing i with
  | nil => simp at h
  | cons x xs ih =>
    rw [List.map_cons, List.flatten_cons, List.append_assoc]
    cases i with
    | zero =>
      obtain rfl : x = w := by simpa using h
      rw [Nat.zero_mul, window, List.drop_zero, List.take_left' x.len]
    | succ i =>
      rw [← ih (by simpa using h), window, window, Nat.add_mul, Nat.one_mul, Nat.add_comm,
        ← List.drop_drop, List.drop_left' x.len]

theorem calldataWord_encode {pk : PoolKeyArgs} {zeroForOne : Bool} {amountIn : UInt64}
    {hookData : List UInt8} {i : Nat} {w : Word} (h : (headWords pk zeroForOne amountIn)[i]? = some w) :
    calldataWord (encodeSwapCalldata pk zeroForOne amountIn hookData) i = w.bytes := by
  have hsel : selectorSwap.length = 4 := be_length 4 _
  rw [calldataWord, encodeSwapCalldata, List.append_assoc, window, ← List.drop_drop, List.drop_left' hsel]
  exact flatten_window h

/-- **The direction of a call can be read off its sixth word.** -/
theorem decodeBool_zeroForOne (pk : PoolKeyArgs) (zeroForOne : Bool) (amountIn : UInt64)
    (hookData : List UInt8) :
    decodeBool (calldataWord (encodeSwapCalldata pk zeroForOne amountIn hookData) 5) = zeroForOne := by
  rw [calldataWord_encode (w := wordBool zeroForOne) rfl]
  cases zeroForOne <;> decide

theorem words_inj {ws vs : List Word} (hlen : ws.length = vs.length)
    (h : (ws.map Arr.bytes).flatten = (vs.map Arr.bytes).flatten) : ws = vs := by
  apply List.ext_getElem?
  intro i
  by_cases hi : i < ws.length
  · have hi' : i < vs.length := hlen ▸ hi
    have hw := @flatten_window ws [] i ws[i] (List.getElem?_eq_getElem hi)
    have hv := @flatten_window vs [] i vs[i] (List.getElem?_eq_getElem hi')
    rw [h] at hw
    rw [List.getElem?_eq_getElem hi, List.getElem?_eq_getElem hi']
    exact congrArg some (Arr.ext (hw.symm.trans hv))
  · rw [List.getElem?_eq_none (by omega), List.getElem?_eq_none (by omega)]

theorem encodeDynamicBytes_inj {a b : List UInt8} (ha : a.length < 2 ^ 64) (hb : b.length < 2 ^ 64)
    (h : encodeDynamicBytes a = encodeDynamicBytes b) : a = b := by
  unfold encodeDynamicBytes at h
  rw [List.append_assoc, List.append_assoc] at h
  obtain ⟨hword, hrest⟩ := append_split (by simp) h
  have hlen : a.length = b.length := by
    have := congrArg UInt64.toNat (wordU256FromU64_inj.mp (Arr.ext hword))
    rwa [UInt64.toNat_ofNat', UInt64.toNat_ofNat', Nat.mod_eq_of_lt ha, Nat.mod_eq_of_lt hb] at this
  exact (append_split hlen hrest).1

/-- **What a swap call determines.**  Two calls are equal exactly when they have the same pool key words,
direction, amount and hookData. -/
theorem encodeSwapCalldata_eq_iff {pk pk' : PoolKeyArgs} {z z' : Bool} {a a' : UInt64}
    {h h' : List UInt8} (hh : h.length < 2 ^ 64) (hh' : h'.length < 2 ^ 64) :
    encodeSwapCalldata pk z a h = encodeSwapCalldata pk' z' a' h' ↔
      pk.words = pk'.words ∧ z = z' ∧ a = a' ∧ h = h' := by
  constructor
  · intro heq
    unfold encodeSwapCalldata at heq
    rw [List.append_assoc, List.append_assoc] at heq
    have heq := (append_split rfl heq).2
    have hlen : ∀ (pk : PoolKeyArgs) z a, (((headWords pk z a).map Arr.bytes).flatten).length = 288 := by
      intro pk z a
      simp [headWords, PoolKeyArgs.words]
    obtain ⟨hhead, htail⟩ := append_split (by rw [hlen, hlen]) heq
    have hwords := @words_inj (headWords pk z a) (headWords pk' z' a') rfl hhead
    obtain ⟨hpk, hrest⟩ := List.append_inj hwords rfl
    simp only [List.cons.injEq, wordBool_inj, wordI256FromNegU64_inj] at hrest
    exact ⟨hpk, hrest.1, hrest.2.1, encodeDynamicBytes_inj hh hh' htail⟩
  · rintro ⟨hpk, rfl, rfl, rfl⟩
    rw [encodeSwapCalldata, encodeSwapCalldata, headWords, headWords, hpk]

end Zap.Dex
