/-
# Zap.Web.Reader — the TypeScript reader: `Message.parse`, `ZapObject` and `procedureOpcode` of `zap.ts`.

A JavaScript number is a double. Sums of positions are rounded (`fl`), which is the identity below `2 ^ 53`, and
the bit operations of the hash loop work on signed 32-bit words. No position a reader compares comes near the
first bound, and a product modulo `2 ^ 32` does not depend on the sign: the reader is that of `zap.go`.
-/
import Mathlib.Data.List.GetD
import Zap.Client.Procedure

namespace Zap.Web

open Zap.Lib Zap.Wire Zap.Client

/-! ## `zap.ts` -/

/-- `getUint16`, `getUint32` and `getBigUint64` of a `DataView`, little-endian. -/
def getUint (data : List UInt8) (w pos : Nat) : Nat := ofLE (window data pos w)

/-- `Message.parse`: the bytes of the message, or the text of the error that is thrown. -/
def parseMessage (input : List UInt8) : Except String (List UInt8) :=
  if input.length < 16 then .error "zap: buffer too small"
  else if (input.getD 0 0, input.getD 1 0, input.getD 2 0, input.getD 3 0) ≠ (0x5a, 0x41, 0x50, 0x00) then
    .error "zap: invalid magic"
  else if getUint input 2 4 ≠ 1 ∧ getUint input 2 4 ≠ 2 then .error "zap: unsupported version"
  else if getUint input 4 12 < 16 ∨ getUint input 4 12 > input.length then .error "zap: bad size"
  else .ok (input.take (getUint input 4 12))

structure ZapObject where
  data : List UInt8
  offset : Nat

namespace ZapObject

variable (fl : Nat → Nat) (o : ZapObject) (fo : Nat)

def uint8 : Nat :=
  let pos := fl (o.offset + fo)
  if pos ≥ o.data.length then 0 else (o.data.getD pos 0).toNat

def bool : Bool := o.uint8 fl fo != 0

/-- `uint16`, `uint32` and `uint64`, by their width in bytes. -/
def uint (w : Nat) : Nat :=
  let pos := fl (o.offset + fo)
  if fl (pos + w) > o.data.length then 0 else getUint o.data w pos

def bytes : Option (List UInt8) :=
  let pos := fl (o.offset + fo)
  if fl (pos + 4) > o.data.length then none
  else
    let relOffset := getUint o.data 4 pos
    if relOffset = 0 then none
    else
      let lenPos := fl (pos + 4)
      if fl (lenPos + 4) > o.data.length then none
      else
        let length := getUint o.data 4 lenPos
        let absPos := fl (pos + relOffset)
        if absPos < 16 then none
        else if fl (absPos + length) > o.data.length then none
        else some (window o.data absPos length)

end ZapObject

/-- The loop of `procedureOpcode`: `^` and `Math.imul` take and give signed words. -/
def hash (bytes : List UInt8) : Int :=
  bytes.foldl (fun h b => int32 (int32 ((h % 2 ^ 32).toNat ^^^ b.toNat : Nat) * 0x01000193)) 0x811c9dc5

/-- `procedureOpcode`, of the UTF-8 encoding of the name; it throws on the empty one. -/
def opcode (name : List UInt8) : Option Nat :=
  if name = [] then none else some (((hash name % 2 ^ 32).toNat % 254 + 1) <<< 8 &&& 0xffff)

/-! ## The two readers -/

theorem parseMessage_ok_iff {input data : List UInt8} :
    parseMessage input = .ok data ↔ ∃ m, parse input = .ok m ∧ m.data = data := by
  have hmagic : 16 ≤ input.length →
      ((input.getD 0 0, input.getD 1 0, input.getD 2 0, input.getD 3 0) = (0x5a, 0x41, 0x50, 0x00) ↔
        window input 0 4 = magic) := by
    intro hlen
    match input, hlen with
    | _ :: _ :: _ :: _ :: _, _ => simp [window, magic]
  have hsize : getUint input 4 12 = declaredSize input := rfl
  have hversion : getUint input 2 4 = ofLE (window input 4 2) := rfl
  simp only [parse_ok_iff, parseMessage, hsize, hversion]
  constructor
  · intro h
    split_ifs at h with h1 h2 h3 h4
    cases h
    rw [not_or, Nat.not_lt, Nat.not_lt] at h4
    refine ⟨⟨input.take (declaredSize input), ?_⟩, ⟨Nat.le_of_not_lt h1, ?_, ?_, h4.1, h4.2, rfl⟩, rfl⟩
    · rw [List.length_take]
      exact le_min h4.1 (h4.1.trans h4.2)
    · exact (hmagic (Nat.le_of_not_lt h1)).mp (not_not.mp h2)
    · rwa [not_and_or, not_not, not_not] at h3
  · rintro ⟨m, ⟨h1, h2, h3, h4, h5, h6⟩, rfl⟩
    change 16 ≤ input.length at h1
    change 16 ≤ declaredSize input at h4
    rw [if_neg (by omega), if_neg (not_not.mpr ((hmagic h1).mpr h2)), if_neg, if_neg (by omega), h6]
    rwa [not_and_or, not_not, not_not]

theorem int32_emod_self (x : Int) : int32 x % 2 ^ 32 = x % 2 ^ 32 := by
  unfold int32
  omega

theorem hash_emod (name : List UInt8) : (hash name % 2 ^ 32).toNat = (fnv1a name).toNat := by
  unfold hash fnv1a
  induction name using List.reverseRecOn with
  | nil => rfl
  | append_singleton name b ih =>
    simp only [List.foldl_append, List.foldl_cons, List.foldl_nil, ih]
    rw [int32_emod_self, Int.mul_emod, int32_emod_self, ← Int.mul_emod]
    simp [UInt32.toNat_mul]
    generalize UInt32.toNat _ ^^^ b.toNat = x
    omega

section Object

variable {fl : Nat → Nat} (hfl : ∀ n < 2 ^ 53, fl n = n) {m : Message} {a fo : Nat} (ha : a < 2 ^ 52)
  (hfo : fo < 2 ^ 31)

include hfl ha hfo

theorem uint8_agrees : (m.objectAt a).uint8 fo = .ok (ZapObject.uint8 fl ⟨m.data, a⟩ fo) := by
  rw [Object.uint8_eval (by omega)]
  simp only [ZapObject.uint8, hfl (a + fo) (by omega)]
  split_ifs with h
  · rw [Message.uintAt_of_gt (by omega)]
  · rw [Message.uintAt, if_pos (by omega), ofLE_window_one (by omega), List.getD_eq_getElem]

theorem uint_agrees {w : Nat} (hw : w ≤ 8) : (m.objectAt a).uint w fo = .ok (ZapObject.uint fl ⟨m.data, a⟩ fo w) := by
  rw [Object.uint_eval hw (by omega)]
  simp only [ZapObject.uint, hfl (a + fo) (by omega), hfl (a + fo + w) (by omega)]
  split_ifs with h
  · rw [Message.uintAt_of_gt (by omega)]
  · rw [Message.uintAt, if_pos (by omega), getUint]

theorem bytes_agrees (hlen : m.data.length < 2 ^ 32) :
    (m.objectAt a).bytes fo = .ok (m.bytesAt (a + fo)) ∧
      (m.bytesAt (a + fo)).map Span.bytes = ZapObject.bytes fl ⟨m.data, a⟩ fo := by
  have hrel := m.uintAt_four_lt (a + fo)
  have hlength := m.uintAt_four_lt (a + fo + 4)
  refine ⟨Object.bytes_eval (by omega) (by omega), ?_⟩
  simp only [ZapObject.bytes, Message.bytesAt, hfl (a + fo) (by omega), hfl (a + fo + 4) (by omega),
    hfl (a + fo + 4 + 4) (by omega)]
  by_cases h4 : a + fo + 4 > m.data.length
  · rw [if_pos h4, if_neg (by omega)]
    rfl
  by_cases h8 : a + fo + 4 + 4 > m.data.length
  · rw [if_neg h4, if_pos h8, if_neg (by omega), ite_self]
    rfl
  have hrelOffset : getUint m.data 4 (a + fo) = m.uintAt 4 (a + fo) := by
    rw [Message.uintAt, if_pos (by omega), getUint]
  have hlen : getUint m.data 4 (a + fo + 4) = m.uintAt 4 (a + fo + 4) := by
    rw [Message.uintAt, if_pos (by omega), getUint]
  rw [if_neg h4, if_neg h8, hrelOffset, hlen, hfl (a + fo + m.uintAt 4 (a + fo)) (by omega),
    hfl (a + fo + m.uintAt 4 (a + fo) + m.uintAt 4 (a + fo + 4)) (by omega)]
  have h16 : headerSize = 16 := rfl
  split_ifs <;> first | rfl | omega

end Object

/-- **The TypeScript reader is the Go reader**: it accepts the same bytes, with the same header, and reads the same
values at every field offset of every object; and the two hash a procedure alike. -/
theorem reader_agrees {fl : Nat → Nat} (hfl : ∀ n < 2 ^ 53, fl n = n) :
    (∀ input data, parseMessage input = .ok data ↔ ∃ m, parse input = .ok m ∧ m.data = data) ∧
    (∀ input m, parse input = .ok m →
      (getUint m.data 2 4, getUint m.data 2 6, m.data.length, getUint m.data 4 8) =
        (m.version, m.flags, declaredSize input, m.rootOffset) ∧
      ∀ a fo : Nat, a < 2 ^ 52 → fo < 2 ^ 31 →
        (m.objectAt a).bool fo = .ok (ZapObject.bool fl ⟨m.data, a⟩ fo) ∧
        (m.objectAt a).uint8 fo = .ok (ZapObject.uint8 fl ⟨m.data, a⟩ fo) ∧
        (∀ w ≤ 8, (m.objectAt a).uint w fo = .ok (ZapObject.uint fl ⟨m.data, a⟩ fo w)) ∧
        ((m.objectAt a).bytes fo).map (Option.map Span.bytes) = .ok (ZapObject.bytes fl ⟨m.data, a⟩ fo)) ∧
    ∀ name, name ≠ [] → opcode name = procedureOpcode name := by
  refine ⟨fun input data => parseMessage_ok_iff, fun input m hm => ⟨?_, fun a fo ha hfo => ?_⟩, fun name hne => ?_⟩
  · rw [parse_length hm]
    rfl
  · have h8 := uint8_agrees hfl ha hfo (m := m)
    obtain ⟨hbytes, hspan⟩ := bytes_agrees hfl ha hfo (parse_length_lt hm)
    refine ⟨?_, h8, fun w hw => uint_agrees hfl ha hfo hw, ?_⟩
    · rw [Object.bool, h8]
      rfl
    · rw [hbytes, ← hspan]
      rfl
  · rw [opcode, procedureOpcode, if_neg hne, if_neg hne, hash_emod, Nat.shiftLeft_eq,
      Nat.and_two_pow_sub_one_eq_mod _ 16, Nat.mod_eq_of_lt (by omega)]

/-- An object with a byte string behind it. -/
def note : List UInt8 := header version2 0 16 27 ++ (le 4 8 ++ le 4 3 ++ [1, 2, 3])

theorem reader_agrees_note : ∃ m, parse note = .ok m ∧
    ((m.objectAt 16).bytes 0).map (Option.map Span.bytes) = .ok (some [1, 2, 3]) ∧
    ZapObject.bytes id ⟨note, 16⟩ 0 = some [1, 2, 3] := by
  have hagrees := @reader_agrees id fun _ _ => rfl
  obtain ⟨m, hm, hdata⟩ := (hagrees.1 note note).mp (by decide)
  have hread : ZapObject.bytes id ⟨note, 16⟩ 0 = some [1, 2, 3] := by decide
  obtain ⟨-, -, -, hbytes⟩ := (hagrees.2.1 note m hm).2 16 0 (by decide) (by decide)
  rw [hdata, hread] at hbytes
  exact ⟨m, hm, hbytes, hread⟩

end Zap.Web
