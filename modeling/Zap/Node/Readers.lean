/-
# Zap.Node.Readers — one framing, three writers and three readers.

Every transport puts a frame behind its length. `readMessageRaw` reads it into a fresh buffer,
`readMessageRawPooled` into a slab that still holds the bytes of an earlier frame, and the `readFrame` of the QUIC
transport into a fresh buffer again, with a shortcut for the empty frame. A reader sees the stream in pieces that
it does not choose (`Lib.Reader`); `readRaw_iff` and `readFrame_iff` say that each of them is the
`readMessageRaw` of `Codec`, which reads the whole stream.
-/
import Zap.Lib.Reader
import Zap.Node.Codec

namespace Zap.Node

open Zap.Lib Zap.Lib.Reader

/-! ## Readers and writers -/

/-- What a reader returns: a frame or an error, and what is left of the pieces. -/
abbrev Got := Except String (List UInt8) × List (List UInt8)

/-- The three readers begin alike: four bytes of length, and the limit. -/
def readPrefixed (stop large : String) (body : Nat → List (List UInt8) → Got) (r : List (List UInt8)) : Got :=
  match readFull stop 4 r with
  | (.error e, r) => (.error e, r)
  | (.ok lenBuf, r) =>
    let length := ofLE lenBuf.bytes
    if maxFrame < length then (.error large, r) else body length r

def readBody (stop : String) (n : Nat) (r : List (List UInt8)) : Got :=
  ((readFull stop n r).1.map Arr.bytes, (readFull stop n r).2)

/-- `readMessageRaw`, on a stream in pieces that ends with `stop`. -/
def readRaw (stop : String) : List (List UInt8) → Got := readPrefixed stop "message too large" (readBody stop)

def readFrame (stop : String) : List (List UInt8) → Got :=
  readPrefixed stop "zap/quic: frame too large" fun n r => if n = 0 then (.ok [], r) else readBody stop n r

/-- `writeFrame` of the QUIC transport, which checks the limit. -/
def writeFrame (frame : List UInt8) : Option (List UInt8) :=
  if maxFrame < frame.length then none
  else some (le 4 frame.length ++ if frame.length = 0 then [] else frame)

/-- The writers: a frame and the bytes that go out for it. -/
inductive Emits : List UInt8 → List UInt8 → Prop
  | message (data : List UInt8) : Emits data (writeMessage data)
  | correlated (reqID flag : Nat) (body : List UInt8) :
      Emits (wrapCorrelated reqID flag body) (writeCorrelated reqID flag body)
  | quic {frame bytes : List UInt8} (h : writeFrame frame = some bytes) : Emits frame bytes

section Readers

variable {stop : String} {r : List (List UInt8)}

/-- The shortcut for the empty frame is none: reading no bytes succeeds. -/
theorem readFrame_eq : readFrame stop = readPrefixed stop "zap/quic: frame too large" (readBody stop) := by
  refine congrArg (readPrefixed stop "zap/quic: frame too large") (funext fun n => funext fun r => ?_)
  split_ifs with h0
  · rw [h0]
    simp [readBody, readFull, gather, Except.map]
  · rfl

theorem readFrame_agrees (r : List (List UInt8)) :
    (readFrame stop r).1.toOption = (readRaw stop r).1.toOption ∧ (readFrame stop r).2 = (readRaw stop r).2 := by
  rw [readFrame_eq, readRaw]
  simp only [readPrefixed]
  split
  · exact ⟨rfl, rfl⟩
  · split_ifs
    · exact ⟨rfl, rfl⟩
    · exact ⟨rfl, rfl⟩

/-- Where the pieces end does not matter: `readRaw` is `readMessageRaw` of the bytes. -/
theorem readRaw_iff (stop : String) {data rest : List UInt8} :
    readMessageRaw r.flatten = .ok (data, rest) ↔ ∃ r', readRaw stop r = (.ok data, r') ∧ r'.flatten = rest := by
  constructor
  · intro h
    simp only [readMessageRaw] at h
    split_ifs at h with h1 h2 h3
    cases h
    have hlen : (r.flatten.take 4).length = 4 := by rw [List.length_take]; omega
    obtain ⟨r1, hhead, hr1⟩ := readFull_of_append stop (⟨_, hlen⟩ : Arr 4) (List.take_append_drop 4 _).symm
    have hbody : ((r.flatten.drop 4).take (ofLE (r.flatten.take 4))).length = ofLE (r.flatten.take 4) := by
      rw [List.length_take]
      omega
    obtain ⟨r2, hread, hr2⟩ := readFull_of_append stop (⟨_, hbody⟩ : Arr (ofLE (r.flatten.take 4)))
      (hr1.trans (List.take_append_drop _ _).symm)
    refine ⟨r2, ?_, hr2⟩
    simp only [readRaw, readPrefixed, hhead, if_neg h2, readBody, hread]
    rfl
  · rintro ⟨r', h, rfl⟩
    simp only [readRaw, readPrefixed] at h
    split at h
    · cases h
    rename_i lenBuf r1 hhead
    by_cases hmax : maxFrame < ofLE lenBuf.bytes
    · rw [if_pos hmax] at h
      cases h
    rw [if_neg hmax, readBody, Prod.mk.injEq] at h
    obtain ⟨hdata, rfl⟩ := h
    rcases hbody : readFull stop (ofLE lenBuf.bytes) r1 with ⟨e | body, r2⟩
    · rw [hbody] at hdata
      cases hdata
    rw [hbody] at hdata
    cases hdata
    rw [readFull_ok hhead, readFull_ok hbody]
    simp only [readMessageRaw, List.take_left' lenBuf.len, List.drop_left' lenBuf.len, List.length_append,
      lenBuf.len, body.len, List.take_left' body.len, List.drop_left' body.len]
    rw [if_neg (by omega), if_neg hmax, if_neg (by omega)]

theorem readFrame_iff (stop : String) {data rest : List UInt8} :
    readMessageRaw r.flatten = .ok (data, rest) ↔ ∃ r', readFrame stop r = (.ok data, r') ∧ r'.flatten = rest := by
  rw [readRaw_iff stop]
  obtain ⟨hfst, hsnd⟩ := @readFrame_agrees stop r
  rcases hf : readFrame stop r with ⟨_ | data', r1⟩ <;> rcases hg : readRaw stop r with ⟨_ | data'', r2⟩ <;>
    rw [hf, hg] at hfst hsnd <;> cases hfst <;> cases hsnd
  · simp
  · rfl

theorem Emits.eq {frame bytes : List UInt8} (h : Emits frame bytes) : bytes = writeMessage frame := by
  cases h with
  | message => rfl
  | correlated reqID flag body => exact writeCorrelated_eq reqID flag body
  | quic h =>
    unfold writeFrame at h
    split_ifs at h with hmax h0
    · rw [List.length_eq_zero_iff] at h0
      exact (Option.some.inj h).symm.trans (by rw [h0, writeMessage])
    · exact (Option.some.inj h).symm

end Readers

end Zap.Node
