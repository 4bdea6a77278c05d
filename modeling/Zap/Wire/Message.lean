/-
# Zap.Wire.Message — the ZAP message reader: `Parse`, `Object` and `List`.

A ZAP message is read in place: an `Object` or a `List` is an absolute offset into the message, and every
accessor adds a field offset to it, checks the sum against the length of the message and reads there. The
offsets and lengths it reads are the sender's, so this model keeps what could go wrong with them: Go's
`int` wraps at 64 bits (`int64`), a pointer is a signed 32-bit displacement (`int32`), an index or a slice
expression out of range and a read through a nil message are faults (`Fault`), and a byte slice remembers
where in the message it starts (`Span`).

`Message.uintAt`, `Message.follow`, `Message.bytesAt` and `Message.listAt` are what the accessors compute
when no sum wraps, and the `_eval` lemmas are the only place where the accessors are unfolded.
-/
import Zap.Lib.Bytes

namespace Zap.Wire

open Zap.Lib

/-! ## Go integers, faults and slices -/

inductive Fault
  | outOfRange
  | nilPointer
  deriving DecidableEq

/-- The value of a Go expression, or the panic it ends in. -/
abbrev Go := Except Fault

variable {α β : Type} {x : Int} {a n i w pos lo : Nat}

@[simp]
theorem go_bind_ok (a : α) (k : α → Go β) : ((.ok a : Go α) >>= k) = k a := rfl

@[simp]
theorem go_bind_error (e : Fault) (k : α → Go β) : ((.error e : Go α) >>= k) = .error e := rfl

theorem go_bind_eq_ok {x : Go α} {k : α → Go β} {b : β} : x >>= k = .ok b ↔ ∃ a, x = .ok a ∧ k a = .ok b := by
  cases x with
  | error e => simp
  | ok a => simp

@[simp]
theorem go_pure (a : α) : (pure a : Go α) = .ok a := rfl

/-- `int`: 64-bit two's complement. -/
def int64 (x : Int) : Int := (2 ^ 63 + x) % 2 ^ 64 - 2 ^ 63

/-- `int32`: 32-bit two's complement. -/
def int32 (x : Int) : Int := (2 ^ 31 + x) % 2 ^ 32 - 2 ^ 31

theorem int64_id (hlo : -2 ^ 63 ≤ x) (hhi : x < 2 ^ 63) : int64 x = x := by
  unfold int64
  omega

/-- A sum below `2 ^ 63` does not wrap, whatever its second part looks like. -/
theorem int64_add {b : Nat} (h : a + b < 2 ^ 63) : int64 ((a : Int) + b) = ((a + b : Nat) : Int) := by
  rw [int64_id] <;> omega

theorem int64_add_ofNat (h : a + OfNat.ofNat n < 2 ^ 63) :
    int64 ((a : Int) + no_index (OfNat.ofNat n)) = ((a + OfNat.ofNat n : Nat) : Int) := int64_add h

theorem int64_add_mul (h : a + i * w < 2 ^ 63) : int64 ((a : Int) + i * w) = ((a + i * w : Nat) : Int) := by
  rw [← Nat.cast_mul, int64_add h]

theorem int32_id (hlo : -2 ^ 31 ≤ x) (hhi : x < 2 ^ 31) : int32 x = x := by
  unfold int32
  omega

theorem int32_bounds (x : Int) : -2 ^ 31 ≤ int32 x ∧ int32 x < 2 ^ 31 := by
  unfold int32
  omega

theorem int32_emod (x : Int) : int32 (x % 2 ^ 32) = int32 x := by
  unfold int32
  omega

/-- A non-nil byte slice of a message: the bytes, and where in the message they start. -/
structure Span where
  start : Nat
  bytes : List UInt8
  deriving DecidableEq

/-- The span is a window of `d`. -/
def Span.Inside (s : Span) (d : List UInt8) : Prop :=
  s.start + s.bytes.length ≤ d.length ∧ s.bytes = window d s.start s.bytes.length

def index (d : List UInt8) (i : Int) : Go UInt8 :=
  if 0 ≤ i then
    match d[i.toNat]? with
    | some x => .ok x
    | none => .error .outOfRange
  else .error .outOfRange

def sliceFrom (d : List UInt8) (lo : Int) : Go (List UInt8) :=
  if 0 ≤ lo ∧ lo ≤ d.length then .ok (d.drop lo.toNat) else .error .outOfRange

def slice (d : List UInt8) (lo hi : Int) : Go Span :=
  if 0 ≤ lo ∧ lo ≤ hi ∧ hi ≤ d.length then .ok ⟨lo.toNat, window d lo.toNat (hi - lo).toNat⟩
  else .error .outOfRange

/-- `binary.LittleEndian.Uint16`, `Uint32` and `Uint64`, by their width in bytes. -/
def littleEndian (w : Nat) (b : List UInt8) : Go Nat :=
  if w ≤ b.length then .ok (ofLE (b.take w)) else .error .outOfRange

/-- `binary.LittleEndian.UintN(d[pos:])` -/
def readLE (w : Nat) (d : List UInt8) (pos : Int) : Go Nat := do
  littleEndian w (← sliceFrom d pos)

variable {d : List UInt8}

theorem readLE_eval (h : pos + w ≤ d.length) : readLE w d pos = .ok (ofLE (window d pos w)) := by
  have hpos : (0 : Int) ≤ (pos : Int) ∧ (pos : Int) ≤ d.length := by omega
  have hw : w ≤ (d.drop pos).length := by
    simp only [List.length_drop]
    omega
  simp only [readLE, sliceFrom, if_pos hpos, go_bind_ok, Int.toNat_natCast, littleEndian, if_pos hw, window]

theorem readLE_outside {pos : Int} (h : pos < 0 ∨ d.length < pos) : readLE w d pos = .error .outOfRange := by
  have hpos : ¬((0 : Int) ≤ pos ∧ pos ≤ d.length) := by omega
  simp only [readLE, sliceFrom, if_neg hpos, go_bind_error]

theorem slice_eval {hi : Nat} (h : lo ≤ hi) (hd : hi ≤ d.length) : slice d lo hi = .ok ⟨lo, window d lo (hi - lo)⟩ := by
  have hc : (0 : Int) ≤ (lo : Int) ∧ (lo : Int) ≤ hi ∧ (hi : Int) ≤ d.length := by omega
  have hn : ((hi : Int) - lo).toNat = hi - lo := by omega
  simp only [slice, if_pos hc, Int.toNat_natCast, hn]

theorem slice_checked {x : β} {k : Span → Go β} (h : lo + n < 2 ^ 63) :
    (if int64 ((lo : Int) + n) > d.length then .ok x else slice d lo (int64 ((lo : Int) + n)) >>= k) =
      if lo + n ≤ d.length then k ⟨lo, window d lo n⟩ else .ok x := by
  rw [int64_add h]
  split_ifs with hc hd hd
  · omega
  · rfl
  · rw [slice_eval (by omega) hd, Nat.add_sub_cancel_left, go_bind_ok]
  · omega

theorem span_inside (h : lo + n ≤ d.length) : (Span.mk lo (window d lo n)).Inside d := by
  simp only [Span.Inside, window_length h, and_true]
  exact h

theorem index_eval (h : i < d.length) : index d i = .ok d[i] := by
  simp [index, List.getElem?_eq_getElem h]

theorem ofLE_lt (l : List UInt8) : ofLE l < 256 ^ l.length := by
  simpa [ofLE] using ofBE_lt l.reverse

/-! ## The message -/

abbrev headerSize : Nat := 16

/-- `Magic`: `"ZAP\x00"` -/
def magic : List UInt8 := [0x5A, 0x41, 0x50, 0x00]

abbrev version1 : Nat := 1

abbrev version2 : Nat := 2

/-- The sentinel errors of `zap.go`. -/
inductive WireError
  | invalidMagic
  | invalidVersion
  | bufferTooSmall
  | outOfBounds
  deriving DecidableEq

/-- A message holds at least its header, so no read of a header field can fault. The handle that returns
a pooled buffer is not modelled. -/
@[ext]
structure Message where
  data : List UInt8
  header : headerSize ≤ data.length
  deriving DecidableEq

/-- The declared size, bytes 12 to 16 of the header. -/
def declaredSize (data : List UInt8) : Nat := ofLE (window data 12 4)

theorem declaredSize_header {data : List UInt8}
    (h : ¬(declaredSize data < headerSize ∨ declaredSize data > data.length)) :
    headerSize ≤ (data.take (declaredSize data)).length := by
  simp only [List.length_take]
  omega

/-- `Parse`. The message is the declared size's worth of the buffer. -/
def parse (data : List UInt8) : Except WireError Message :=
  if data.length < headerSize then .error .bufferTooSmall
  else if window data 0 4 ≠ magic then .error .invalidMagic
  else if ofLE (window data 4 2) ≠ version1 ∧ ofLE (window data 4 2) ≠ version2 then
    .error .invalidVersion
  else if h : declaredSize data < headerSize ∨ declaredSize data > data.length then
    .error .bufferTooSmall
  else .ok ⟨data.take (declaredSize data), declaredSize_header h⟩

variable {data : List UInt8} {m : Message}

theorem parse_ok_iff :
    parse data = .ok m ↔
      headerSize ≤ data.length ∧ window data 0 4 = magic ∧
      (ofLE (window data 4 2) = version1 ∨ ofLE (window data 4 2) = version2) ∧
      headerSize ≤ declaredSize data ∧ declaredSize data ≤ data.length ∧
      m.data = data.take (declaredSize data) := by
  unfold parse
  split_ifs with hlen hmagic hver hsize
  · simp
    omega
  · simp [hmagic]
  · simp only [false_iff, not_and]
    intro _ _ h
    exact absurd h (by tauto)
  · simp only [false_iff, not_and]
    intro _ _ _ h1 h2
    omega
  · simp only [Except.ok.injEq, Message.ext_iff]
    refine ⟨fun h => ⟨by omega, not_not.mp hmagic, by tauto, by omega, by omega, h.symm⟩, fun h => h.2.2.2.2.2.symm⟩

theorem declaredSize_lt (data : List UInt8) : declaredSize data < 2 ^ 32 := by
  have hlen : (window data 12 4).length ≤ 4 := by simp [window]
  calc declaredSize data < 256 ^ (window data 12 4).length := ofLE_lt _
    _ ≤ 256 ^ 4 := Nat.pow_le_pow_right (by norm_num) hlen
    _ = 2 ^ 32 := by norm_num

theorem parse_length (h : parse data = .ok m) : m.data.length = declaredSize data := by
  obtain ⟨-, -, -, -, hle, hdata⟩ := parse_ok_iff.mp h
  rw [hdata, List.length_take]
  omega

theorem parse_length_lt (h : parse data = .ok m) : m.data.length < 2 ^ 32 := by
  rw [parse_length h]
  exact declaredSize_lt data

theorem parse_window {off : Nat} (h : parse data = .ok m) (hin : off + n ≤ headerSize) :
    window m.data off n = window data off n := by
  obtain ⟨-, -, -, hge, -, hdata⟩ := parse_ok_iff.mp h
  simp only [hdata, window, List.drop_take, List.take_take]
  congr 1
  omega

namespace Message

def version (m : Message) : Nat := ofLE (window m.data 4 2)

def flags (m : Message) : Nat := ofLE (window m.data 6 2)

def rootOffset (m : Message) : Nat := ofLE (window m.data 8 4)

theorem rootOffset_lt (m : Message) : m.rootOffset < 2 ^ 32 := by
  have hlen : (window m.data 8 4).length ≤ 4 := by simp [window]
  calc m.rootOffset < 256 ^ (window m.data 8 4).length := ofLE_lt _
    _ ≤ 256 ^ 4 := Nat.pow_le_pow_right (by norm_num) hlen
    _ = 2 ^ 32 := by norm_num

end Message

def msgType (m : Message) : Nat := m.flags >>> 8

def header (version flags root size : Nat) : List UInt8 :=
  magic ++ (le 2 version ++ (le 2 flags ++ (le 4 root ++ le 4 size)))

@[simp]
theorem header_length (version flags root size : Nat) :
    (header version flags root size).length = headerSize := by
  simp [header, magic]

section Header

variable (version flags root size : Nat) (body : List UInt8)

theorem header_fields :
    window (header version flags root size ++ body) 0 4 = magic ∧
    window (header version flags root size ++ body) 4 2 = le 2 version ∧
    window (header version flags root size ++ body) 6 2 = le 2 flags ∧
    window (header version flags root size ++ body) 8 4 = le 4 root ∧
    window (header version flags root size ++ body) 12 4 = le 4 size := by
  simp only [header, List.append_assoc]
  refine ⟨?_, ?_, ?_, ?_, ?_⟩
  · rfl
  · exact window_mid rfl (le_length 2 _)
  · rw [← List.append_assoc magic]
    exact window_mid (by simp [magic]) (le_length 2 _)
  · rw [← List.append_assoc (le 2 version), ← List.append_assoc magic]
    exact window_mid (by simp [magic]) (le_length 4 _)
  · rw [← List.append_assoc (le 2 flags), ← List.append_assoc (le 2 version), ← List.append_assoc magic]
    exact window_mid (by simp [magic]) (le_length 4 _)

/-- **A header in front of its body parses**, if it declares the length of the whole. -/
theorem parse_header (hver : version = version1 ∨ version = version2)
    (hsize : size = headerSize + body.length) (hlt : size < 2 ^ 32) :
    ∃ m, parse (header version flags root size ++ body) = .ok m ∧
      m.data = header version flags root size ++ body ∧ m.version = version ∧
      m.flags = flags % 2 ^ 16 ∧ m.rootOffset = root % 2 ^ 32 := by
  obtain ⟨hm, hv, hf, hr, hs⟩ := header_fields version flags root size body
  have hlen : (header version flags root size ++ body).length = size := by
    rw [List.length_append, header_length, hsize]
  have hver' : ofLE (le 2 version) = version := by
    rw [ofLE_le, Nat.mod_eq_of_lt]
    rcases hver with rfl | rfl <;> decide
  have hdecl : declaredSize (header version flags root size ++ body) = size := by
    rw [declaredSize, hs, ofLE_le, Nat.mod_eq_of_lt (by simpa using hlt)]
  refine ⟨⟨header version flags root size ++ body, by omega⟩, ?_, rfl, ?_, ?_, ?_⟩
  · rw [parse_ok_iff, hm, hv, hver', hdecl, List.take_of_length_le (by omega)]
    exact ⟨by omega, rfl, hver, by omega, by omega, rfl⟩
  · rw [Message.version, hv, hver']
  · rw [Message.flags, hf, ofLE_le, show (256 : Nat) ^ 2 = 2 ^ 16 from rfl]
  · rw [Message.rootOffset, hr, ofLE_le, show (256 : Nat) ^ 4 = 2 ^ 32 from rfl]

end Header

/-! ## Objects -/

/-- `Object`: an offset into a message. The zero value has no message. -/
structure Object where
  msg : Option Message
  offset : Int

/-- `List`: an offset into a message and an element count. The zero value has no message. -/
structure ListView where
  msg : Option Message
  offset : Int
  length : Int

def Object.null : Object := ⟨none, 0⟩

def ListView.null : ListView := ⟨none, 0, 0⟩

def Message.objectAt (m : Message) (off : Nat) : Object := ⟨some m, off⟩

/-- `Message.Root`. Nothing checks the offset the header gives. -/
def Message.root (m : Message) : Object := m.objectAt m.rootOffset

def dataOf : Option Message → Go (List UInt8)
  | none => .error .nilPointer
  | some m => .ok m.data

namespace Object

def isNull (o : Object) : Bool := o.offset == 0

def uint8 (o : Object) (fieldOffset : Int) : Go Nat := do
  let pos := int64 (o.offset + fieldOffset)
  let data ← dataOf o.msg
  if pos ≥ data.length then
    return 0
  return (← index data pos).toNat

/-- `Object.Uint16`, `Uint32` and `Uint64`, by their width in bytes. -/
def uint (w : Nat) (o : Object) (fieldOffset : Int) : Go Nat := do
  let pos := int64 (o.offset + fieldOffset)
  let data ← dataOf o.msg
  if int64 (pos + w) > data.length then
    return 0
  readLE w data pos

def uint16 (o : Object) (fieldOffset : Int) : Go Nat := uint 2 o fieldOffset

def uint32 (o : Object) (fieldOffset : Int) : Go Nat := uint 4 o fieldOffset

def uint64 (o : Object) (fieldOffset : Int) : Go Nat := uint 8 o fieldOffset

def bool (o : Object) (fieldOffset : Int) : Go Bool := do
  return (← o.uint8 fieldOffset) != 0

def bytesFixedSlice (o : Object) (fieldOffset n : Int) : Go (Option Span) := do
  if n ≤ 0 then
    return none
  let pos := int64 (o.offset + fieldOffset)
  let data ← dataOf o.msg
  if int64 (pos + n) > data.length then
    return none
  return some (← slice data pos (int64 (pos + n)))

/-- `Object.Bytes`. The displacement is unsigned here, and only here. -/
def bytes (o : Object) (fieldOffset : Int) : Go (Option Span) := do
  let pos := int64 (o.offset + fieldOffset)
  let data ← dataOf o.msg
  if int64 (pos + 4) > data.length then
    return none
  let relOffset ← readLE 4 data pos
  if relOffset = 0 then
    return none
  let lenPos := int64 (pos + 4)
  if int64 (lenPos + 4) > data.length then
    return none
  let length ← readLE 4 data lenPos
  let absPos := int64 (pos + relOffset)
  if absPos < headerSize then
    return none
  if int64 (absPos + length) > data.length then
    return none
  return some (← slice data absPos (int64 (absPos + length)))

/-- `Object.Text`. The string shares the bytes of the slice; the empty string is `none`. -/
def text (o : Object) (fieldOffset : Int) : Go (Option Span) := do
  match ← o.bytes fieldOffset with
  | none => return none
  | some b =>
    if b.bytes.length = 0 then
      return none
    let _ ← index b.bytes 0
    return some b

def object (o : Object) (fieldOffset : Int) : Go Object := do
  let pos := int64 (o.offset + fieldOffset)
  let data ← dataOf o.msg
  if int64 (pos + 4) > data.length then
    return null
  let relOffset := int32 (← readLE 4 data pos)
  if relOffset = 0 then
    return null
  let absOffset := int64 (pos + relOffset)
  if absOffset < headerSize ∨ absOffset ≥ data.length then
    return null
  return ⟨o.msg, absOffset⟩

def list (o : Object) (fieldOffset : Int) : Go ListView := do
  let pos := int64 (o.offset + fieldOffset)
  let data ← dataOf o.msg
  if int64 (pos + 8) > data.length then
    return .null
  let relOffset := int32 (← readLE 4 data pos)
  if relOffset = 0 then
    return .null
  let length ← readLE 4 data (int64 (pos + 4))
  if length > data.length then
    return .null
  let absOffset := int64 (pos + relOffset)
  if absOffset < headerSize ∨ absOffset ≥ data.length then
    return .null
  return ⟨o.msg, absOffset, length⟩

def listStride (o : Object) (fieldOffset : Int) (minStride : Nat) : Go ListView := do
  let pos := int64 (o.offset + fieldOffset)
  let data ← dataOf o.msg
  if int64 (pos + 8) > data.length then
    return .null
  let relOffset := int32 (← readLE 4 data pos)
  if relOffset = 0 then
    return .null
  let length ← readLE 4 data (int64 (pos + 4))
  let absOffset := int64 (pos + relOffset)
  if absOffset < headerSize ∨ absOffset ≥ data.length then
    return .null
  -- the product of two 32-bit words fits the 64-bit word it is computed in
  let bufRem := (data.length - absOffset).toNat
  if minStride > 0 then
    if length * minStride > bufRem then
      return .null
  else if length > data.length then
    return .null
  return ⟨o.msg, absOffset, length⟩

end Object

/-! ## Lists -/

namespace ListView

def isNull (l : ListView) : Bool := l.msg.isNone

def len (l : ListView) : Int := l.length

def uint8 (l : ListView) (i : Int) : Go Nat := do
  if i < 0 ∨ i ≥ l.length then
    return 0
  let pos := int64 (l.offset + i)
  let data ← dataOf l.msg
  if pos ≥ data.length then
    return 0
  return (← index data pos).toNat

/-- `List.Uint32` and `List.Uint64`, by their width in bytes. -/
def uint (w : Nat) (l : ListView) (i : Int) : Go Nat := do
  if i < 0 ∨ i ≥ l.length then
    return 0
  let pos := int64 (l.offset + i * w)
  let data ← dataOf l.msg
  if int64 (pos + w) > data.length then
    return 0
  readLE w data pos

def uint32 (l : ListView) (i : Int) : Go Nat := uint 4 l i

def uint64 (l : ListView) (i : Int) : Go Nat := uint 8 l i

/-- `List.Object`: an inline element. Nothing checks that it lies in the message. -/
def object (l : ListView) (i elemSize : Int) : Object :=
  if i < 0 ∨ i ≥ l.length then .null else ⟨l.msg, int64 (l.offset + i * elemSize)⟩

/-- `List.ObjectPtr`: an out-of-line element. -/
def objectPtr (l : ListView) (i : Int) : Go Object := do
  if i < 0 ∨ i ≥ l.length then
    return .null
  let pos := int64 (l.offset + i * 4)
  let data ← dataOf l.msg
  if int64 (pos + 4) > data.length then
    return .null
  let rel := int32 (← readLE 4 data pos)
  if rel = 0 then
    return .null
  let absOffset := int64 (pos + rel)
  if absOffset < headerSize ∨ absOffset ≥ data.length then
    return .null
  return ⟨l.msg, absOffset⟩

def bytes (l : ListView) : Go (Option Span) :=
  match l.msg with
  | none => .ok none
  | some m =>
    if int64 (l.offset + l.length) > m.data.length then .ok none
    else some <$> slice m.data l.offset (int64 (l.offset + l.length))

end ListView

/-! ## What the accessors compute

From here on positions are natural numbers. The two bounds of this section keep every sum an accessor
forms inside 63 bits: the message is shorter than `2 ^ 62` bytes and the field ends below `2 ^ 63`. -/

namespace Message

/-- The little-endian number of `w` bytes at a position, and zero past the end. -/
def uintAt (m : Message) (w pos : Nat) : Nat := if pos + w ≤ m.data.length then ofLE (window m.data pos w) else 0

/-- Where the signed pointer stored at a position leads: nowhere if it is null, and never into the header
or past the end. -/
def follow (m : Message) (pos : Nat) : Option Nat :=
  let abs := (pos : Int) + int32 (m.uintAt 4 pos)
  if int32 (m.uintAt 4 pos) ≠ 0 ∧ (headerSize : Int) ≤ abs ∧ abs < m.data.length then some abs.toNat
  else none

/-- The byte string whose unsigned pointer and length are stored at a position. -/
def bytesAt (m : Message) (pos : Nat) : Option Span :=
  let abs := pos + m.uintAt 4 pos
  let length := m.uintAt 4 (pos + 4)
  if m.uintAt 4 pos ≠ 0 ∧ pos + 8 ≤ m.data.length ∧ headerSize ≤ abs ∧ abs + length ≤ m.data.length then
    some ⟨abs, window m.data abs length⟩
  else none

/-- The start and the count of the list whose pointer and length are stored at a position. -/
def listAt (m : Message) (pos : Nat) : Option (Nat × Nat) :=
  if pos + 8 ≤ m.data.length then (m.follow pos).map fun t => (t, m.uintAt 4 (pos + 4)) else none

/-- `Object.List` accepts the pair: the count does not exceed the size of the message. -/
def listFits (m : Message) (l : Nat × Nat) : Prop := l.2 ≤ m.data.length

/-- `Object.ListStride` accepts the pair: the elements fit behind the start. -/
def strideFits (m : Message) (stride : Nat) (l : Nat × Nat) : Prop :=
  if 0 < stride then l.1 + l.2 * stride ≤ m.data.length else l.2 ≤ m.data.length

instance (m : Message) (l : Nat × Nat) : Decidable (m.listFits l) := inferInstanceAs (Decidable (_ ≤ _))

instance (m : Message) (stride : Nat) (l : Nat × Nat) : Decidable (m.strideFits stride l) := by
  unfold strideFits
  infer_instance

def pointee (m : Message) : Option Nat → Object
  | none => .null
  | some t => m.objectAt t

def listView (m : Message) : Option (Nat × Nat) → ListView
  | none => .null
  | some (t, n) => ⟨some m, t, n⟩

end Message

section Eval

variable {m : Message} {a f : Nat} {t stride : Nat} {l : Nat × Nat} {p : Nat × Nat → Bool}

theorem Message.follow_some (h : m.follow pos = some t) : headerSize ≤ t ∧ t < m.data.length := by
  simp only [Message.follow] at h
  split_ifs at h with hc
  simp only [Option.some.injEq] at h
  omega

variable {pos : Nat}

theorem Message.listAt_some (h : m.listAt pos = some l) : headerSize ≤ l.1 ∧ l.1 < m.data.length := by
  simp only [Message.listAt] at h
  split_ifs at h
  obtain ⟨t, ht, rfl⟩ := Option.map_eq_some_iff.mp h
  exact Message.follow_some ht

theorem Message.bytesAt_some {s : Span} (h : m.bytesAt pos = some s) :
    headerSize ≤ s.start ∧ s.Inside m.data := by
  simp only [Message.bytesAt] at h
  split_ifs at h with hc
  simp only [Option.some.injEq] at h
  subst h
  exact ⟨hc.2.2.1, span_inside hc.2.2.2⟩

theorem Message.bytesAt_behind {s : Span} (h : m.bytesAt pos = some s) : pos + s.bytes.length ≤ m.data.length := by
  simp only [Message.bytesAt] at h
  split_ifs at h with hc
  cases h
  rw [window_length hc.2.2.2]
  omega

theorem Message.strideFits_listFits (h : m.strideFits stride l) : m.listFits l := by
  unfold Message.strideFits at h
  unfold Message.listFits
  split_ifs at h with hs
  · calc l.2 ≤ l.2 * stride := Nat.le_mul_of_pos_right _ hs
      _ ≤ m.data.length := by omega
  · exact h

theorem Message.uintAt_lt (w pos : Nat) : m.uintAt w pos < 256 ^ w := by
  unfold Message.uintAt
  split_ifs with h
  · have := ofLE_lt (window m.data pos w)
    rwa [window_length h] at this
  · exact Nat.pow_pos (by norm_num)

theorem Message.uintAt_four_lt (pos : Nat) : m.uintAt 4 pos < 2 ^ 32 := m.uintAt_lt 4 pos

theorem Message.uintAt_of_le (h : pos + w ≤ m.data.length) : readLE w m.data pos = .ok (m.uintAt w pos) := by
  rw [readLE_eval h, Message.uintAt, if_pos h]

theorem Message.uintAt_of_gt (h : m.data.length < pos + w) : m.uintAt w pos = 0 := by
  rw [Message.uintAt, if_neg (by omega)]

theorem ofLE_window_one {d : List UInt8} (h : pos < d.length) : ofLE (window d pos 1) = d[pos].toNat := by
  have hw : window d pos 1 = [d[pos]] := by
    rw [window, List.drop_eq_getElem_cons h, List.take_succ_cons, List.take_zero]
  simp [hw, ofLE, ofBE]

theorem Object.uint8_eval (hpos : a + f + 8 < 2 ^ 63) : (m.objectAt a).uint8 f = .ok (m.uintAt 1 (a + f)) := by
  simp (disch := omega) only [Object.uint8, Message.objectAt, int64_add, dataOf, go_bind_ok, go_pure]
  split_ifs with hc
  · rw [Message.uintAt_of_gt (by omega)]
  · rw [index_eval (by omega), go_bind_ok, Message.uintAt, if_pos (by omega), ofLE_window_one (by omega)]

theorem Object.uint_eval (hw : w ≤ 8) (hpos : a + f + 8 < 2 ^ 63) :
    (m.objectAt a).uint w f = .ok (m.uintAt w (a + f)) := by
  simp (disch := omega) only [Object.uint, Message.objectAt, int64_add, dataOf, go_bind_ok, go_pure]
  split_ifs with hc
  · rw [Message.uintAt_of_gt (by omega)]
  · exact Message.uintAt_of_le (by omega)

theorem Object.bytesFixedSlice_eval (hn : 0 < n) (hpos : a + f + n < 2 ^ 63) :
    (m.objectAt a).bytesFixedSlice f n =
      .ok (if a + f + n ≤ m.data.length then some ⟨a + f, window m.data (a + f) n⟩ else none) := by
  have h1 := int64_add (a := a) (b := f) (by omega)
  have h0 : ¬((n : Int) ≤ 0) := by omega
  simp only [Object.bytesFixedSlice, Message.objectAt, h1, dataOf, go_bind_ok, go_pure, if_neg h0]
  rw [slice_checked hpos]
  split_ifs <;> rfl

/-- The sum of a position inside the message and the signed word stored there does not wrap. -/
theorem int64_follow (hlen : m.data.length < 2 ^ 62) (hpos : pos + 4 ≤ m.data.length) :
    int64 ((pos : Int) + int32 (m.uintAt 4 pos)) = (pos : Int) + int32 (m.uintAt 4 pos) := by
  have := int32_bounds (m.uintAt 4 pos)
  rw [int64_id] <;> omega

theorem Message.follow_of_gt (h : m.data.length < pos + 4) : m.follow pos = none := by
  have h0 : int32 ((m.uintAt 4 pos : Nat) : Int) = 0 := by
    rw [Message.uintAt_of_gt h, Nat.cast_zero, int32_id] <;> decide
  simp only [Message.follow, h0, ne_eq, not_true_eq_false, false_and, if_false]

theorem Message.follow_null (h : int32 (m.uintAt 4 pos) = 0) : m.follow pos = none := by
  rw [Message.follow, if_neg fun hc => hc.1 h]

theorem Message.follow_outside
    (h : (pos : Int) + int32 (m.uintAt 4 pos) < headerSize ∨
      (pos : Int) + int32 (m.uintAt 4 pos) ≥ m.data.length) : m.follow pos = none := by
  rw [Message.follow, if_neg]
  rintro ⟨-, hlo, hhi⟩
  omega

theorem Message.follow_inside (h0 : int32 (m.uintAt 4 pos) ≠ 0)
    (h : ¬((pos : Int) + int32 (m.uintAt 4 pos) < headerSize ∨
      (pos : Int) + int32 (m.uintAt 4 pos) ≥ m.data.length)) :
    ∃ t : Nat, m.follow pos = some t ∧ (t : Int) = (pos : Int) + int32 (m.uintAt 4 pos) := by
  refine ⟨((pos : Int) + int32 (m.uintAt 4 pos)).toNat, ?_, by omega⟩
  rw [Message.follow, if_pos ⟨h0, by omega, by omega⟩]

theorem Object.object_eval (hlen : m.data.length < 2 ^ 62) (hpos : a + f + 8 < 2 ^ 63) :
    (m.objectAt a).object f = .ok (m.pointee (m.follow (a + f))) := by
  simp (disch := omega) only [Object.object, Message.objectAt, int64_add, int64_add_ofNat, dataOf, go_bind_ok,
    go_pure]
  split_ifs with hc
  · rw [Message.follow_of_gt (by omega), Message.pointee]
  rw [Message.uintAt_of_le (by omega), go_bind_ok, int64_follow hlen (by omega)]
  split_ifs with h0 hr
  · rw [Message.follow_null h0, Message.pointee]
  · rw [Message.follow_outside hr, Message.pointee]
  · obtain ⟨t, ht, habs⟩ := Message.follow_inside h0 hr
    rw [ht, Message.pointee, Message.objectAt, habs]

theorem Message.listAt_of_gt (h : m.data.length < pos + 8) : m.listAt pos = none := by
  rw [Message.listAt, if_neg (by omega)]

theorem Message.listAt_of_le (h : pos + 8 ≤ m.data.length) :
    m.listAt pos = (m.follow pos).map fun t => (t, m.uintAt 4 (pos + 4)) := by
  rw [Message.listAt, if_pos h]

/-- A list pointer that leads nowhere, or whose pair is refused, gives the null list. -/
theorem Message.listView_refused {o : Option (Nat × Nat)} (h : ∀ l ∈ o, p l = false) :
    m.listView (o.filter p) = .null := by
  cases o with
  | none => rfl
  | some l => rw [Option.filter_some, if_neg (by simp [h l rfl]), Message.listView]

theorem Message.listView_accepted (h : p (t, n) = true) : m.listView ((some (t, n)).filter p) = ⟨some m, t, n⟩ := by
  rw [Option.filter_some, if_pos h, Message.listView]

theorem Object.list_eval (hlen : m.data.length < 2 ^ 62) (hpos : a + f + 8 < 2 ^ 63) :
    (m.objectAt a).list f = .ok (m.listView ((m.listAt (a + f)).filter (m.listFits ·))) := by
  simp (disch := omega) only [Object.list, Message.objectAt, int64_add, int64_add_ofNat, dataOf, go_bind_ok, go_pure]
  split_ifs with hc
  · rw [Message.listAt_of_gt (by omega), Option.filter_none, Message.listView]
  rw [Message.uintAt_of_le (by omega), go_bind_ok, int64_follow hlen (by omega),
    Message.uintAt_of_le (by omega), Message.listAt_of_le (by omega), go_bind_ok]
  split_ifs with h0 hn hr
  · rw [Message.follow_null h0, Option.map_none, Option.filter_none, Message.listView]
  · rw [Message.listView_refused]
    rintro l hl
    obtain ⟨t, -, rfl⟩ := Option.map_eq_some_iff.mp hl
    rw [decide_eq_false]
    simp only [Message.listFits]
    omega
  · rw [Message.follow_outside hr, Option.map_none, Option.filter_none, Message.listView]
  · obtain ⟨t, ht, habs⟩ := Message.follow_inside h0 hr
    rw [ht, Option.map_some, Message.listView_accepted, habs]
    rw [decide_eq_true]
    simp only [Message.listFits]
    omega

theorem Object.listStride_eval (hlen : m.data.length < 2 ^ 62) (hpos : a + f + 8 < 2 ^ 63) :
    (m.objectAt a).listStride f stride = .ok (m.listView ((m.listAt (a + f)).filter (m.strideFits stride ·))) := by
  simp (disch := omega) only [Object.listStride, Message.objectAt, int64_add, int64_add_ofNat, dataOf, go_bind_ok,
    go_pure]
  by_cases hc : ((a + f + 8 : Nat) : Int) > m.data.length
  · rw [if_pos hc, Message.listAt_of_gt (by omega), Option.filter_none, Message.listView]
  rw [if_neg hc, Message.uintAt_of_le (by omega), go_bind_ok, int64_follow hlen (by omega),
    Message.uintAt_of_le (by omega), Message.listAt_of_le (by omega), go_bind_ok]
  by_cases h0 : int32 (m.uintAt 4 (a + f)) = 0
  · rw [if_pos h0, Message.follow_null h0, Option.map_none, Option.filter_none, Message.listView]
  rw [if_neg h0]
  split
  · next hr => rw [Message.follow_outside hr, Option.map_none, Option.filter_none, Message.listView]
  next hr =>
    obtain ⟨t, ht, habs⟩ := Message.follow_inside h0 hr
    have hin := Message.follow_some ht
    have hrem : ((m.data.length : Int) - t).toNat = m.data.length - t := by omega
    rw [ht, Option.map_some, ← habs, hrem]
    generalize m.uintAt 4 (a + f + 4) = n
    by_cases hfit : m.strideFits stride (t, n)
    · rw [Message.listView_accepted (decide_eq_true hfit)]
      simp only [Message.strideFits] at hfit
      split_ifs at hfit ⊢ <;> first | rfl | omega
    rw [Message.listView_refused]
    · simp only [Message.strideFits] at hfit
      split_ifs at hfit ⊢ <;> first | rfl | omega
    · rintro l hl
      cases hl
      exact decide_eq_false hfit

theorem Object.bytes_eval (hlen : m.data.length < 2 ^ 62) (hpos : a + f + 8 < 2 ^ 63) :
    (m.objectAt a).bytes f = .ok (m.bytesAt (a + f)) := by
  simp (disch := omega) only [Object.bytes, Message.objectAt, int64_add, int64_add_ofNat, dataOf, go_bind_ok, go_pure,
    Message.bytesAt]
  by_cases hc : ((a + f + 4 : Nat) : Int) > m.data.length
  · rw [if_pos hc, if_neg (by omega)]
  rw [if_neg hc, Message.uintAt_of_le (by omega), go_bind_ok]
  by_cases h0 : m.uintAt 4 (a + f) = 0
  · rw [if_pos h0, if_neg fun h => h.1 h0]
  rw [if_neg h0]
  by_cases hd : ((a + f + 4 + 4 : Nat) : Int) > m.data.length
  · rw [if_pos hd, if_neg (by omega)]
  have hr := m.uintAt_four_lt (a + f)
  have hn := m.uintAt_four_lt (a + f + 4)
  rw [if_neg hd, Message.uintAt_of_le (by omega), go_bind_ok]
  generalize m.uintAt 4 (a + f) = rel at *
  generalize m.uintAt 4 (a + f + 4) = n at *
  rw [int64_add (by omega), slice_checked (by omega)]
  split_ifs <;> first | rfl | omega

theorem Object.text_eval (hlen : m.data.length < 2 ^ 62) (hpos : a + f + 8 < 2 ^ 63) :
    (m.objectAt a).text f = .ok ((m.bytesAt (a + f)).filter (·.bytes.length ≠ 0)) := by
  rw [Object.text, Object.bytes_eval hlen hpos, go_bind_ok]
  cases m.bytesAt (a + f) with
  | none => rfl
  | some b =>
    simp only [Option.filter_some]
    by_cases hb : b.bytes.length = 0
    · simp [hb]
    · have hidx : index b.bytes ((0 : Nat) : Int) = .ok b.bytes[0] := index_eval (by omega)
      simp only [Nat.cast_zero] at hidx
      simp [hb, hidx]

theorem ListView.uint8_eval (hlen : m.data.length < 2 ^ 62) (hn : n ≤ m.data.length) (ha : a < m.data.length)
    (hi : i < n) : (ListView.mk (some m) a n).uint8 i = .ok (m.uintAt 1 (a + i)) := by
  simp (disch := omega) only [ListView.uint8, int64_add, dataOf, go_bind_ok, go_pure]
  rw [if_neg (by omega)]
  split_ifs with hc
  · rw [Message.uintAt_of_gt (by omega)]
  · rw [index_eval (by omega), go_bind_ok, Message.uintAt, if_pos (by omega), ofLE_window_one (by omega)]

theorem ListView.uint_eval (hw : w ≤ 8) (hlen : m.data.length < 2 ^ 59) (hn : n ≤ m.data.length)
    (ha : a < m.data.length) (hi : i < n) : (ListView.mk (some m) a n).uint w i = .ok (m.uintAt w (a + i * w)) := by
  have hiw : i * w ≤ i * 8 := Nat.mul_le_mul_left i hw
  simp (disch := omega) only [ListView.uint, int64_add_mul, int64_add, dataOf, go_bind_ok, go_pure]
  rw [if_neg (by omega)]
  split_ifs with hc
  · rw [Message.uintAt_of_gt (by omega)]
  · exact Message.uintAt_of_le (by omega)

theorem ListView.objectPtr_eval (hlen : m.data.length < 2 ^ 59) (hn : n ≤ m.data.length) (ha : a < m.data.length)
    (hi : i < n) : (ListView.mk (some m) a n).objectPtr i = .ok (m.pointee (m.follow (a + i * 4))) := by
  have h1 : int64 ((a : Int) + i * 4) = ((a + i * 4 : Nat) : Int) := by rw [int64_id] <;> omega
  simp (disch := omega) only [ListView.objectPtr, h1, int64_add_ofNat, dataOf, go_bind_ok, go_pure]
  rw [if_neg (by omega)]
  split_ifs with hc
  · rw [Message.follow_of_gt (by omega), Message.pointee]
  rw [Message.uintAt_of_le (by omega), go_bind_ok, int64_follow (by omega) (by omega)]
  split_ifs with h0 hr
  · rw [Message.follow_null h0, Message.pointee]
  · rw [Message.follow_outside hr, Message.pointee]
  · obtain ⟨t, ht, habs⟩ := Message.follow_inside h0 hr
    rw [ht, Message.pointee, Message.objectAt, habs]

/-- An index outside the list reads as the zero value, whatever the list. -/
theorem ListView.outside {l : ListView} {i : Int} (h : i < 0 ∨ i ≥ l.length) :
    l.uint8 i = .ok 0 ∧ (∀ w, l.uint w i = .ok 0) ∧ l.objectPtr i = .ok .null ∧ ∀ e, l.object i e = .null := by
  refine ⟨?_, fun w => ?_, ?_, fun e => ?_⟩
  · simp only [ListView.uint8, if_pos h, go_pure]
  · simp only [ListView.uint, if_pos h, go_pure]
  · simp only [ListView.objectPtr, if_pos h, go_pure]
  · simp only [ListView.object, if_pos h]

theorem ListView.object_eval {e : Nat} (hlen : m.data.length < 2 ^ 32) (hn : n ≤ m.data.length) (ha : a < m.data.length)
    (hi : i < n) (he : e < 2 ^ 31) :
    (ListView.mk (some m) a n).object i e = m.objectAt (a + i * e) ∧ a + i * e ≤ 2 ^ 63 - 2 ^ 32 := by
  have hie : i * e ≤ (2 ^ 32 - 2) * (2 ^ 31 - 1) := Nat.mul_le_mul (by omega) (by omega)
  simp (disch := omega) only [ListView.object, int64_add_mul, Message.objectAt]
  rw [if_neg (by omega)]
  exact ⟨rfl, by omega⟩

theorem ListView.bytes_eval (hlen : m.data.length < 2 ^ 62) (hn : n ≤ m.data.length) (ha : a < m.data.length) :
    (ListView.mk (some m) a n).bytes =
      .ok (if a + n ≤ m.data.length then some ⟨a, window m.data a n⟩ else none) := by
  simp (disch := omega) only [ListView.bytes, int64_add]
  split_ifs with hc hd hd
  · omega
  · rfl
  · rw [slice_eval (by omega) (by omega), Nat.add_sub_cancel_left]
    rfl
  · omega

end Eval

end Zap.Wire
