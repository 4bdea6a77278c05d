/-
# Zap.Wire.View — the typed views of `v1`: `Wrap`, `Read`, `NestedAt`, `ListAt` and `ListNestedAt`.

A `View` keeps the buffer, the fixed section of its object as a slice (`payload`) and the offset of the
object. Scalars are read from the payload; everything behind a pointer goes through an `Object` built
again from the offset. That offset is an `int32`, as the two fields of a typed list are: `int32` is
applied where the source converts.

A schema is a value here: its kind byte, the size of its fixed section and its name are all that the views
ask of a schema type.
-/
import Zap.Lib.Buffer
import Zap.Wire.Message

namespace Zap.Wire

open Zap.Lib

/-! ## Views -/

/-- `Schema`: the discriminator, the size of the fixed section and the name. -/
structure Schema where
  kind : UInt8
  size : Nat
  name : String

/-- The errors of `Wrap`: those of the wire layer, and `SchemaError`. -/
inductive ViewError
  | wire (e : WireError)
  | schema (want got : UInt8) (name : String)

/-- `View`. A nil buffer is `none`; a nil payload is the empty span. -/
structure View where
  data : Option Message
  payload : Span
  rootOff : Int

def View.zero : View := ⟨none, ⟨0, []⟩, 0⟩

def View.isZero (v : View) : Bool := v.data.isNone

/-- `ParseHeader`: the checks of `Parse`, and the root offset beside the buffer. -/
def parseHeader (data : List UInt8) : Except WireError (Message × Nat) :=
  if data.length < headerSize then .error .bufferTooSmall
  else if window data 0 4 ≠ magic then .error .invalidMagic
  else if ofLE (window data 4 2) ≠ version1 ∧ ofLE (window data 4 2) ≠ version2 then
    .error .invalidVersion
  else if h : declaredSize data < headerSize ∨ declaredSize data > data.length then
    .error .bufferTooSmall
  else .ok (⟨data.take (declaredSize data), declaredSize_header h⟩, ofLE (window data 8 4))

/-- `parseAndCheck`: the buffer, the root offset and the end of the root's fixed section. -/
def parseAndCheck (b : List UInt8) (wantKind : UInt8) (size : Nat) (name : String) :
    Go (Except ViewError (Message × Int × Int)) :=
  match parseHeader b with
  | .error e => .ok (.error (.wire e))
  | .ok (m, rootOff) =>
    if rootOff ≥ m.data.length then .ok (.error (.wire .outOfBounds))
    else do
      let got ← index m.data rootOff
      if got ≠ wantKind then
        return .error (.schema wantKind got name)
      let stop := int64 (rootOff + size)
      if stop > m.data.length then
        return .error (.wire .outOfBounds)
      return .ok (m, rootOff, stop)

def wrap (s : Schema) (b : List UInt8) : Go (Except ViewError View) := do
  match ← parseAndCheck b s.kind s.size s.name with
  | .error e => return .error e
  | .ok (m, rootOff, stop) => return .ok ⟨some m, ← slice m.data rootOff stop, int32 rootOff⟩

/-- `viewAt`: the view of `size` bytes at an absolute position. -/
def viewAt (data : Option Message) (off : Int) (size : Nat) : Go View := do
  let d ← dataOf data
  let stop := int64 (off + size)
  if off < 0 ∨ stop > d.length then
    return .zero
  return ⟨data, ← slice d off stop, int32 off⟩

namespace View

def asObject (v : View) : Object := ⟨v.data, v.rootOff⟩

/-- `Read`, by the width of the field's type. The load is of `w` bytes behind the address of one. -/
def read (v : View) (w offset : Nat) : Go Nat := do
  if int64 (offset + w) > v.payload.bytes.length then
    return 0
  let _ ← index v.payload.bytes offset
  littleEndian w (v.payload.bytes.drop offset)

/-! ## Nested views -/

def nestedAt (v : View) (n : Schema) (offset : Nat) : Go View :=
  match v.data with
  | none => .ok .zero
  | some m => do
    let nested ← v.asObject.object offset
    if nested.isNull then
      return .zero
    let off := nested.offset
    let stop := int64 (off + n.size)
    if off < 0 ∨ stop > m.data.length then
      return .zero
    return ⟨v.data, ← slice m.data off stop, int32 off⟩

end View

/-! ## Typed lists -/

/-- `List[E]` and `ListNested[N]`: the buffer, the position of the first element and the count. -/
structure TypedList where
  data : Option Message
  offset : Int
  length : Int

def TypedList.zero : TypedList := ⟨none, 0, 0⟩

/-- `rawListOffset`: an empty list has no first element to ask for its offset. -/
def rawListOffset (l : ListView) : Int := if l.len = 0 then 0 else (l.object 0 1).offset

/-- `ListAt` and `ListNestedAt`, by the stride they announce. -/
def listWith (v : View) (stride offset : Nat) : Go TypedList :=
  match v.data with
  | none => .ok .zero
  | some _ => do
    let raw ← v.asObject.listStride offset stride
    if raw.isNull then
      return .zero
    return ⟨v.data, int32 (rawListOffset raw), int32 raw.len⟩

def listAt (v : View) (e : Schema) (offset : Nat) : Go TypedList := listWith v (e.size % 2 ^ 32) offset

abbrev objPtrStride : Nat := 4

def listNestedAt (v : View) (offset : Nat) : Go TypedList := listWith v objPtrStride offset

namespace TypedList

def len (l : TypedList) : Int := l.length

def elemAt (l : TypedList) (e : Schema) (i : Int) : Go View :=
  if l.data.isNone ∨ i < 0 ∨ i ≥ l.length then .ok .zero
  else viewAt l.data (int64 (l.offset + i * e.size)) e.size

/-- The loop of the iterators: `fuel` elements from index `i` on, stopped by the end of the buffer. -/
def scan (d : List UInt8) (start : Int) (stride : Nat) : Nat → Nat → Go (List (Nat × Span))
  | 0, _ => .ok []
  | fuel + 1, i => do
    let off := int64 (start + i * stride)
    let stop := int64 (off + stride)
    if stop > d.length then
      return []
    let payload ← slice d off stop
    let rest ← scan d start stride fuel (i + 1)
    return (i, payload) :: rest

/-- The index and the payload of every element an iterator yields when the consumer never stops it. -/
def elements (l : TypedList) (e : Schema) : Go (List (Nat × Span)) :=
  match l.data with
  | none => .ok []
  | some m => scan m.data l.offset e.size l.length.toNat 0

def elemView (l : TypedList) (payload : Span) : View := ⟨l.data, payload, int32 payload.start⟩

def all (l : TypedList) (e : Schema) : Go (List View) := do
  return (← l.elements e).map fun x => l.elemView x.2

def payloads (l : TypedList) (e : Schema) : Go (List Span) := do
  return (← l.elements e).map fun x => x.2

def indexed (l : TypedList) (e : Schema) : Go (List (Nat × View)) := do
  return (← l.elements e).map fun x => (x.1, l.elemView x.2)

def nestedElemAt (l : TypedList) (n : Schema) (i : Int) : Go View :=
  match l.data with
  | none => .ok .zero
  | some m =>
    if i < 0 ∨ i ≥ l.length then .ok .zero
    else do
      let slotPos := int64 (l.offset + i * objPtrStride)
      if slotPos < 0 ∨ int64 (slotPos + objPtrStride) > m.data.length then
        return .zero
      let rel := int32 (← readLE 4 m.data slotPos)
      if rel = 0 then
        return .zero
      let target := int64 (slotPos + rel)
      let stop := int64 (target + n.size)
      if target < headerSize ∨ stop > m.data.length ∨ stop < target then
        return .zero
      return ⟨l.data, ← slice m.data target stop, int32 target⟩

end TypedList

def readPayload (payload : Span) (w offset : Nat) : Go Nat := do
  if int64 (offset + w) > payload.bytes.length then
    return 0
  let _ ← index payload.bytes offset
  littleEndian w (payload.bytes.drop offset)

/-! ## What the views compute -/

/-- The view of `size` bytes at a position of a message. -/
def Message.viewAt (m : Message) (size : Nat) (pos : Nat) : View :=
  if pos + size ≤ m.data.length then ⟨some m, ⟨pos, window m.data pos size⟩, int32 pos⟩ else .zero

/-- The view a followed pointer gives. -/
def Message.pointeeView (m : Message) (size : Nat) : Option Nat → View
  | none => .zero
  | some t => m.viewAt size t

/-- The typed list a followed list pointer gives. -/
def Message.typedList (m : Message) : Option (Nat × Nat) → TypedList
  | none => .zero
  | some (t, n) => ⟨some m, int32 (if n = 0 then 0 else t), int32 n⟩

theorem parseHeader_eq (data : List UInt8) :
    parseHeader data = (parse data).map fun m => (m, m.rootOffset) := by
  cases hp : parse data with
  | error e =>
    unfold parse at hp
    unfold parseHeader
    split_ifs at hp ⊢ <;> exact congrArg Except.error (Except.error.inj hp)
  | ok m =>
    have hroot : ofLE (window data 8 4) = m.rootOffset := by
      rw [Message.rootOffset, parse_window hp (by decide)]
    unfold parse at hp
    unfold parseHeader
    split_ifs at hp ⊢
    rw [hroot]
    exact congrArg (fun x => Except.ok (x, m.rootOffset)) (Except.ok.inj hp)

section Eval

variable {m : Message} {a f size : Nat}

section Root

variable {s : Schema} {b : List UInt8}

theorem wrap_refused {e : WireError} (hp : parse b = .error e) : wrap s b = .ok (.error (.wire e)) := by
  simp only [wrap, parseAndCheck, parseHeader_eq, hp, Except.map, go_bind_ok, go_pure]

variable (hp : parse b = .ok m)

include hp

theorem wrap_outside (h : m.data.length ≤ m.rootOffset) : wrap s b = .ok (.error (.wire .outOfBounds)) := by
  simp only [wrap, parseAndCheck, parseHeader_eq, hp, Except.map, ge_iff_le, if_pos h, go_bind_ok, go_pure]

theorem wrap_other {k : UInt8} (hk : m.data[m.rootOffset]? = some k) (hne : k ≠ s.kind) :
    wrap s b = .ok (.error (.schema s.kind k s.name)) := by
  obtain ⟨hin, rfl⟩ := List.getElem?_eq_some_iff.mp hk
  simp only [wrap, parseAndCheck, parseHeader_eq, hp, Except.map, ge_iff_le, Nat.not_le.mpr hin, if_false,
    index_eval hin, go_bind_ok, if_pos hne, go_pure]

/-- Once the kind is the schema's, only the end of the fixed section is left to check. -/
theorem wrap_same (hk : m.data[m.rootOffset]? = some s.kind) :
    wrap s b = if int64 (m.rootOffset + s.size) > m.data.length then .ok (.error (.wire .outOfBounds))
      else do return .ok ⟨some m, ← slice m.data m.rootOffset (int64 (m.rootOffset + s.size)),
        int32 m.rootOffset⟩ := by
  obtain ⟨hin, hk⟩ := List.getElem?_eq_some_iff.mp hk
  simp only [wrap, parseAndCheck, parseHeader_eq, hp, Except.map, ge_iff_le, Nat.not_le.mpr hin, if_false,
    index_eval hin, go_bind_ok, hk, ne_eq, not_true]
  split_ifs <;> rfl

theorem wrap_fits (hk : m.data[m.rootOffset]? = some s.kind)
    (hfit : m.rootOffset + s.size ≤ m.data.length) (hlen : m.data.length < 2 ^ 63) :
    wrap s b = .ok (.ok (m.viewAt s.size m.rootOffset)) := by
  rw [wrap_same hp hk, int64_add (by omega), if_neg (by omega), slice_eval (by omega) hfit, Nat.add_sub_cancel_left,
    go_bind_ok, go_pure, Message.viewAt, if_pos hfit]

theorem wrap_short (hk : m.data[m.rootOffset]? = some s.kind)
    (hend : m.data.length < m.rootOffset + s.size) (hs : m.rootOffset + s.size < 2 ^ 63) :
    wrap s b = .ok (.error (.wire .outOfBounds)) := by
  rw [wrap_same hp hk, int64_add hs, if_pos (by omega)]

/-- A size so large that the end wraps passes the check, and slicing the payload out faults. -/
theorem wrap_wraps (hk : m.data[m.rootOffset]? = some s.kind) (hs : 2 ^ 63 ≤ m.rootOffset + s.size)
    (hs' : s.size < 2 ^ 63) : wrap s b = .error .outOfRange := by
  have hroot := m.rootOffset_lt
  have hneg : int64 ((m.rootOffset : Int) + s.size) < 0 := by
    unfold int64
    omega
  rw [wrap_same hp hk, if_neg (by omega), slice, if_neg (by omega), go_bind_error]

end Root

variable {v : View} {s : Schema} {w n t stride i : Nat}

/-- What `Wrap` accepts: a message `Parse` accepts whose root lies inside it and starts with the kind. -/
theorem wrap_ok_iff {b : List UInt8} (hs : s.size < 2 ^ 63) :
    wrap s b = .ok (.ok v) ↔
      ∃ m, parse b = .ok m ∧ m.rootOffset < m.data.length ∧
        m.data[m.rootOffset]? = some s.kind ∧ m.rootOffset + s.size ≤ m.data.length ∧
        v = m.viewAt s.size m.rootOffset := by
  constructor
  · intro h
    cases hp : parse b with
    | error e =>
      rw [wrap_refused hp] at h
      cases h
    | ok m =>
      have hlen := parse_length_lt hp
      cases hk : m.data[m.rootOffset]? with
      | none =>
        rw [wrap_outside hp (List.getElem?_eq_none_iff.mp hk)] at h
        cases h
      | some k =>
        by_cases hne : k ≠ s.kind
        · rw [wrap_other hp hk hne] at h
          cases h
        obtain rfl := not_not.mp hne
        by_cases hfit : m.rootOffset + s.size ≤ m.data.length
        · rw [wrap_fits hp hk hfit (by omega)] at h
          cases Except.ok.inj h
          exact ⟨m, rfl, (List.getElem?_eq_some_iff.mp hk).1, hk, hfit, rfl⟩
        by_cases hsum : m.rootOffset + s.size < 2 ^ 63
        · rw [wrap_short hp hk (by omega) hsum] at h
          cases h
        · rw [wrap_wraps hp hk (by omega) hs] at h
          cases h
  · rintro ⟨m, hp, -, hk, hfit, rfl⟩
    have hlen := parse_length_lt hp
    exact wrap_fits hp hk hfit (by omega)

theorem wrap_returns (hs : s.size < 2 ^ 62) (b : List UInt8) : ∃ r, wrap s b = .ok r := by
  cases hp : parse b with
  | error e => exact ⟨_, wrap_refused hp⟩
  | ok m =>
    have hlen := parse_length_lt hp
    have hroot := m.rootOffset_lt
    cases hk : m.data[m.rootOffset]? with
    | none => exact ⟨_, wrap_outside hp (List.getElem?_eq_none_iff.mp hk)⟩
    | some k =>
      by_cases hne : k ≠ s.kind
      · exact ⟨_, wrap_other hp hk hne⟩
      obtain rfl := not_not.mp hne
      by_cases hfit : m.rootOffset + s.size ≤ m.data.length
      · exact ⟨_, wrap_fits hp hk hfit (by omega)⟩
      · exact ⟨_, wrap_short hp hk (by omega) (by omega)⟩

theorem viewAt_eval (hpos : a + size < 2 ^ 63) : Zap.Wire.viewAt (some m) a size = .ok (m.viewAt size a) := by
  have h0 : ¬(a : Int) < 0 := by omega
  simp only [Zap.Wire.viewAt, dataOf, go_bind_ok, Message.viewAt, go_pure, h0, false_or]
  rw [slice_checked hpos]
  split_ifs <;> rfl

/-- A field inside the payload is read there, and any other field reads as zero. -/
theorem View.read_eval (hw : 0 < w) (hw' : w ≤ 8) (hf : f < 2 ^ 62) :
    v.read w f = .ok (if f + w ≤ v.payload.bytes.length then ofLE (window v.payload.bytes f w)
      else 0) := by
  simp (disch := omega) only [View.read, int64_add, go_pure]
  split_ifs with hc hd hd
  · omega
  · rfl
  · have hlen : w ≤ (v.payload.bytes.drop f).length := by
      simp only [List.length_drop]
      omega
    rw [index_eval (by omega), go_bind_ok, littleEndian, if_pos hlen, window]
  · omega

theorem Message.viewAt_inside (h : a + size ≤ m.data.length) :
    m.viewAt size a = ⟨some m, ⟨a, window m.data a size⟩, int32 a⟩ := by
  rw [Message.viewAt, if_pos h]

/-- A field inside the view's section is read from the payload as from the message. -/
theorem Message.viewAt_read (h : a + size ≤ m.data.length) (hw : 0 < w) (hw' : w ≤ 8) (hf : f + w ≤ size)
    (hlen : m.data.length < 2 ^ 32) : (m.viewAt size a).read w f = .ok (m.uintAt w (a + f)) := by
  rw [Message.viewAt_inside h, View.read_eval hw hw' (by omega), window_length h, if_pos hf,
    window_window hf, Message.uintAt, if_pos (by omega)]

/-- Only the sum of the object's offset and the field's counts. -/
theorem View.asObject_eval (hv : v.data = some m) (hr : v.rootOff + f = a)
    (hlen : m.data.length < 2 ^ 62) (hpos : a + 8 < 2 ^ 63) :
    v.asObject.object f = .ok (m.pointee (m.follow a)) ∧ ∀ stride, v.asObject.listStride f stride =
        .ok (m.listView ((m.listAt a).filter (m.strideFits stride ·))) := by
  have hsum : v.asObject.offset + (f : Int) = (m.objectAt a).offset + ((0 : Nat) : Int) := by
    simp only [View.asObject, Message.objectAt, hr, Nat.cast_zero, add_zero]
  have hmsg : v.asObject.msg = (m.objectAt a).msg := hv
  constructor
  · rw [← Nat.add_zero a, ← Object.object_eval hlen (by omega), Object.object, Object.object, hsum, hmsg]
  · intro stride
    rw [← Nat.add_zero a, ← Object.listStride_eval hlen (by omega), Object.listStride, Object.listStride, hsum, hmsg]

theorem View.nestedAt_eval {n : Schema} (hv : v.data = some m) (hr : v.rootOff + f = a)
    (hn : n.size < 2 ^ 62) (hlen : m.data.length < 2 ^ 62) (hpos : a + 8 < 2 ^ 63) :
    v.nestedAt n f = .ok (m.pointeeView n.size (m.follow a)) := by
  simp only [View.nestedAt, hv, (View.asObject_eval hv hr hlen hpos).1, go_bind_ok, go_pure]
  cases ht : m.follow a with
  | none =>
    rw [Message.pointee, if_pos (by decide), Message.pointeeView]
  | some t =>
    have hin := Message.follow_some ht
    have hnull : ¬((m.objectAt t).isNull = true) := by
      have h16 : 16 ≤ t := hin.1
      simp only [Object.isNull, Message.objectAt, beq_iff_eq]
      omega
    rw [Message.pointee, if_neg hnull]
    exact viewAt_eval (by omega)

theorem rawListOffset_eval (ht : t < 2 ^ 62) :
    rawListOffset ⟨some m, t, n⟩ = ((if n = 0 then 0 else t : Nat) : Int) := by
  have h1 : int64 ((t : Int) + 0 * 1) = t := by rw [int64_id] <;> omega
  simp only [rawListOffset, ListView.len, ListView.object]
  split_ifs with h0 hn hc hc
  · rfl
  · omega
  · omega
  · omega
  · omega
  · exact h1

/-- The typed list is the raw list with its two numbers narrowed. -/
theorem listWith_of_listStride (hv : v.data = some m) (hlen : m.data.length < 2 ^ 62)
    (hraw : v.asObject.listStride f stride = .ok (m.listView ((m.listAt a).filter (m.strideFits stride ·)))) :
    listWith v stride f = .ok (m.typedList ((m.listAt a).filter (m.strideFits stride ·))) := by
  simp only [listWith, hv, hraw, go_bind_ok, go_pure]
  cases hl : (m.listAt a).filter (m.strideFits stride ·) with
  | none => rw [Message.listView, if_pos (by decide), Message.typedList]
  | some l =>
    obtain ⟨t, n⟩ := l
    have hin := Message.listAt_some (Option.mem_filter_iff.mp hl).1
    rw [Message.listView, if_neg (by simp [ListView.isNull]), rawListOffset_eval (by omega), Message.typedList]
    simp only [ListView.len, Nat.cast_ite, Nat.cast_zero]

theorem listWith_eval (hv : v.data = some m) (hr : v.rootOff + f = a) (hlen : m.data.length < 2 ^ 62)
    (hpos : a + 8 < 2 ^ 63) : listWith v stride f = .ok (m.typedList ((m.listAt a).filter (m.strideFits stride ·))) :=
  listWith_of_listStride hv hlen ((View.asObject_eval hv hr hlen hpos).2 stride)

theorem TypedList.elemAt_eval {e : Schema} (hi : i < n) (hpos : t + i * e.size + e.size < 2 ^ 63) :
    (TypedList.mk (some m) t n).elemAt e i = .ok (m.viewAt e.size (t + i * e.size)) := by
  simp only [TypedList.elemAt, Option.isNone_some, Bool.false_eq_true, false_or]
  rw [if_neg (by omega), int64_add_mul (by omega), viewAt_eval hpos]

theorem TypedList.nestedElemAt_eval (hi : i < n) (hs : 0 < s.size) (hs' : s.size < 2 ^ 63)
    (hlen : m.data.length < 2 ^ 59) (ht : t < m.data.length) (hn : n ≤ m.data.length) :
    (TypedList.mk (some m) t n).nestedElemAt s i = .ok (m.pointeeView s.size (m.follow (t + i * 4))) := by
  have h1 : int64 ((t : Int) + i * objPtrStride) = ((t + i * 4 : Nat) : Int) := by
    rw [int64_id] <;> simp only [objPtrStride] <;> omega
  have h2 : int64 (((t + i * 4 : Nat) : Int) + objPtrStride) = ((t + i * 4 + 4 : Nat) : Int) := by
    rw [int64_id] <;> simp only [objPtrStride] <;> omega
  simp only [TypedList.nestedElemAt, h1, h2, go_pure]
  rw [if_neg (by omega)]
  by_cases hc : m.data.length < t + i * 4 + 4
  · rw [if_pos (by omega), Message.follow_of_gt hc, Message.pointeeView]
  rw [if_neg (by omega), Message.uintAt_of_le (by omega), go_bind_ok, int64_follow (by omega) (by omega)]
  by_cases h0 : int32 (m.uintAt 4 (t + i * 4)) = 0
  · rw [if_pos h0, Message.follow_null h0, Message.pointeeView]
  rw [if_neg h0]
  by_cases hr : ((t + i * 4 : Nat) : Int) + int32 (m.uintAt 4 (t + i * 4)) < headerSize ∨
      ((t + i * 4 : Nat) : Int) + int32 (m.uintAt 4 (t + i * 4)) ≥ m.data.length
  · have hb := int32_bounds (m.uintAt 4 (t + i * 4))
    rw [Message.follow_outside hr, Message.pointeeView]
    generalize ((t + i * 4 : Nat) : Int) + int32 (m.uintAt 4 (t + i * 4)) = target at *
    -- past the end of the message the end of the element is past it too, or has wrapped
    have hstop : target ≥ m.data.length →
        int64 (target + s.size) > m.data.length ∨ int64 (target + s.size) < target := by
      unfold int64
      omega
    rw [if_pos (hr.imp_right hstop)]
  · obtain ⟨u, hu, habs⟩ := Message.follow_inside h0 hr
    have hin := Message.follow_some hu
    rw [hu, ← habs, Message.pointeeView, Message.viewAt]
    by_cases hwrap : u + s.size < 2 ^ 63
    swap
    -- the end of the element has wrapped, and is in front of its start
    · have hstop : int64 ((u : Int) + s.size) < u := by
        unfold int64
        omega
      rw [if_pos (.inr (.inr hstop)), if_neg (by omega)]
    rw [int64_add hwrap]
    split_ifs with hx hy hy
    · omega
    · rfl
    · rw [slice_eval (by omega) hy, Nat.add_sub_cancel_left, go_bind_ok]
    · omega

/-- A pointer field before the start of the message is not refused: reading it faults. -/
theorem Object.negative {o : Object} (hm : o.msg = some m) (ho : -2 ^ 31 ≤ o.offset)
    (hneg : o.offset + f < 0) :
    o.object f = .error .outOfRange ∧ ∀ stride, o.listStride f stride = .error .outOfRange := by
  have hh : 16 ≤ m.data.length := m.header
  have h1 : int64 (o.offset + f) = o.offset + f := by rw [int64_id] <;> omega
  have h2 : int64 (o.offset + f + 4) = o.offset + f + 4 := by rw [int64_id] <;> omega
  have h3 : int64 (o.offset + f + 8) = o.offset + f + 8 := by rw [int64_id] <;> omega
  constructor
  · simp only [Object.object, hm, dataOf, go_bind_ok, h1, h2]
    rw [if_neg (by omega), readLE_outside (.inl hneg), go_bind_error]
  · intro stride
    simp only [Object.listStride, hm, dataOf, go_bind_ok, h1, h3]
    rw [if_neg (by omega), readLE_outside (.inl hneg), go_bind_error]

end Eval

end Zap.Wire
