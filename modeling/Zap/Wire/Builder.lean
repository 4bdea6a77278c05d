/-
# Zap.Wire.Builder — the message builder: `Builder`, `ObjectBuilder`, `ListBuilder`.

A builder owns a buffer and a cursor: the bytes before the cursor are the message so far, the bytes behind
it are whatever an earlier message left there. Every call either moves the cursor over bytes it writes
(`extend`) or patches bytes at a position (`patch`); growing the buffer is part of the first and keeps only
what is before the cursor.

A handle of an object carries the fact that it starts behind the header, so a program cannot name a position
inside it. A program of calls sees the positions the calls return and may choose later calls by them.
-/
import Zap.Lib.Buffer
import Zap.Lib.Prog
import Zap.Wire.Message

namespace Zap.Wire

open Zap.Lib

/-! ## The builder -/

/-- `Builder`: the cursor is behind the header and inside the buffer. -/
@[ext]
structure Builder where
  buf : List UInt8
  pos : Nat
  rootOffset : Nat
  past_header : headerSize ≤ pos
  fits : pos ≤ buf.length

abbrev alignment : Nat := 8

/-- The buffer `newBuilder` allocates: the magic and the version in front of zeros. -/
def freshBuffer (capacity version : Nat) : List UInt8 :=
  overwrite (overwrite (List.replicate capacity 0) 0 magic) 4 (le 2 version)

theorem freshBuffer_length {capacity : Nat} (version : Nat) (h : headerSize ≤ capacity) :
    (freshBuffer capacity version).length = capacity := by
  have h16 : headerSize = 16 := rfl
  have hm : magic.length = 4 := rfl
  have h1 : (overwrite (List.replicate capacity 0) 0 magic).length = capacity := by
    rw [overwrite_length, List.length_replicate]
    rw [List.length_replicate]
    omega
  rw [freshBuffer, overwrite_length, h1]
  rw [h1, le_length]
  omega

def newBuilder (capacity version : Nat) : Builder where
  buf := freshBuffer (if capacity < headerSize then 256 else capacity) version
  pos := headerSize
  rootOffset := 0
  past_header := Nat.le_refl _
  fits := by
    rw [freshBuffer_length]
    all_goals
      have h16 : headerSize = 16 := rfl
      split_ifs <;> omega

namespace Builder

/-- `Builder.Reset`: the header bytes stay as they are. -/
def reset (b : Builder) : Builder where
  buf := b.buf
  pos := headerSize
  rootOffset := 0
  past_header := Nat.le_refl _
  fits := Nat.le_trans b.past_header b.fits

def grownCap (b : Builder) (n : Nat) : Nat := if b.buf.length * 2 < b.pos + n then b.pos + n else b.buf.length * 2

def grow (b : Builder) (n : Nat) : Builder :=
  if b.pos + n ≤ b.buf.length then b
  else
    { b with
      buf := b.buf.take b.pos ++ List.replicate (b.grownCap n - b.pos) 0
      fits := by
        have := b.fits
        simp only [List.length_append, List.length_take, List.length_replicate]
        omega }

theorem grow_room (b : Builder) (n : Nat) : b.pos + n ≤ (b.grow n).buf.length := by
  unfold grow
  split_ifs with h
  · exact h
  · have := b.fits
    simp only [List.length_append, List.length_take, List.length_replicate, grownCap]
    split_ifs <;> omega

theorem grow_getElem? (b : Builder) (n : Nat) {k : Nat} (hk : k < b.pos) : (b.grow n).buf[k]? = b.buf[k]? := by
  have := b.fits
  unfold grow
  split_ifs
  · rfl
  · simp only
    rw [List.getElem?_append_left (by rw [List.length_take]; omega), List.getElem?_take_of_lt hk]

/-- Grow the buffer, write behind the cursor and move the cursor over what was written: what `align`,
`ensureField`, `SetBytes`, `WriteBytes` and the `Add` calls do. -/
def extend (b : Builder) (bs : List UInt8) : Builder where
  buf := overwrite (b.grow bs.length).buf b.pos bs
  pos := b.pos + bs.length
  rootOffset := b.rootOffset
  past_header := Nat.le_trans b.past_header (Nat.le_add_right _ _)
  fits := by
    rw [overwrite_length (b.grow_room _)]
    exact b.grow_room _

/-- `copy(b.buf[i:], bs)` or `PutUintN(b.buf[i:], v)`: a write at a position, which faults past the end of
the buffer. -/
def patch (b : Builder) (i : Nat) (bs : List UInt8) : Go Builder :=
  if h : i + bs.length ≤ b.buf.length then
    .ok { b with
      buf := overwrite b.buf i bs
      fits := by
        rw [overwrite_length h]
        exact b.fits }
  else .error .outOfRange

def align (b : Builder) (a : Nat) : Builder := b.extend (List.replicate ((a - b.pos % a) % a) 0)

/-- The bytes `Finish` writes into the header, and the message it returns. -/
def finishBuffer (b : Builder) : List UInt8 := overwrite (overwrite b.buf 8 (le 4 b.rootOffset)) 12 (le 4 b.pos)

theorem finishBuffer_length (b : Builder) : b.finishBuffer.length = b.buf.length := by
  have h16 : headerSize = 16 := rfl
  have h1 := b.past_header
  have h2 := b.fits
  have h3 : (overwrite b.buf 8 (le 4 b.rootOffset)).length = b.buf.length := by
    rw [overwrite_length]
    rw [le_length]
    omega
  rw [finishBuffer, overwrite_length, h3]
  rw [h3, le_length]
  omega

def finish (b : Builder) : List UInt8 × Builder :=
  (b.finishBuffer.take b.pos, { b with
    buf := b.finishBuffer
    fits := by
      rw [b.finishBuffer_length]
      exact b.fits })

/-- `binary.LittleEndian.PutUint16(b.buf[6:8], flags)` -/
def putFlags (b : Builder) (flags : Nat) : Builder :=
  { b with
    buf := overwrite b.buf 6 (le 2 flags)
    fits := by
      have h16 : headerSize = 16 := rfl
      have h1 := b.past_header
      have h2 := b.fits
      rw [overwrite_length]
      · exact h2
      · rw [le_length]
        omega }

def finishWithFlags (b : Builder) (flags : Nat) : List UInt8 × Builder := (b.putFlags flags).finish

end Builder

/-! ## Objects and lists -/

/-- `ObjectBuilder`, without the builder it belongs to. -/
structure ObjectBuilder where
  startPos : Nat
  dataSize : Nat
  past_header : headerSize ≤ startPos

/-- `ListBuilder`, without the builder it belongs to. -/
structure ListBuilder where
  startPos : Nat
  count : Nat

inductive Width
  | w8
  | w16
  | w32
  | w64

def Width.bytes : Width → Nat
  | .w8 => 1
  | .w16 => 2
  | .w32 => 4
  | .w64 => 8

/-- The word that stores the displacement from a position to a target: `uint32(int32(target - base))`. -/
def relWord (target base : Nat) : List UInt8 := le 4 ((((target : Int) - base) % 2 ^ 32).toNat)

@[simp]
theorem relWord_length (target base : Nat) : (relWord target base).length = 4 := le_length 4 _

namespace Builder

def ensureField (b : Builder) (ob : ObjectBuilder) (endOffset : Nat) : Builder :=
  if ob.startPos + endOffset > b.pos then
    b.extend (List.replicate (ob.startPos + endOffset - b.pos) 0)
  else b

def startObject (b : Builder) (dataSize : Nat) : ObjectBuilder × Builder :=
  let b := b.align alignment
  let ob : ObjectBuilder := ⟨b.pos, dataSize, b.past_header⟩
  (ob, b.ensureField ob dataSize)

/-- `SetUint8`, `SetUint16`, `SetUint32` and `SetUint64`, by their width. -/
def setUint (b : Builder) (w : Width) (ob : ObjectBuilder) (fieldOffset v : Nat) : Go Builder :=
  (b.ensureField ob (fieldOffset + w.bytes)).patch (ob.startPos + fieldOffset) (le w.bytes v)

def setBytesFixed (b : Builder) (ob : ObjectBuilder) (fieldOffset : Nat) (v : List UInt8) : Go Builder :=
  if v.length = 0 then .ok b
  else (b.ensureField ob (fieldOffset + v.length)).patch (ob.startPos + fieldOffset) v

/-- `SetBytes`. Nothing reserves the field: the object's fixed section is expected to hold it. -/
def setBytes (b : Builder) (ob : ObjectBuilder) (fieldOffset : Nat) (v : List UInt8) : Go Builder :=
  if v.length = 0 then do
    let b ← b.patch (ob.startPos + fieldOffset) (le 4 0)
    b.patch (ob.startPos + fieldOffset + 4) (le 4 0)
  else do
    let dataPos := b.pos
    let fieldAbsPos := ob.startPos + fieldOffset
    let b ← (b.extend v).patch fieldAbsPos (relWord dataPos fieldAbsPos)
    b.patch (fieldAbsPos + 4) (le 4 v.length)

def setObject (b : Builder) (ob : ObjectBuilder) (fieldOffset objOffset : Nat) : Go Builder :=
  let b := b.ensureField ob (fieldOffset + 4)
  if objOffset = 0 then b.patch (ob.startPos + fieldOffset) (le 4 0)
  else b.patch (ob.startPos + fieldOffset) (relWord objOffset (ob.startPos + fieldOffset))

def setList (b : Builder) (ob : ObjectBuilder) (fieldOffset listOffset length : Nat) : Go Builder := do
  let b := b.ensureField ob (fieldOffset + 8)
  if listOffset = 0 ∨ length = 0 then
    let b ← b.patch (ob.startPos + fieldOffset) (le 4 0)
    b.patch (ob.startPos + fieldOffset + 4) (le 4 0)
  else
    let b ← b.patch (ob.startPos + fieldOffset) (relWord listOffset (ob.startPos + fieldOffset))
    b.patch (ob.startPos + fieldOffset + 4) (le 4 length)

def finishAsRoot (b : Builder) (ob : ObjectBuilder) : Builder := { b with rootOffset := ob.startPos }

def writeBytes (b : Builder) (data : List UInt8) : Nat × Builder :=
  if data.length = 0 then (0, b)
  else
    let b := b.align alignment
    (b.pos, b.extend data)

def startList (b : Builder) : ListBuilder × Builder :=
  let b := b.align alignment
  (⟨b.pos, 0⟩, b)

/-- `AddUint8`, `AddUint32` and `AddUint64`, by their width. -/
def addUint (b : Builder) (w : Width) (lb : ListBuilder) (v : Nat) : ListBuilder × Builder :=
  ({ lb with count := lb.count + 1 }, b.extend (le w.bytes v))

def addBytes (b : Builder) (lb : ListBuilder) (data : List UInt8) : ListBuilder × Builder :=
  ({ lb with count := lb.count + data.length }, b.extend data)

def addObjectPtr (b : Builder) (lb : ListBuilder) (targetPos : Nat) : ListBuilder × Builder :=
  ({ lb with count := lb.count + 1 }, b.extend (if targetPos = 0 then le 4 0 else relWord targetPos b.pos))

end Builder

/-! ## Build programs -/

inductive BuildReq
  | startObject (dataSize : Nat)
  | setUint (w : Width) (ob : ObjectBuilder) (fieldOffset v : Nat)
  | setBytesFixed (ob : ObjectBuilder) (fieldOffset : Nat) (v : List UInt8)
  | setBytes (ob : ObjectBuilder) (fieldOffset : Nat) (v : List UInt8)
  | setObject (ob : ObjectBuilder) (fieldOffset objOffset : Nat)
  | setList (ob : ObjectBuilder) (fieldOffset listOffset length : Nat)
  | reserveFixed (ob : ObjectBuilder) (dataSize : Nat)
  | finishAsRoot (ob : ObjectBuilder)
  | writeBytes (data : List UInt8)
  | startList
  | addUint (w : Width) (lb : ListBuilder) (v : Nat)
  | addBytes (lb : ListBuilder) (data : List UInt8)
  | addObjectPtr (lb : ListBuilder) (targetPos : Nat)

@[reducible]
def BuildReq.Resp : BuildReq → Type
  | .startObject _ => ObjectBuilder
  | .writeBytes _ => Nat
  | .startList | .addUint .. | .addBytes .. | .addObjectPtr .. => ListBuilder
  | _ => Unit

def buildSig : Sig := ⟨BuildReq, BuildReq.Resp⟩

abbrev Build := Prog buildSig

def Builder.answer (b : Builder) : (r : BuildReq) → Go (r.Resp × Builder)
  | .startObject n => .ok (b.startObject n)
  | .setUint w ob f v => do return ((), ← b.setUint w ob f v)
  | .setBytesFixed ob f v => do return ((), ← b.setBytesFixed ob f v)
  | .setBytes ob f v => do return ((), ← b.setBytes ob f v)
  | .setObject ob f off => do return ((), ← b.setObject ob f off)
  | .setList ob f off n => do return ((), ← b.setList ob f off n)
  | .reserveFixed ob n => .ok ((), b.ensureField ob n)
  | .finishAsRoot ob => .ok ((), b.finishAsRoot ob)
  | .writeBytes d => .ok (b.writeBytes d)
  | .startList => .ok b.startList
  | .addUint w lb v => .ok (b.addUint w lb v)
  | .addBytes lb d => .ok (b.addBytes lb d)
  | .addObjectPtr lb t => .ok (b.addObjectPtr lb t)

def Builder.run {α : Type} : Build α → Builder → Go (α × Builder)
  | .ret a, b => .ok (a, b)
  | .ask r k, b => do
    let x ← b.answer r
    Builder.run (k x.1) x.2

theorem Builder.run_bind {α β : Type} (p : Build α) (q : α → Build β) (b : Builder) :
    Builder.run (p >>= q) b = (Builder.run p b >>= fun x => Builder.run (q x.1) x.2) := by
  induction p generalizing b with
  | ret a => rfl
  | ask r k ih =>
    change (b.answer r >>= fun x => Builder.run ((k x.1).bind q) x.2) = _
    simp only [Builder.run]
    cases h : b.answer r with
    | error e => rfl
    | ok x => exact ih x.1 x.2

theorem Builder.run_request (r : BuildReq) (b : Builder) :
    Builder.run (Prog.request (S := buildSig) r) b = b.answer r := by
  simp only [Prog.request, Builder.run]
  cases b.answer r <;> rfl

/-! ## The bytes before the cursor -/

namespace Builder

/-- The message so far: the header as it stands, and everything written behind it. -/
def written (b : Builder) : List UInt8 := b.buf.take b.pos

@[simp]
theorem written_length (b : Builder) : b.written.length = b.pos := by
  have := b.fits
  rw [written, List.length_take]
  omega

theorem written_getElem? (b : Builder) {k : Nat} (hk : k < b.pos) : b.written[k]? = b.buf[k]? :=
  List.getElem?_take_of_lt hk

/-- Every byte the cursor passes was written by the call that moved it. -/
theorem extend_getElem? (b : Builder) (bs : List UInt8) {k : Nat} (hk : k < b.pos + bs.length) :
    (b.extend bs).buf[k]? = if k < b.pos then b.buf[k]? else bs[k - b.pos]? := by
  simp only [extend]
  rw [overwrite_getElem? (b.grow_room _)]
  split_ifs with h1 h2 h2
  · omega
  · rfl
  · exact b.grow_getElem? _ h2
  · omega

theorem written_extend (b : Builder) (bs : List UInt8) : (b.extend bs).written = b.written ++ bs := by
  apply List.ext_getElem?
  intro k
  by_cases hk : k < b.pos + bs.length
  · rw [written_getElem? _ hk, extend_getElem? b bs hk]
    split_ifs with h
    · rw [List.getElem?_append_left (by rw [written_length]; exact h), written_getElem? b h]
    · rw [List.getElem?_append_right (by rw [written_length]; omega), written_length]
  · rw [List.getElem?_eq_none, List.getElem?_eq_none]
    · rw [List.length_append, written_length]
      omega
    · rw [written_length]
      exact Nat.not_lt.mp hk

@[simp]
theorem extend_pos (b : Builder) (bs : List UInt8) : (b.extend bs).pos = b.pos + bs.length := rfl

theorem written_align (b : Builder) (a : Nat) :
    (b.align a).written = b.written ++ List.replicate ((a - b.pos % a) % a) 0 :=
  written_extend _ _

/-- A write inside what is already there patches it in place. -/
theorem patch_ok (b : Builder) (i : Nat) (bs : List UInt8) (h : i + bs.length ≤ b.pos) :
    ∃ b', b.patch i bs = .ok b' ∧ b'.pos = b.pos ∧ b'.rootOffset = b.rootOffset ∧
      b'.written = overwrite b.written i bs := by
  have hfit := b.fits
  refine ⟨_, dif_pos (by omega), rfl, rfl, ?_⟩
  apply List.ext_getElem?
  intro k
  rw [overwrite_getElem? (by rw [written_length]; exact h)]
  simp only [written]
  by_cases hk : k < b.pos
  · rw [List.getElem?_take_of_lt hk, overwrite_getElem? (by omega), List.getElem?_take_of_lt hk]
  · rw [List.getElem?_take_eq_none (by omega), if_neg (by omega), List.getElem?_take_eq_none (by omega)]

theorem patch_twice_ok (b : Builder) (i : Nat) (bs cs : List UInt8)
    (h : i + (bs.length + cs.length) ≤ b.pos) :
    ∃ b', (b.patch i bs >>= fun d => d.patch (i + bs.length) cs) = .ok b' ∧ b'.pos = b.pos ∧
      b'.rootOffset = b.rootOffset ∧ b'.written = overwrite b.written i (bs ++ cs) := by
  obtain ⟨b1, hb1, hpos1, hroot1, hw1⟩ := b.patch_ok i bs (by omega)
  obtain ⟨b2, hb2, hpos2, hroot2, hw2⟩ := b1.patch_ok (i + bs.length) cs (by omega)
  have hlen := b.written_length
  refine ⟨b2, by rw [hb1, go_bind_ok, hb2], by omega, by omega, ?_⟩
  rw [hw2, hw1]
  apply List.ext_getElem?
  intro k
  rw [overwrite_getElem? (by rw [overwrite_length] <;> omega), overwrite_getElem? (by omega),
    overwrite_getElem? (by rw [List.length_append]; omega), List.length_append]
  split_ifs with h1 h2 h3 h4 <;> first | omega | rfl | skip
  · rw [List.getElem?_append_right (by omega)]
    congr 1
    omega
  · rw [List.getElem?_append_left (by omega)]

theorem ensureField_reserves (b : Builder) (ob : ObjectBuilder) (n : Nat) :
    ob.startPos + n ≤ (b.ensureField ob n).pos := by
  unfold ensureField
  split_ifs with h
  · rw [extend_pos, List.length_replicate]
    omega
  · omega

theorem ensureField_of_le {b : Builder} {ob : ObjectBuilder} {n : Nat} (h : ob.startPos + n ≤ b.pos) :
    b.ensureField ob n = b := if_neg (by omega)

end Builder

end Zap.Wire
