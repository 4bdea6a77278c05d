/-
# Zap.Wire.Envelope — a message of one object with its type in the flags.

The packages above the wire format all build their messages alike: one object, its setters in a row, the
object finished as the root, the message type in the upper byte of the flags, and the bytes parsed once
more. `envelope` is that body; a codec is then a list of fields. `envelope_reads` is all a codec needs:
plain well-formed fields within the size bound come back, field by field, and the flags with them.
-/
import Zap.Wire.RoundTrip

namespace Zap.Wire

open Zap.Lib

/-! ## The common body -/

/-- One object of `size` bytes with its fields set in order, finished as the root with `flags`, parsed. -/
def envelope (capacity size : Nat) (fs : Fields) (flags : Nat) : Go (Except WireError Message) := do
  let x ← Builder.run (Tree.node size fs).parentFirst (newBuilder capacity version2)
  return parse (x.2.finishWithFlags flags).1

/-! ## What comes back -/

variable {m : Message} {b : Builder} {H : Heap} {size n : Nat} {x : List UInt8}

theorem parse_data {bytes : List UInt8} (h : parse bytes = .ok m) : parse m.data = .ok m := by
  obtain ⟨hlen, hmagic, hver, hge, hle, hdata⟩ := parse_ok_iff.mp h
  have hsize := parse_length h
  have hdecl : declaredSize m.data = m.data.length := by
    rw [declaredSize, parse_window h (by decide), hsize, declaredSize]
  rw [parse_ok_iff, parse_window h (by decide), parse_window h (by decide), hdecl]
  exact ⟨by omega, hmagic, hver, by omega, Nat.le_refl _, (List.take_length).symm⟩

theorem Builder.finish_length (b : Builder) : b.finish.1.length = b.pos := by
  rw [Builder.finish, List.length_take, b.finishBuffer_length]
  exact Nat.min_eq_left b.fits

/-- A plain object: where it starts, where it ends, and what the record holds there. -/
theorem makes_plain (hA : Assembles H b) {fs : Fields} (hwf : (Tree.node size fs).WF) (hplain : fs.Plain) :
    Makes b H (buildObject size (fs.write size)) (Slot.Behind b.pos) fun ob b' H' =>
      b'.pos = b.pos + b.padding.length + size + fs.tail ∧ (Tree.node size fs).Holds H' ob.startPos := by
  refine (makes_buildObject hA hwf.1 (G := fun ob b' H' =>
    b'.pos = b.pos + b.padding.length + size + fs.tail ∧ (Tree.node size fs).Holds H' ob.startPos) ?_).mono
      (fun _ hx => hx) fun _ _ _ _ h => h.2
  intro ob b1 H1 hst
  obtain ⟨x, b2, H2, hrun, hA2, hle, hadds, ht⟩ := Tree.write_makes (.node size fs) hwf hst
  have hpos := plain_write_pos hplain hwf.2 (Nat.le_of_eq hst.stop.symm) hrun
  refine ⟨x, b2, H2, hrun, hA2, hle, hadds, ?_, ht⟩
  rw [hpos, hst.stop, hst.start]

/-- Plain fields have no signed pointers: the reader sees them in a message of any length. -/
theorem Fields.reads_of_plain (hrep : Rep H headerSize m.data) (hlen : m.data.length < 2 ^ 32) {a : Nat}
    (hsize : a + size ≤ m.data.length) :
    ∀ {fs : Fields}, fs.Plain → fs.WF size → fs.Holds H a → fs.Reads m size a
  | .nil, _, _, _ => trivial
  | .cons _ (.scalar _ _) _, hplain, ⟨hf, hoff, _, hrest⟩, ⟨h, hr⟩ =>
    ⟨scalar_reads hrep hlen hsize hoff hf h, reads_of_plain hrep hlen hsize hplain hrest hr⟩
  | .cons _ (.fixed _) _, hplain, ⟨hf, _, _, hrest⟩, ⟨h, hr⟩ =>
    ⟨fixed_reads hrep hlen hf h, reads_of_plain hrep hlen hsize hplain hrest hr⟩
  | .cons _ (.bytes _) _, hplain, ⟨_, hoff, _, hrest⟩, ⟨h, hr⟩ =>
    ⟨bytes_reads hrep hlen hsize hoff h, reads_of_plain hrep hlen hsize hplain hrest hr⟩

section Plain

variable {size : Nat} {fs : Fields}

/-- A plain object as the root of a fresh builder: where the builder stops, and what the record holds. -/
theorem parentFirst_plain (capacity : Nat) (hwf : (Tree.node size fs).WF) (hplain : fs.Plain) :
    ∃ ob b H, Builder.run (Tree.node size fs).parentFirst (newBuilder capacity version2) = .ok (ob, b) ∧
      Assembles H b ∧ b.pos = headerSize + size + fs.tail ∧ (Tree.node size fs).Holds H b.rootOffset := by
  have hnew : Assembles .empty (newBuilder capacity version2) := .new capacity (.inr rfl)
  have hpos0 : (newBuilder capacity version2).pos = headerSize := rfl
  have hpad : (newBuilder capacity version2).padding.length = 0 := by
    rw [Builder.padding, List.length_replicate, hpos0]
    rfl
  obtain ⟨ob, b, H, hrun, hA, hpos, ht⟩ := makes_root (makes_plain hnew hwf hplain)
  rw [hpos0, hpad, Nat.add_zero] at hpos
  exact ⟨ob, b.finishAsRoot ob, H, hrun, hA, hpos, ht⟩

theorem reads_at_root (hwf : (Tree.node size fs).WF) (hplain : fs.Plain) (hA : Assembles H b)
    (ht : (Tree.node size fs).Holds H b.rootOffset) (hsize : b.pos < 2 ^ 32) (hlen : m.data.length = b.pos)
    (hroot : m.rootOffset = b.rootOffset % 2 ^ 32) (hrep : Rep H headerSize m.data) : fs.Reads m size m.rootOffset := by
  have hsec := assembles_section hA ht.section
  rw [Nat.mod_eq_of_lt (by omega)] at hroot
  rw [hroot]
  exact Fields.reads_of_plain hrep (by omega) (hrep.section_in _ ht.section).2.2 hplain hwf.2 ht.2

/-- **An object of plain fields comes back** from the bytes of `Finish`. -/
theorem finish_reads (capacity : Nat) (hwf : (Tree.node size fs).WF) (hplain : fs.Plain)
    (hsize : headerSize + size + fs.tail < 2 ^ 32) :
    ∃ ob b m, Builder.run (Tree.node size fs).parentFirst (newBuilder capacity version2) = .ok (ob, b) ∧
      parse b.finish.1 = .ok m ∧ b.finish.1.length = headerSize + size + fs.tail ∧
      fs.Reads m size m.rootOffset := by
  obtain ⟨ob, b, H, hrun, hA, hpos, ht⟩ := parentFirst_plain capacity hwf hplain
  obtain ⟨m, hparse, hlen, hroot, hrep⟩ := assembles_parses hA (by omega)
  exact ⟨ob, b, m, hrun, hparse, by rw [← hpos]; exact b.finish_length,
    reads_at_root hwf hplain hA ht (by omega) hlen hroot hrep⟩

theorem envelope_reads (capacity flags : Nat) (hwf : (Tree.node size fs).WF) (hplain : fs.Plain)
    (hsize : headerSize + size + fs.tail < 2 ^ 32) :
    ∃ m, envelope capacity size fs flags = .ok (.ok m) ∧ parse m.data = .ok m ∧
      m.flags = flags % 2 ^ 16 ∧ fs.Reads m size m.rootOffset := by
  obtain ⟨ob, b, H, hrun, hA, hpos, ht⟩ := parentFirst_plain capacity hwf hplain
  obtain ⟨m, hparse, hlen, hflags, hroot, hrep⟩ := assembles_parses_flags hA (by omega) flags
  refine ⟨m, ?_, parse_data hparse, hflags, reads_at_root hwf hplain hA ht (by omega) hlen hroot hrep⟩
  rw [envelope, hrun, go_bind_ok, go_pure, hparse]

/-- Whatever its size, an envelope that parses has the flags it was finished with, and the size modulo the
word that holds it. -/
theorem envelope_head {capacity flags : Nat} (hwf : (Tree.node size fs).WF) (hplain : fs.Plain)
    (h : envelope capacity size fs flags = .ok (.ok m)) :
    m.flags = flags % 2 ^ 16 ∧ m.data.length = (headerSize + size + fs.tail) % 2 ^ 32 := by
  obtain ⟨ob, b, H, hrun, hA, hpos, -⟩ := parentFirst_plain capacity hwf hplain
  rw [envelope, hrun, go_bind_ok, go_pure, Except.ok.injEq] at h
  obtain ⟨v, -, hhead⟩ := assembles_head hA
  have hbytes := finish_bytes (putFlags_head hhead flags)
  have hfields := header_fields v flags (b.putFlags flags).rootOffset (b.putFlags flags).pos
    ((b.putFlags flags).written.drop headerSize)
  constructor
  · rw [Message.flags, parse_window h (by decide), Builder.finishWithFlags, hbytes, hfields.2.2.1, ofLE_le]
    rfl
  · rw [parse_length h, declaredSize, Builder.finishWithFlags, hbytes, hfields.2.2.2.2, ofLE_le, ← hpos]
    rfl

end Plain

/-! ## Fields of a message -/

/-- `copy(a[:], o.BytesFixedSlice(off, n))` into a zeroed array. -/
def array (n : Nat) (o : Object) (off : Nat) : Go (Arr n) := do
  return .copy n (spanBytes (← o.bytesFixedSlice off n))

def u8 (o : Object) (off : Nat) : Go UInt8 := do
  return .ofNat (← o.uint8 off)

def u32 (o : Object) (off : Nat) : Go UInt32 := do
  return .ofNat (← o.uint32 off)

def u64 (o : Object) (off : Nat) : Go UInt64 := do
  return .ofNat (← o.uint64 off)

def bytes (o : Object) (off : Nat) : Go (List UInt8) := do
  return spanBytes (← o.bytes off)

def bool (o : Object) (off : Nat) : Go Bool := o.bool off

section Reads

variable {m : Message} {size a off : Nat}

theorem array_of_reads {x : Arr n} (h : (Field.fixed x.bytes).Reads m size a off) :
    array n (m.objectAt a) off = .ok x := by
  simp only [Field.Reads, Arr.len] at h
  rw [array, h, go_bind_ok, go_pure, spanBytes, Arr.copy_self]

theorem u8_of_reads {x : UInt8} (h : (Field.scalar .w8 x.toNat).Reads m size a off) :
    u8 (m.objectAt a) off = .ok x := by
  rw [u8, show (m.objectAt a).uint8 off = .ok x.toNat from h.1, go_bind_ok, go_pure, UInt8.ofNat_toNat]

theorem u32_of_reads {x : UInt32} (h : (Field.scalar .w32 x.toNat).Reads m size a off) :
    u32 (m.objectAt a) off = .ok x := by
  rw [u32, show (m.objectAt a).uint32 off = .ok x.toNat from h.1, go_bind_ok, go_pure, UInt32.ofNat_toNat]

theorem u64_of_reads {x : UInt64} (h : (Field.scalar .w64 x.toNat).Reads m size a off) :
    u64 (m.objectAt a) off = .ok x := by
  rw [u64, show (m.objectAt a).uint64 off = .ok x.toNat from h.1, go_bind_ok, go_pure, UInt64.ofNat_toNat]

theorem bool_of_reads {x : Bool} (h : (Field.scalar .w8 x.toNat).Reads m size a off) :
    bool (m.objectAt a) off = .ok x := by
  rw [bool, Object.bool, show (m.objectAt a).uint8 off = .ok x.toNat from h.1, go_bind_ok, go_pure]
  cases x <;> rfl

theorem bytes_of_reads (h : (Field.bytes x).Reads m size a off) : bytes (m.objectAt a) off = .ok x := by
  obtain ⟨s, hs, -, hx⟩ := h
  rw [bytes, hs, go_bind_ok, go_pure, hx]

end Reads

/-! A field near the root of any message reads as something: short reads give zeros. -/

theorem go_bind_total {α β : Type} {x : Go α} {f : α → Go β} (hx : ∃ a, x = .ok a)
    (hf : ∀ a, ∃ b, f a = .ok b) : ∃ b, (x >>= f) = .ok b := by
  obtain ⟨a, rfl⟩ := hx
  exact hf a

theorem spanBytes_length_le {d : List UInt8} {s : Option Span} (h : ∀ x, s = some x → x.Inside d) :
    (spanBytes s).length ≤ d.length := by
  cases s with
  | none => exact Nat.zero_le _
  | some x =>
    have := (h x rfl).1
    show x.bytes.length ≤ d.length
    omega

section Total

variable (m : Message) {off : Nat} (hoff : off < 2 ^ 31)

include hoff

theorem array_total (n : Nat) (hn : n < 2 ^ 31) : ∃ x, array n m.root off = .ok x := by
  have hroot := m.rootOffset_lt
  cases n with
  | zero => exact ⟨_, rfl⟩
  | succ n =>
    have hb := Object.bytesFixedSlice_eval (m := m) (a := m.rootOffset) (f := off) (n := n + 1)
      n.succ_pos (by omega)
    rw [array, Message.root, hb]
    split_ifs <;> exact ⟨_, rfl⟩

theorem bool_total : ∃ x, bool m.root off = .ok x := by
  have hroot := m.rootOffset_lt
  rw [bool, Object.bool, Message.root, Object.uint8_eval (by omega)]
  exact ⟨_, rfl⟩

theorem u32_total : ∃ x, u32 m.root off = .ok x := by
  have hroot := m.rootOffset_lt
  rw [u32, Object.uint32, Message.root, Object.uint_eval (by decide) (by omega)]
  exact ⟨_, rfl⟩

theorem u64_total : ∃ x, u64 m.root off = .ok x := by
  have hroot := m.rootOffset_lt
  rw [u64, Object.uint64, Message.root, Object.uint_eval (by decide) (by omega)]
  exact ⟨_, rfl⟩

theorem bytes_total (hlen : m.data.length < 2 ^ 32) :
    ∃ x, bytes m.root off = .ok x ∧ x.length ≤ m.data.length := by
  have hroot := m.rootOffset_lt
  have hb := Object.bytes_eval (m := m) (a := m.rootOffset) (f := off) (by omega) (by omega)
  refine ⟨spanBytes (m.bytesAt (m.rootOffset + off)), ?_, ?_⟩
  · simp only [bytes, Message.root, hb, go_bind_ok, go_pure]
  · exact spanBytes_length_le fun s hs => (Message.bytesAt_some hs).2

/-- What is read through a pointer lies behind the pointer. -/
theorem bytes_le (hlen : m.data.length < 2 ^ 32) (h : bytes m.root off = .ok x) : x.length ≤ m.data.length - off := by
  have hroot := m.rootOffset_lt
  have hb := Object.bytes_eval (m := m) (a := m.rootOffset) (f := off) (by omega) (by omega)
  simp only [bytes, Message.root, hb, go_bind_ok, go_pure] at h
  cases h
  cases hs : m.bytesAt (m.rootOffset + off) with
  | none => exact Nat.zero_le _
  | some s =>
    have hbehind := Message.bytesAt_behind hs
    show s.bytes.length ≤ _
    omega

theorem text_total (hlen : m.data.length < 2 ^ 32) :
    ∃ x, m.root.text off = .ok x ∧ (spanBytes x).length ≤ m.data.length := by
  have hroot := m.rootOffset_lt
  refine ⟨_, Object.text_eval (by omega) (by omega), spanBytes_length_le fun s hs => ?_⟩
  exact (Message.bytesAt_some (Option.filter_eq_some_iff.mp hs).1).2

theorem text_le (hlen : m.data.length < 2 ^ 32) {x : Option Span} (h : m.root.text off = .ok x) :
    (spanBytes x).length ≤ m.data.length := by
  obtain ⟨y, hy, hle⟩ := text_total m hoff hlen
  cases h.symm.trans hy
  exact hle

end Total

section Layout

@[simp]
theorem fixed_wf (x : Arr (n + 1)) : (Field.fixed x.bytes).WF :=
  List.ne_nil_of_length_pos (by rw [x.len]; exact Nat.succ_pos n)

@[simp]
theorem bytes_wf (x : List UInt8) : (Field.bytes x).WF := trivial

@[simp]
theorem scalar8_wf (x : UInt8) : (Field.scalar .w8 x.toNat).WF := x.toNat_lt

@[simp]
theorem scalar32_wf (x : UInt32) : (Field.scalar .w32 x.toNat).WF := x.toNat_lt

@[simp]
theorem scalar64_wf (x : UInt64) : (Field.scalar .w64 x.toNat).WF := x.toNat_lt

@[simp]
theorem bool_wf (b : Bool) : (Field.scalar .w8 b.toNat).WF := Nat.lt_of_le_of_lt b.toNat_le (by decide)

end Layout

/-- The built message parses, has the message type in its flags, and reads back as the value. -/
def Carries {α : Type} (build : Go (Except WireError Message)) (msgType : Nat) (read : Message → Go α)
    (x : α) : Prop :=
  ∃ m, build = .ok (.ok m) ∧ parse m.data = .ok m ∧ m.flags = msgType * 256 ∧ read m = .ok x

section Carries

variable {α : Type} {capacity size type : Nat} {fs : Fields} {read : Message → Go α} {x : α}

/-- A codec whose reader takes the fields where the writer has put them. -/
theorem envelope_carries (hwf : (Tree.node size fs).WF) (hplain : fs.Plain) (htype : type < 256)
    (hsize : headerSize + size + fs.tail < 2 ^ 32)
    (hread : ∀ m, fs.Reads m size m.rootOffset → read m = .ok x) :
    Carries (envelope capacity size fs (type <<< 8)) type read x := by
  obtain ⟨m, hm, hp, hf, hr⟩ := envelope_reads capacity (type <<< 8) hwf hplain hsize
  refine ⟨m, hm, hp, ?_, hread m hr⟩
  rw [hf, Nat.shiftLeft_eq]
  omega

/-- **The bound on a codec**: where the value cannot be longer than the message it is read from, it comes back
exactly if the whole message is below `2 ^ 32` bytes. -/
theorem envelope_carries_iff (hwf : (Tree.node size fs).WF) (hplain : fs.Plain) (htype : type < 256)
    (hsec : size < 2 ^ 31)
    (hread : headerSize + size + fs.tail < 2 ^ 32 → ∀ m, fs.Reads m size m.rootOffset → read m = .ok x)
    (htail : ∀ m, m.data.length < 2 ^ 32 → read m = .ok x → fs.tail ≤ m.data.length) :
    Carries (envelope capacity size fs (type <<< 8)) type read x ↔ headerSize + size + fs.tail < 2 ^ 32 := by
  refine ⟨?_, fun hsize => envelope_carries hwf hplain htype hsize (hread hsize)⟩
  rintro ⟨m, hm, hp, -, hr⟩
  have h16 : headerSize = 16 := rfl
  have hlen := (envelope_head hwf hplain hm).2
  have hle := htail m (parse_length_lt hp) hr
  omega

end Carries

end Zap.Wire
