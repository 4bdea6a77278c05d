/-
# Zap.Wire.Tree — trees of objects, in a heap of written facts and in a message.

A `Tree` is what a sender means: an object of some size with fields at offsets, and below it the objects
and lists its fields hold. The order of `Fields` is the order in which a writer sets them; it means
nothing else. `Tree.Holds H t a` says that a record of writes has `t` at position `a`; `Tree.Reads m t a`
says what a reader of the message sees there, through the accessors of `Object` and `List` and through the
views of `v1` alike.
-/
import Zap.Wire.Assembly
import Zap.Wire.View

namespace Zap.Wire

open Zap.Lib

/-! ## Trees -/

mutual

/-- An object: the size of its fixed section, and its fields. -/
inductive Tree
  | node (size : Nat) (fields : Fields)

inductive Fields
  | nil
  | cons (off : Nat) (f : Field) (rest : Fields)

/-- A scalar, an inline byte array, a byte string, an object, a list of scalars, a list of objects. -/
inductive Field
  | scalar (w : Width) (v : Nat)
  | fixed (bs : List UInt8)
  | bytes (bs : List UInt8)
  | object (t : Tree)
  | scalars (w : Width) (vs : List Nat)
  | objects (ts : Trees)

inductive Trees
  | nil
  | cons (t : Tree) (rest : Trees)

end

def Tree.size : Tree → Nat
  | .node size _ => size

def Tree.fields : Tree → Fields
  | .node _ fields => fields

def Trees.length : Trees → Nat
  | .nil => 0
  | .cons _ rest => rest.length + 1

def Field.width : Field → Nat
  | .scalar w _ => w.bytes
  | .fixed bs => bs.length
  | .object _ => 4
  | .bytes _ | .scalars _ _ | .objects _ => 8

def Fields.Clear (off n : Nat) : Fields → Prop
  | .nil => True
  | .cons off' f rest => Apart off n off' f.width ∧ rest.Clear off n

mutual

/-- Sections are not empty; fields lie inside the section, pairwise apart; scalars fit their width. -/
def Tree.WF : Tree → Prop
  | .node size fields => 0 < size ∧ fields.WF size

def Fields.WF (size : Nat) : Fields → Prop
  | .nil => True
  | .cons off f rest => f.WF ∧ off + f.width ≤ size ∧ rest.Clear off f.width ∧ rest.WF size

/-- Well-formed contents. There is no list of 16-bit scalars. -/
def Field.WF : Field → Prop
  | .scalar w v => v < 256 ^ w.bytes
  | .fixed bs => bs ≠ []
  | .bytes _ => True
  | .object t => t.WF
  | .scalars w vs => w ≠ .w16 ∧ ∀ v ∈ vs, v < 256 ^ w.bytes
  | .objects ts => ts.WF

def Trees.WF : Trees → Prop
  | .nil => True
  | .cons t rest => t.WF ∧ rest.WF

end

/-! ## A tree in a record of writes -/

mutual

/-- The record has the tree at a position. -/
def Tree.Holds (H : Heap) : Tree → Nat → Prop
  | .node size fields => fun a => (a, size) ∈ H.sections ∧ fields.Holds H a

def Fields.Holds (H : Heap) : Fields → Nat → Prop
  | .nil => fun _ => True
  | .cons off f rest => fun a => f.Holds H a off ∧ rest.Holds H a

def Field.Holds (H : Heap) : Field → Nat → Nat → Prop
  | .scalar w v => fun a off => ⟨a, off, le w.bytes v⟩ ∈ H.slots
  | .fixed bs => fun a off => ⟨a, off, bs⟩ ∈ H.slots
  | .bytes bs => fun a off =>
    bs = [] ∧ ⟨a, off, nullPair⟩ ∈ H.slots ∨
    bs ≠ [] ∧ ∃ p, a + off + 8 ≤ p ∧ ⟨a, off, pairWord p (a + off) bs.length⟩ ∈ H.slots ∧ (p, bs) ∈ H.frozen
  | .object t => fun a off =>
    ∃ p, p ≠ a + off ∧ ⟨a, off, relWord p (a + off)⟩ ∈ H.slots ∧ t.Holds H p
  | .scalars w vs => fun a off =>
    vs = [] ∧ ⟨a, off, nullPair⟩ ∈ H.slots ∨
    vs ≠ [] ∧ ∃ p, ⟨a, off, pairWord p (a + off) vs.length⟩ ∈ H.slots ∧ (p, scalarArray w vs) ∈ H.frozen
  | .objects ts => fun a off =>
    ts.length = 0 ∧ ⟨a, off, nullPair⟩ ∈ H.slots ∨
    ts.length ≠ 0 ∧ ∃ p ps, ⟨a, off, pairWord p (a + off) ts.length⟩ ∈ H.slots ∧
      (p, pointerArray p ps) ∈ H.frozen ∧ ts.Holds H ps

def Trees.Holds (H : Heap) : Trees → List Nat → Prop
  | .nil => fun ps => ps = []
  | .cons t rest => fun ps => ∃ p qs, ps = p :: qs ∧ t.Holds H p ∧ rest.Holds H qs

end

mutual

variable {H K : Heap}

theorem Tree.Holds.mono (h : H.Le K) :
    ∀ (t : Tree) {a : Nat}, t.Holds H a → t.Holds K a
  | .node _ fields, _, ⟨hs, hf⟩ => ⟨h.1 hs, Fields.Holds.mono h fields hf⟩

theorem Fields.Holds.mono (h : H.Le K) :
    ∀ (fs : Fields) {a : Nat}, fs.Holds H a → fs.Holds K a
  | .nil, _, _ => trivial
  | .cons _ f rest, _, ⟨hf, hr⟩ => ⟨Field.Holds.mono h f hf, Fields.Holds.mono h rest hr⟩

theorem Field.Holds.mono (h : H.Le K) :
    ∀ (f : Field) {a off : Nat}, f.Holds H a off → f.Holds K a off
  | .scalar _ _, _, _, hs => h.2.1 hs
  | .fixed _, _, _, hs => h.2.1 hs
  | .bytes _, _, _, .inl ⟨hn, hs⟩ => .inl ⟨hn, h.2.1 hs⟩
  | .bytes _, _, _, .inr ⟨hn, p, hp, hs, hf⟩ => .inr ⟨hn, p, hp, h.2.1 hs, h.2.2 hf⟩
  | .object t, _, _, ⟨p, hp, hs, ht⟩ => ⟨p, hp, h.2.1 hs, Tree.Holds.mono h t ht⟩
  | .scalars _ _, _, _, .inl ⟨hn, hs⟩ => .inl ⟨hn, h.2.1 hs⟩
  | .scalars _ _, _, _, .inr ⟨hn, p, hs, hf⟩ => .inr ⟨hn, p, h.2.1 hs, h.2.2 hf⟩
  | .objects _, _, _, .inl ⟨hn, hs⟩ => .inl ⟨hn, h.2.1 hs⟩
  | .objects ts, _, _, .inr ⟨hn, p, ps, hs, hf, ht⟩ =>
    .inr ⟨hn, p, ps, h.2.1 hs, h.2.2 hf, Trees.Holds.mono h ts ht⟩

theorem Trees.Holds.mono (h : H.Le K) :
    ∀ (ts : Trees) {ps : List Nat}, ts.Holds H ps → ts.Holds K ps
  | .nil, _, hp => hp
  | .cons t rest, _, ⟨p, qs, hp, ht, hr⟩ =>
    ⟨p, qs, hp, Tree.Holds.mono h t ht, Trees.Holds.mono h rest hr⟩

end

theorem Trees.Holds.length {H : Heap} : ∀ (ts : Trees) {ps : List Nat}, ts.Holds H ps → ps.length = ts.length
  | .nil, _, rfl => rfl
  | .cons _ rest, _, ⟨_, _, hp, _, hr⟩ => by
      rw [hp, List.length_cons, Trees.Holds.length rest hr, Trees.length]

/-! ## A tree in a message -/

/-- The scalar accessor of an object, by width. -/
def Object.scalar (o : Object) : Width → Int → Go Nat
  | .w8 => o.uint8
  | .w16 => o.uint16
  | .w32 => o.uint32
  | .w64 => o.uint64

/-- The scalar accessor of a list, by width; there is none of 16 bits. -/
def ListView.scalar (l : ListView) : Width → Int → Go Nat
  | .w8 => l.uint8
  | .w16 => l.uint 2
  | .w32 => l.uint32
  | .w64 => l.uint64

/-- The bytes of a slice; a nil slice has none. -/
def spanBytes : Option Span → List UInt8
  | none => []
  | some s => s.bytes

/-- A schema for the tree's section. The kind byte and the name play no part in nested views. -/
def Tree.schema (t : Tree) : Schema := ⟨0, t.size, ""⟩

/-- A schema for one scalar of a list. -/
def Width.schema (w : Width) : Schema := ⟨0, w.bytes, ""⟩

mutual

/-- The reader sees the tree at a position: as an object, and as a view of the same bytes. -/
def Tree.Reads (m : Message) : Tree → Nat → Prop
  | .node size fields => fun a =>
    (m.objectAt a).isNull = false ∧ (m.viewAt size a).isZero = false ∧
    (m.viewAt size a).asObject = m.objectAt a ∧ fields.Reads m size a

def Fields.Reads (m : Message) (size : Nat) : Fields → Nat → Prop
  | .nil => fun _ => True
  | .cons off f rest => fun a => f.Reads m size a off ∧ rest.Reads m size a

/-- The reader sees the contents of a field, through the object's accessors and through the view's. -/
def Field.Reads (m : Message) (size : Nat) : Field → Nat → Nat → Prop
  | .scalar w v => fun a off =>
    (m.objectAt a).scalar w off = .ok v ∧ (m.viewAt size a).read w.bytes off = .ok v
  | .fixed bs => fun a off => (m.objectAt a).bytesFixedSlice off bs.length = .ok (some ⟨a + off, bs⟩)
  | .bytes bs => fun a off =>
    ∃ s, (m.objectAt a).bytes off = .ok s ∧ (m.objectAt a).text off = .ok s ∧ spanBytes s = bs
  | .object t => fun a off =>
    ∃ p, (m.objectAt a).object off = .ok (m.objectAt p) ∧
      (m.viewAt size a).nestedAt t.schema off = .ok (m.viewAt t.size p) ∧ t.Reads m p
  | .scalars w vs => fun a off =>
    ∃ l e, (m.objectAt a).list off = .ok l ∧ (m.objectAt a).listStride off w.bytes = .ok l ∧
      listAt (m.viewAt size a) w.schema off = .ok e ∧ l.len = vs.length ∧ e.len = vs.length ∧
      ∀ (i : Nat) (v : Nat), vs[i]? = some v → l.scalar w i = .ok v ∧
        ∃ x, e.elemAt w.schema i = .ok x ∧ x.read w.bytes 0 = .ok v
  | .objects ts => fun a off =>
    ∃ l e, (m.objectAt a).list off = .ok l ∧ (m.objectAt a).listStride off 4 = .ok l ∧
      listNestedAt (m.viewAt size a) off = .ok e ∧ l.len = ts.length ∧ e.len = ts.length ∧
      ts.Reads m l e 0

def Trees.Reads (m : Message) : Trees → ListView → TypedList → Nat → Prop
  | .nil => fun _ _ _ => True
  | .cons t rest => fun l e i =>
    (∃ p, l.objectPtr i = .ok (m.objectAt p) ∧ e.nestedElemAt t.schema i = .ok (m.viewAt t.size p) ∧ t.Reads m p) ∧
    rest.Reads m l e (i + 1)

end

/-! ## Words and pointers -/

variable {v p i q a n off k size : Nat} {w : Width} {vs : List Nat} {H : Heap}

section Words

variable {m : Message} {pos : Nat}

theorem uintAt_of_window {w : Nat} (h : pos + w ≤ m.data.length) (hw : window m.data pos w = le w v) :
    m.uintAt w pos = v % 256 ^ w := by
  rw [Message.uintAt, if_pos h, hw, ofLE_le]

/-- A stored displacement leads back to its target exactly when it is not zero and fits a signed word. -/
theorem follow_relWord_iff (hpos : pos + 4 ≤ m.data.length) (hlo : headerSize ≤ p) (hhi : p < m.data.length)
    (hw : window m.data pos 4 = relWord p pos) :
    m.follow pos = some p ↔ p ≠ pos ∧ -2 ^ 31 ≤ (p : Int) - pos ∧ (p : Int) - pos < 2 ^ 31 := by
  have hword : int32 (m.uintAt 4 pos) = int32 ((p : Int) - pos) := by
    have hpow : (256 : Nat) ^ 4 = 2 ^ 32 := rfl
    rw [uintAt_of_window hpos hw, hpow, Nat.mod_eq_of_lt (by omega),
      Int.toNat_of_nonneg (Int.emod_nonneg _ (by decide)), int32_emod]
  have hb := int32_bounds ((p : Int) - pos)
  rw [Message.follow, hword]
  constructor
  · intro h
    split_ifs at h with hc
    have := Option.some.inj h
    omega
  · rintro ⟨hne, hmin, hmax⟩
    rw [int32_id hmin hmax, if_pos ⟨by omega, by omega, by omega⟩]
    congr 1
    omega

theorem follow_of_relWord (hlen : m.data.length < 2 ^ 31) (hpos : pos + 4 ≤ m.data.length) (hlo : headerSize ≤ p)
    (hhi : p < m.data.length) (hne : p ≠ pos) (hw : window m.data pos 4 = relWord p pos) : m.follow pos = some p :=
  (follow_relWord_iff hpos hlo hhi hw).mpr ⟨hne, by omega, by omega⟩

theorem follow_of_zero (hpos : pos + 4 ≤ m.data.length) (hw : window m.data pos 4 = le 4 0) :
    m.follow pos = none := by
  apply Message.follow_null
  rw [uintAt_of_window hpos hw, Nat.zero_mod, Nat.cast_zero, int32_id] <;> decide

theorem listAt_of_nullPair (hpos : pos + 8 ≤ m.data.length) (hw : window m.data pos 8 = nullPair) :
    m.listAt pos = none ∧ m.bytesAt pos = none := by
  obtain ⟨hw, -⟩ := window_append_split (le_length 4 0) (le_length 4 0) hw
  constructor
  · rw [Message.listAt_of_le hpos, follow_of_zero (by omega) hw, Option.map_none]
  · rw [Message.bytesAt, uintAt_of_window (by omega) hw, if_neg fun h => h.1 (Nat.zero_mod _)]

section Pair

variable {p n : Nat} (hpos : pos + 8 ≤ m.data.length)
  (hw : window m.data pos 8 = pairWord p pos n) (hn : n < 2 ^ 32)

include hpos hw hn

theorem pairWord_words : window m.data pos 4 = relWord p pos ∧ m.uintAt 4 (pos + 4) = n := by
  obtain ⟨h1, h2⟩ := window_append_split (relWord_length p pos) (le_length 4 n) hw
  exact ⟨h1, (uintAt_of_window (by omega) h2).trans (Nat.mod_eq_of_lt hn)⟩

theorem listAt_of_pairWord (hlen : m.data.length < 2 ^ 31) (hlo : headerSize ≤ p)
    (hhi : p < m.data.length) (hne : p ≠ pos) : m.listAt pos = some (p, n) := by
  obtain ⟨h1, h2⟩ := pairWord_words hpos hw hn
  rw [Message.listAt_of_le hpos, follow_of_relWord hlen (by omega) hlo hhi hne h1, Option.map_some, h2]

theorem bytesAt_of_pairWord (hlen : m.data.length < 2 ^ 32) (hlo : pos + 8 ≤ p)
    (hhi : p + n ≤ m.data.length) (h16 : headerSize ≤ p) :
    m.bytesAt pos = some ⟨p, window m.data p n⟩ := by
  obtain ⟨h1, h2⟩ := pairWord_words hpos hw hn
  -- the displacement of a byte string is read unsigned, and it is positive
  have hrel : m.uintAt 4 pos = p - pos := by
    have hpow : (256 : Nat) ^ 4 = 2 ^ 32 := rfl
    rw [uintAt_of_window (by omega) h1, hpow, Nat.mod_eq_of_lt (by omega)]
    omega
  have hsum : pos + m.uintAt 4 pos = p := by omega
  rw [Message.bytesAt, hsum, h2, if_pos ⟨by omega, hpos, h16, hhi⟩]

end Pair

theorem scalarArray_window (h : vs[i]? = some v) :
    window (scalarArray w vs) (i * w.bytes) w.bytes = le w.bytes v ∧
      i * w.bytes + w.bytes ≤ (scalarArray w vs).length := by
  induction vs generalizing i with
  | nil => simp at h
  | cons u us ih =>
    have hcons : scalarArray w (u :: us) = le w.bytes u ++ scalarArray w us := rfl
    rw [hcons]
    cases i with
    | zero =>
      obtain rfl : u = v := by simpa using h
      rw [Nat.zero_mul, window, List.drop_zero, List.take_left' (le_length _ _)]
      simp
    | succ i =>
      obtain ⟨hw, hle⟩ := ih (i := i) (by simpa using h)
      constructor
      · rw [← hw, window, window, Nat.add_mul, Nat.one_mul, Nat.add_comm, ← List.drop_drop,
          List.drop_left' (le_length _ _)]
      · rw [List.length_append, le_length, Nat.add_mul]
        omega

theorem scalarArray_length (w : Width) (vs : List Nat) : (scalarArray w vs).length = vs.length * w.bytes := by
  induction vs with
  | nil => rw [List.length_nil, Nat.zero_mul]; rfl
  | cons v vs ih =>
    have hcons : scalarArray w (v :: vs) = le w.bytes v ++ scalarArray w vs := rfl
    rw [hcons, List.length_append, le_length, ih, List.length_cons, Nat.add_mul, Nat.one_mul, Nat.add_comm]

theorem pointerArray_length (q : Nat) (ts : List Nat) : (pointerArray q ts).length = ts.length * 4 := by
  induction ts generalizing q with
  | nil => rfl
  | cons t ts ih =>
    rw [pointerArray, List.length_append, relWord_length, ih, List.length_cons]
    omega

theorem pointerArray_window {ts : List Nat} {t : Nat} (h : ts[i]? = some t) :
    window (pointerArray q ts) (i * 4) 4 = relWord t (q + i * 4) := by
  induction ts generalizing i q with
  | nil => simp at h
  | cons u us ih =>
    rw [pointerArray]
    cases i with
    | zero =>
      obtain rfl : u = t := by simpa using h
      rw [Nat.zero_mul, window, List.drop_zero, List.take_left' (relWord_length _ _), Nat.add_zero]
    | succ i =>
      have hpos : q + (i + 1) * 4 = q + 4 + i * 4 := by omega
      rw [hpos, ← ih (i := i) (q := q + 4) (by simpa using h), window, window, Nat.add_mul,
        Nat.one_mul, Nat.add_comm, ← List.drop_drop, List.drop_left' (relWord_length _ _)]

end Words

/-! ## Reading what a record holds -/

variable {m : Message}

theorem Object.scalar_eval {f : Nat} (w : Width) (hpos : a + f + 8 < 2 ^ 63) :
    (m.objectAt a).scalar w f = .ok (m.uintAt w.bytes (a + f)) := by
  cases w
  case w8 => exact Object.uint8_eval hpos
  all_goals exact Object.uint_eval (by decide) hpos

theorem ListView.scalar_eval (w : Width) (hlen : m.data.length < 2 ^ 31) (hn : n ≤ m.data.length)
    (ha : a < m.data.length) (hi : i < n) :
    (ListView.mk (some m) a n).scalar w i = .ok (m.uintAt w.bytes (a + i * w.bytes)) := by
  cases w
  case w8 =>
    rw [Width.bytes, Nat.mul_one]
    exact ListView.uint8_eval (by omega) hn ha hi
  all_goals exact ListView.uint_eval (by decide) (by omega) hn ha hi

theorem Width.bytes_pos (w : Width) : 0 < w.bytes := by cases w <;> decide

theorem Width.bytes_le (w : Width) : w.bytes ≤ 8 := by cases w <;> decide

section ViewAt

variable {m : Message} {a size : Nat} (h : a + size ≤ m.data.length)

include h

theorem Message.viewAt_rootOff (f : Nat) (hlen : m.data.length < 2 ^ 31) :
    (m.viewAt size a).data = some m ∧ (m.viewAt size a).rootOff + f = ((a + f : Nat) : Int) := by
  rw [Message.viewAt_inside h]
  refine ⟨rfl, ?_⟩
  rw [int32_id (by omega) (by omega), Nat.cast_add]

/-- The two lists a list pointer gives, when the elements fit behind it. -/
theorem lists_of_listAt {stride : Nat} (hlen : m.data.length < 2 ^ 31) (hoff : off + 8 ≤ size)
    (hl : m.listAt (a + off) = some (p, n)) (hn : n ≠ 0) (hstride : 0 < stride)
    (hfit : p + n * stride ≤ m.data.length) :
    (m.objectAt a).list off = .ok ⟨some m, p, n⟩ ∧
      (m.objectAt a).listStride off stride = .ok ⟨some m, p, n⟩ ∧
      listWith (m.viewAt size a) stride off = .ok ⟨some m, p, n⟩ := by
  have hstr : m.strideFits stride (p, n) := by
    rw [Message.strideFits, if_pos hstride]
    exact hfit
  have hfits := Message.strideFits_listFits hstr
  have hn' : n ≤ m.data.length := hfits
  obtain ⟨hdata, hroot⟩ := Message.viewAt_rootOff h off hlen
  refine ⟨?_, ?_, ?_⟩
  · rw [Object.list_eval (by omega) (by omega), hl, Message.listView_accepted (decide_eq_true hfits)]
  · rw [Object.listStride_eval (by omega) (by omega), hl, Message.listView_accepted (decide_eq_true hstr)]
  · rw [listWith_eval hdata hroot (by omega) (by omega), hl,
      Option.filter_some, if_pos (decide_eq_true hstr), Message.typedList, if_neg hn,
      int32_id (by omega) (by omega), int32_id (by omega) (by omega)]

theorem lists_of_null (stride : Nat) (hlen : m.data.length < 2 ^ 31) (hoff : off + 8 ≤ size)
    (hl : m.listAt (a + off) = none) :
    (m.objectAt a).list off = .ok .null ∧ (m.objectAt a).listStride off stride = .ok .null ∧
      listWith (m.viewAt size a) stride off = .ok .zero := by
  obtain ⟨hdata, hroot⟩ := Message.viewAt_rootOff h off hlen
  refine ⟨?_, ?_, ?_⟩
  · rw [Object.list_eval (by omega) (by omega), hl]
    rfl
  · rw [Object.listStride_eval (by omega) (by omega), hl]
    rfl
  · rw [listWith_eval hdata hroot (by omega) (by omega), hl]
    rfl

end ViewAt

section Read

variable {H : Heap} {m : Message} (hrep : Rep H headerSize m.data)

include hrep

variable {bs fs : List UInt8}

theorem slot_read (h : ⟨a, off, bs⟩ ∈ H.slots) :
    headerSize ≤ a ∧ a + off + bs.length ≤ m.data.length ∧ window m.data (a + off) bs.length = bs := by
  obtain ⟨hlo, hhi⟩ := hrep.slot_end h
  exact ⟨hlo, hhi, hrep.slot_bytes _ h⟩

theorem frozen_ne_slot (hs : ⟨a, off, bs⟩ ∈ H.slots) (hf : (p, fs) ∈ H.frozen) (hbs : 0 < bs.length)
    (hfs : 0 < fs.length) : p ≠ a + off := by
  obtain ⟨n, hn, hle⟩ := hrep.slot_in _ hs
  have := hrep.frozen_apart _ hf _ hn
  simp only [Apart] at this hle
  omega

theorem section_ne_frozen (hs : (p, n) ∈ H.sections) (hf : (q, fs) ∈ H.frozen) (hk : k < fs.length) : p ≠ q + k := by
  have := hrep.frozen_apart _ hf _ hs
  have := hrep.section_in _ hs
  simp only [Apart] at *
  omega

section Plain

variable (hlen : m.data.length < 2 ^ 32)

include hlen

theorem fixed_reads (hbs : bs ≠ []) (h : (Field.fixed bs).Holds H a off) : (Field.fixed bs).Reads m size a off := by
  have hpos : 0 < bs.length := List.length_pos_iff.mpr hbs
  obtain ⟨-, hend, hw⟩ := slot_read hrep h
  simp only [Field.Reads]
  rw [Object.bytesFixedSlice_eval hpos (by omega), if_pos hend, hw]

variable {a size off : Nat} (hsize : a + size ≤ m.data.length)

include hsize

theorem scalar_reads (hoff : off + w.bytes ≤ size) (hv : v < 256 ^ w.bytes) (h : (Field.scalar w v).Holds H a off) :
    (Field.scalar w v).Reads m size a off := by
  obtain ⟨-, hend, hw⟩ := slot_read hrep h
  simp only [le_length] at hend hw
  have hval : m.uintAt w.bytes (a + off) = v := (uintAt_of_window hend hw).trans (Nat.mod_eq_of_lt hv)
  constructor
  · rw [Object.scalar_eval w (by omega), hval]
  · rw [Message.viewAt_read hsize w.bytes_pos w.bytes_le hoff hlen, hval]

theorem bytes_reads (hoff : off + 8 ≤ size) (h : (Field.bytes bs).Holds H a off) :
    (Field.bytes bs).Reads m size a off := by
  simp only [Field.Reads]
  rw [Object.bytes_eval (by omega) (by omega), Object.text_eval (by omega) (by omega)]
  rcases h with ⟨rfl, hs⟩ | ⟨hbs, p, hp, hs, hf⟩
  · obtain ⟨-, hend, hw⟩ := slot_read hrep hs
    rw [(listAt_of_nullPair hend hw).2]
    exact ⟨none, rfl, rfl, rfl⟩
  obtain ⟨-, hend, hw⟩ := slot_read hrep hs
  have hfin := hrep.frozen_in _ hf
  have hfb := hrep.frozen_bytes _ hf
  simp only [pairWord_length] at hend hw hfin hfb
  rw [bytesAt_of_pairWord hend hw (by omega) hlen hp hfin.2 hfin.1, hfb]
  refine ⟨some ⟨p, bs⟩, rfl, ?_, rfl⟩
  rw [Option.filter_some, if_pos (by simpa using hbs)]

end Plain

variable (hlen : m.data.length < 2 ^ 31)

include hlen

theorem listAt_of_holds (hs : ⟨a, off, pairWord p (a + off) n⟩ ∈ H.slots) (hf : (p, fs) ∈ H.frozen)
    (hfs : 0 < fs.length) (hn : n ≤ fs.length) : m.listAt (a + off) = some (p, n) := by
  obtain ⟨-, hend, hw⟩ := slot_read hrep hs
  have hfin := hrep.frozen_in _ hf
  have hne := frozen_ne_slot hrep hs hf (by simp) hfs
  simp only [pairWord_length] at hend hw hfin
  exact listAt_of_pairWord hend hw (by omega) hlen hfin.1 (by omega) hne

variable {a size off : Nat} (hsize : a + size ≤ m.data.length)

include hsize

theorem object_reads {t : Tree} (hne : p ≠ a + off) (hs : ⟨a, off, relWord p (a + off)⟩ ∈ H.slots)
    (hp : (p, n) ∈ H.sections) (ht : t.size = n) (hreads : t.Reads m p) : (Field.object t).Reads m size a off := by
  obtain ⟨-, hend, hw⟩ := slot_read hrep hs
  have hin := hrep.section_in _ hp
  simp only [relWord_length] at hend hw hin
  have hfollow := follow_of_relWord hlen hend hin.1 (by omega) hne hw
  obtain ⟨hdata, hroot⟩ := Message.viewAt_rootOff hsize off hlen
  refine ⟨p, ?_, ?_, hreads⟩
  · rw [Object.object_eval (by omega) (by omega), hfollow, Message.pointee]
  · have hn : t.schema.size = n := ht
    rw [View.nestedAt_eval hdata hroot (by omega) (by omega) (by omega), hfollow]
    rfl

theorem scalars_reads (hoff : off + 8 ≤ size) (hvs : ∀ v ∈ vs, v < 256 ^ w.bytes)
    (h : (Field.scalars w vs).Holds H a off) : (Field.scalars w vs).Reads m size a off := by
  have hw8 := w.bytes_le
  have hbytes : w.schema.size = w.bytes := rfl
  have hschema : w.schema.size % 2 ^ 32 = w.bytes := by omega
  rcases h with ⟨rfl, hs⟩ | ⟨hne, p, hs, hf⟩
  · obtain ⟨-, hend, hw⟩ := slot_read hrep hs
    obtain ⟨h1, h2, h3⟩ := lists_of_null hsize w.bytes hlen hoff (listAt_of_nullPair hend hw).1
    refine ⟨.null, .zero, h1, h2, ?_, rfl, rfl, nofun⟩
    rw [Zap.Wire.listAt, hschema, h3]
  · have hpos : 0 < vs.length := List.length_pos_iff.mpr hne
    have hfin := hrep.frozen_in _ hf
    have hfb := hrep.frozen_bytes _ hf
    have hflen : (scalarArray w vs).length = vs.length * w.bytes := scalarArray_length w vs
    have hle : vs.length ≤ vs.length * w.bytes := Nat.le_mul_of_pos_right _ w.bytes_pos
    simp only [hflen] at hfin hfb
    have hl := listAt_of_holds hrep hlen hs hf (by omega) (by omega)
    obtain ⟨h1, h2, h3⟩ := lists_of_listAt hsize hlen hoff hl (by omega) w.bytes_pos hfin.2
    refine ⟨_, _, h1, h2, by rw [Zap.Wire.listAt, hschema, h3], rfl, rfl, ?_⟩
    intro i v hv
    obtain ⟨hwin, hend⟩ := scalarArray_window (w := w) hv
    have hi : i < vs.length := (List.getElem?_eq_some_iff.mp hv).1
    have hmem : v < 256 ^ w.bytes := hvs v (List.mem_of_getElem? hv)
    -- the element's window of the array is the element's window of the message
    rw [← hfb, window_window (by omega)] at hwin
    have hval : m.uintAt w.bytes (p + i * w.bytes) = v :=
      (uintAt_of_window (by omega) hwin).trans (Nat.mod_eq_of_lt hmem)
    refine ⟨?_, m.viewAt w.bytes (p + i * w.bytes), ?_, ?_⟩
    · rw [ListView.scalar_eval w hlen (by omega) (by omega) hi, hval]
    · exact TypedList.elemAt_eval hi (by rw [hbytes]; omega)
    · rw [Message.viewAt_read (by omega) w.bytes_pos hw8 (by omega) (by omega), Nat.add_zero, hval]

end Read

theorem Tree.Holds.section : ∀ {t : Tree} {a : Nat}, t.Holds H a → (a, t.size) ∈ H.sections
  | .node _ _, _, h => h.1

theorem Tree.WF.size_pos : ∀ {t : Tree}, t.WF → 0 < t.size
  | .node _ _, h => h.1

/-- A section behind the header is neither null nor zero. -/
theorem node_reads {fields : Fields} (hlen : m.data.length < 2 ^ 31) (hlo : headerSize ≤ a)
    (hsize : a + size ≤ m.data.length) (hf : fields.Reads m size a) : (Tree.node size fields).Reads m a := by
  have h16 : headerSize = 16 := rfl
  refine ⟨?_, ?_, ?_, hf⟩
  · simp only [Object.isNull, Message.objectAt, beq_eq_false_iff_ne]
    omega
  · rw [Message.viewAt_inside hsize]
    rfl
  · rw [Message.viewAt_inside hsize, View.asObject, int32_id (by omega) (by omega), Message.objectAt]

theorem Trees.reads_of_empty {l : ListView} {e : TypedList} :
    ∀ {ts : Trees}, ts.length = 0 → ts.Reads m l e i
  | .nil, _ => trivial
  | .cons _ _, h => absurd h (Nat.succ_ne_zero _)

/-- A slot of a frozen pointer list leads to the section it was written for. -/
theorem pointerSlot_follow (hrep : Rep H headerSize m.data) (hlen : m.data.length < 2 ^ 31) {j : Nat} {ps : List Nat}
    (hf : (p, pointerArray p ps) ∈ H.frozen) (hq : ps[j]? = some q) (hsec : (q, k) ∈ H.sections) :
    m.follow (p + j * 4) = some q := by
  have hj : j < ps.length := (List.getElem?_eq_some_iff.mp hq).1
  have hflen := pointerArray_length p ps
  have hne := section_ne_frozen hrep hsec hf (k := j * 4) (by omega)
  have hfin := hrep.frozen_in _ hf
  have hfb := hrep.frozen_bytes _ hf
  have hin := hrep.section_in _ hsec
  simp only at hin hfin hfb
  have hw := pointerArray_window (q := p) hq
  rw [← hfb, window_window (by omega)] at hw
  exact follow_of_relWord hlen (by omega) hin.1 (by omega) hne hw

mutual

variable {m : Message}

/-- **The reader sees what the record holds.**  The message is shorter than `2 ^ 31` bytes. -/
theorem Tree.reads_of_holds {H : Heap} (hrep : Rep H headerSize m.data)
    (hlen : m.data.length < 2 ^ 31) :
    ∀ (t : Tree), t.WF → ∀ {a : Nat}, t.Holds H a → t.Reads m a
  | .node size fields, ⟨_, hwf⟩, a, ⟨hs, hf⟩ => by
      obtain ⟨hlo, -, hend⟩ := hrep.section_in _ hs
      exact node_reads hlen hlo hend (Fields.reads_of_holds hrep hlen fields hwf hend hf)

theorem Fields.reads_of_holds {H : Heap} (hrep : Rep H headerSize m.data)
    (hlen : m.data.length < 2 ^ 31) {size : Nat} :
    ∀ (fs : Fields), fs.WF size → ∀ {a : Nat}, a + size ≤ m.data.length → fs.Holds H a → fs.Reads m size a
  | .nil, _, _, _, _ => trivial
  | .cons _ f rest, ⟨hf, hoff, _, hrest⟩, _, hsize, ⟨h, hr⟩ =>
    ⟨Field.reads_of_holds hrep hlen f hf hsize hoff h, Fields.reads_of_holds hrep hlen rest hrest hsize hr⟩

theorem Field.reads_of_holds {H : Heap} (hrep : Rep H headerSize m.data)
    (hlen : m.data.length < 2 ^ 31) {size : Nat} :
    ∀ (f : Field), f.WF → ∀ {a off : Nat}, a + size ≤ m.data.length → off + f.width ≤ size →
      f.Holds H a off → f.Reads m size a off
  | .scalar _ _, hwf, _, _, hsize, hoff, h => scalar_reads hrep (by omega) hsize hoff hwf h
  | .fixed _, hwf, _, _, _, _, h => fixed_reads hrep (by omega) hwf h
  | .bytes _, _, _, _, hsize, hoff, h => bytes_reads hrep (by omega) hsize hoff h
  | .object t, hwf, _, _, hsize, _, ⟨_, hne, hs, ht⟩ =>
    object_reads hrep hlen hsize hne hs ht.section rfl (Tree.reads_of_holds hrep hlen t hwf ht)
  | .scalars _ _, hwf, _, _, hsize, hoff, h => scalars_reads hrep hlen hsize hoff hwf.2 h
  | .objects _, _, a, off, hsize, hoff, .inl ⟨hn, hs⟩ => by
      obtain ⟨-, hend, hw⟩ := slot_read hrep hs
      obtain ⟨h1, h2, h3⟩ := lists_of_null hsize 4 hlen hoff (listAt_of_nullPair hend hw).1
      refine ⟨.null, .zero, h1, h2, h3, ?_, ?_, ?_⟩
      · rw [hn]
        rfl
      · rw [hn]
        rfl
      · exact Trees.reads_of_empty hn
  | .objects ts, hwf, a, off, hsize, hoff, .inr ⟨hn, p, ps, hs, hf, ht⟩ => by
      have hps := Trees.Holds.length ts ht
      have hflen := pointerArray_length p ps
      have hfin := hrep.frozen_in _ hf
      simp only [hflen] at hfin
      have hl := listAt_of_holds hrep hlen hs hf (by omega) (by omega)
      obtain ⟨h1, h2, h3⟩ := lists_of_listAt hsize hlen hoff hl (by omega)
        (show 0 < 4 by decide) (by omega)
      refine ⟨_, _, h1, h2, h3, rfl, rfl, ?_⟩
      exact Trees.reads_of_holds hrep hlen ts hwf (by omega) (by omega) ht (by omega)
        fun j q n hq hsec => pointerSlot_follow hrep hlen hf (by rwa [Nat.zero_add]) hsec

theorem Trees.reads_of_holds {H : Heap} (hrep : Rep H headerSize m.data)
    (hlen : m.data.length < 2 ^ 31) {p n : Nat} :
    ∀ (ts : Trees), ts.WF → p < m.data.length → n ≤ m.data.length → ∀ {ps : List Nat} {i : Nat},
      ts.Holds H ps → i + ts.length ≤ n →
      (∀ j q k, ps[j]? = some q → (q, k) ∈ H.sections → m.follow (p + (i + j) * 4) = some q) →
      ts.Reads m ⟨some m, p, n⟩ ⟨some m, p, n⟩ i
  | .nil, _, _, _, _, _, _, _, _ => trivial
  | .cons t rest, ⟨hwf, hrest⟩, hp, hn, ps, i, ⟨q, qs, hps, ht, hr⟩, hi, hfollow => by
      subst hps
      simp only [Trees.length] at hi
      have hq : m.follow (p + i * 4) = some q := hfollow 0 q _ rfl ht.section
      have hsec := hrep.section_in _ ht.section
      have hsize : t.schema.size = t.size := rfl
      simp only at hsec
      refine ⟨⟨q, ?_, ?_, Tree.reads_of_holds hrep hlen t hwf ht⟩, ?_⟩
      · rw [ListView.objectPtr_eval (by omega) hn hp (by omega), hq, Message.pointee]
      · rw [TypedList.nestedElemAt_eval (by omega) (by omega) (by omega) (by omega) hp hn, hq,
          Message.pointeeView, hsize]
      · refine Trees.reads_of_holds hrep hlen rest hrest hp hn hr (by omega) ?_
        intro j u k hu husec
        have := hfollow (j + 1) u k (by simpa using hu) husec
        rwa [← Nat.add_assoc, Nat.add_right_comm] at this

end

end Zap.Wire
