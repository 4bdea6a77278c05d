/-
# Zap.Wire.Chain — chains of accessor calls on a message from a hostile sender.

A reader of a message calls accessors on what earlier accessors returned. `Value` is what an accessor can
return, `Call` is one accessor call with its arguments, and `Reach` closes a starting value under calls.
Arguments are the reader's: `Call.Tame` keeps field offsets, strides and schema sizes below `2 ^ 31`;
indices are arbitrary. Everything else is the sender's.

One invariant, `Value.Good m lo`, says where a value can point: at or behind `lo`, inside `m`. Every call
preserves it and no call faults on a good value (`call_good`), with one exception the code has: a view
records its offset in 32 bits, so a view that starts at `2 ^ 31` or later is followed from a negative position.
-/
import Zap.Wire.View

namespace Zap.Wire

open Zap.Lib

/-! ## Values, calls and chains -/

/-- What an accessor returns. A typed list carries the schema of its elements. -/
inductive Value
  | object (o : Object)
  | list (l : ListView)
  | bytes (s : Option Span)
  | number (n : Nat)
  | view (v : View)
  | elems (e : Schema) (l : TypedList)
  | pointers (n : Schema) (l : TypedList)

/-- One accessor call: the accessors of `Object`, of `List`, of `View`, and `At` of the typed lists. -/
inductive Call
  | uint8 (fieldOffset : Nat)
  | uint16 (fieldOffset : Nat)
  | uint32 (fieldOffset : Nat)
  | uint64 (fieldOffset : Nat)
  | bytesFixedSlice (fieldOffset n : Nat)
  | bytes (fieldOffset : Nat)
  | text (fieldOffset : Nat)
  | object (fieldOffset : Nat)
  | list (fieldOffset : Nat)
  | listStride (fieldOffset minStride : Nat)
  | itemUint8 (i : Int)
  | itemUint32 (i : Int)
  | itemUint64 (i : Int)
  | itemObject (i : Int) (elemSize : Nat)
  | objectPtr (i : Int)
  | listBytes
  | read (w offset : Nat)
  | nestedAt (n : Schema) (offset : Nat)
  | listAt (e : Schema) (offset : Nat)
  | listNestedAt (n : Schema) (offset : Nat)
  | elemAt (i : Int)

/-- A schema a reader uses: a fixed section of at least one byte. -/
def Schema.Sized (s : Schema) : Prop := 0 < s.size ∧ s.size < 2 ^ 31

/-- The arguments a reader passes: offsets and sizes below `2 ^ 31`, and a field width Go has. -/
def Call.Tame : Call → Prop
  | .uint8 f | .uint16 f | .uint32 f | .uint64 f | .bytes f | .text f | .object f | .list f => f < 2 ^ 31
  | .bytesFixedSlice f n | .listStride f n => f < 2 ^ 31 ∧ n < 2 ^ 31
  | .itemUint8 _ | .itemUint32 _ | .itemUint64 _ | .objectPtr _ | .listBytes | .elemAt _ => True
  | .itemObject _ e => e < 2 ^ 31
  | .read w f => f < 2 ^ 31 ∧ (w = 1 ∨ w = 2 ∨ w = 4 ∨ w = 8)
  | .nestedAt s f | .listAt s f | .listNestedAt s f => f < 2 ^ 31 ∧ s.Sized

def Call.index : Call → Option Int
  | .itemUint8 i | .itemUint32 i | .itemUint64 i | .itemObject i _ | .objectPtr i => some i
  | _ => none

/-- The call on the value it belongs to; `none` where the types do not let it be made. -/
def Value.call : Value → Call → Option (Go Value)
  | .object o, .uint8 f => some (.number <$> o.uint8 f)
  | .object o, .uint16 f => some (.number <$> o.uint16 f)
  | .object o, .uint32 f => some (.number <$> o.uint32 f)
  | .object o, .uint64 f => some (.number <$> o.uint64 f)
  | .object o, .bytesFixedSlice f n => some (.bytes <$> o.bytesFixedSlice f n)
  | .object o, .bytes f => some (.bytes <$> o.bytes f)
  | .object o, .text f => some (.bytes <$> o.text f)
  | .object o, .object f => some (.object <$> o.object f)
  | .object o, .list f => some (.list <$> o.list f)
  | .object o, .listStride f s => some (.list <$> o.listStride f s)
  | .list l, .itemUint8 i => some (.number <$> l.uint8 i)
  | .list l, .itemUint32 i => some (.number <$> l.uint32 i)
  | .list l, .itemUint64 i => some (.number <$> l.uint64 i)
  | .list l, .itemObject i e => some (.ok (.object (l.object i e)))
  | .list l, .objectPtr i => some (.object <$> l.objectPtr i)
  | .list l, .listBytes => some (.bytes <$> l.bytes)
  | .view v, .read w f => some (.number <$> v.read w f)
  | .view v, .nestedAt n f => some (.view <$> v.nestedAt n f)
  | .view v, .listAt e f => some (.elems e <$> listAt v e f)
  | .view v, .listNestedAt n f => some (.pointers n <$> listNestedAt v f)
  | .elems e l, .elemAt i => some (.view <$> l.elemAt e i)
  | .pointers n l, .elemAt i => some (.view <$> l.nestedElemAt n i)
  | _, _ => none

/-- The reader goes on from this value: an `Object` or a `List` only if `IsNull` is false. -/
def Value.Continues : Value → Prop
  | .object o => o.isNull = false
  | .list l => l.isNull = false
  | _ => True

/-- The values a chain of calls from `x` returns, going on from values that satisfy `ok`. -/
inductive Reach (ok : Value → Prop) (x : Value) : Value → Prop
  | start : Reach ok x x
  | call {y z : Value} {c : Call} : Reach ok x y → ok y → c.Tame → y.call c = some (.ok z) → Reach ok x z

/-- Every byte slice in the value is a window of the message. -/
def Value.Inside (m : Message) : Value → Prop
  | .bytes (some s) => s.Inside m.data
  | .view v => v.isZero = false → v.payload.Inside m.data
  | _ => True

/-- No chain from `x` panics, and every byte slice it returns lies inside the message. -/
def Safe (m : Message) (x : Value) : Prop :=
  ∀ y, Reach Value.Continues x y → y.Inside m ∧
    (y.Continues → ∀ c r, c.Tame → y.call c = some r → ∃ z, r = .ok z)

/-- The value is null, or it starts behind the header. An empty typed list has no first element, and one
whose 32-bit offset has wrapped yields none. -/
def Value.BehindHeader : Value → Prop
  | .object o => o.isNull = false → headerSize ≤ o.offset
  | .list l => l.isNull = false → headerSize ≤ l.offset
  | .bytes (some s) => headerSize ≤ s.start
  | .bytes none => True
  | .number _ => True
  | .view v => v.isZero = false → headerSize ≤ v.payload.start
  | .elems _ l | .pointers _ l => 0 < l.length ∧ 0 ≤ l.offset → headerSize ≤ l.offset

/-! ## The invariant of a chain -/

/-- A typed list of stride `w` that was read from a list pointer of `m`. -/
def TypedList.From (m : Message) (w : Nat) (l : TypedList) : Prop :=
  l = .zero ∨ ∃ t n, headerSize ≤ t ∧ t < m.data.length ∧ t + n * w ≤ m.data.length ∧ l = m.typedList (some (t, n))

/-- Where a value can point. -/
def Value.Good (m : Message) (lo : Nat) : Value → Prop
  | .object o => o = .null ∨ ∃ a, lo ≤ a ∧ a ≤ 2 ^ 63 - 2 ^ 32 ∧ o = m.objectAt a
  | .list l => l = .null ∨ ∃ t n, headerSize ≤ t ∧ t < m.data.length ∧ n ≤ m.data.length ∧
      l = m.listView (some (t, n))
  | .bytes s => ∀ x ∈ s, lo ≤ x.start ∧ x.Inside m.data
  | .number _ => True
  | .view v => v = .zero ∨ ∃ a size, lo ≤ a ∧ 0 < size ∧ a + size ≤ m.data.length ∧ v = m.viewAt size a
  | .elems e l => e.Sized ∧ l.From m e.size
  | .pointers s l => s.Sized ∧ l.From m objPtrStride

variable {n lo : Nat} {v : View} {s : Schema} {y x : Value} {ok : Value → Prop}

section Invariant

variable {m : Message} {lo : Nat}

theorem map_ok {α β : Type} {f : α → β} {x : Go α} {z : β} (h : f <$> x = .ok z) :
    ∃ a, x = .ok a ∧ z = f a := by
  cases x with
  | error e => cases h
  | ok a => exact ⟨a, rfl, (Except.ok.inj h).symm⟩

theorem pointee_good (hlo : lo ≤ headerSize) (hlen : m.data.length < 2 ^ 32) (pos : Nat) :
    (Value.object (m.pointee (m.follow pos))).Good m lo := by
  cases ht : m.follow pos with
  | none => exact .inl rfl
  | some t =>
    have hin := Message.follow_some ht
    exact .inr ⟨t, by omega, by omega, rfl⟩

theorem listView_good {p : Nat × Nat → Bool} (hp : ∀ l, p l = true → m.listFits l) (pos : Nat) :
    (Value.list (m.listView ((m.listAt pos).filter p))).Good m lo := by
  cases hl : (m.listAt pos).filter p with
  | none => exact .inl rfl
  | some l =>
    obtain ⟨hsome, hfit⟩ := Option.mem_filter_iff.mp hl
    have hin := Message.listAt_some hsome
    exact .inr ⟨l.1, l.2, hin.1, hin.2, hp l hfit, rfl⟩

variable {size w a t : Nat} {i : Int} {l : TypedList}

theorem pointeeView_good (hlo : lo ≤ headerSize) (hsize : 0 < size) (pos : Nat) :
    (Value.view (m.pointeeView size (m.follow pos))).Good m lo := by
  cases ht : m.follow pos with
  | none => exact .inl rfl
  | some t =>
    have hin := Message.follow_some ht
    rw [Message.pointeeView]
    by_cases hfit : t + size ≤ m.data.length
    · exact .inr ⟨t, size, by omega, hsize, hfit, rfl⟩
    · exact .inl (by rw [Message.viewAt, if_neg hfit])

theorem typedList_good (hw : 0 < w) (pos : Nat) :
    (m.typedList ((m.listAt pos).filter (m.strideFits w ·))).From m w := by
  cases hl : (m.listAt pos).filter (m.strideFits w ·) with
  | none => exact .inl rfl
  | some l =>
    obtain ⟨hsome, hfit⟩ := Option.mem_filter_iff.mp hl
    have hin := Message.listAt_some hsome
    have hfit' := of_decide_eq_true hfit
    rw [Message.strideFits, if_pos hw] at hfit'
    exact .inr ⟨l.1, l.2, hin.1, hin.2, hfit', rfl⟩

def Fine (m : Message) (lo : Nat) (r : Go Value) : Prop := ∃ z, r = .ok z ∧ z.Good m lo

theorem fine_of_eval {α : Type} {mk : α → Value} {x : Go α} {a : α} (h : x = .ok a)
    (hgood : (mk a).Good m lo) : Fine m lo (mk <$> x) :=
  ⟨mk a, by rw [h]; rfl, hgood⟩

variable {c : Call} {r : Go Value}

theorem object_call (hlen : m.data.length < 2 ^ 32) (hlo : lo ≤ headerSize) (hla : lo ≤ a) (ha : a ≤ 2 ^ 63 - 2 ^ 32)
    (hc : c.Tame) (hr : (Value.object (m.objectAt a)).call c = some r) : Fine m lo r := by
  cases c <;> cases hr <;>
    simp only [Call.Tame] at hc
  case uint8 f => exact fine_of_eval (Object.uint8_eval (by omega)) trivial
  case uint16 f => exact fine_of_eval (Object.uint_eval (by omega) (by omega)) trivial
  case uint32 f => exact fine_of_eval (Object.uint_eval (by omega) (by omega)) trivial
  case uint64 f => exact fine_of_eval (Object.uint_eval (by omega) (by omega)) trivial
  case bytesFixedSlice f n =>
    by_cases hn : n = 0
    · refine fine_of_eval (a := none) ?_ (by simp [Value.Good])
      simp [hn, Object.bytesFixedSlice]
    refine fine_of_eval (Object.bytesFixedSlice_eval (by omega) (by omega)) ?_
    intro x hx
    split_ifs at hx with hfit
    · cases hx
      exact ⟨by simp only; omega, span_inside hfit⟩
    · cases hx
  case bytes f =>
    refine fine_of_eval (Object.bytes_eval (by omega) (by omega)) ?_
    intro x hx
    have := Message.bytesAt_some hx
    exact ⟨by omega, this.2⟩
  case text f =>
    refine fine_of_eval (Object.text_eval (by omega) (by omega)) ?_
    intro x hx
    have := Message.bytesAt_some (Option.mem_filter_iff.mp hx).1
    exact ⟨by omega, this.2⟩
  case object f =>
    exact fine_of_eval (Object.object_eval (by omega) (by omega)) (pointee_good hlo hlen _)
  case list f =>
    exact fine_of_eval (Object.list_eval (by omega) (by omega))
      (listView_good (fun l h => of_decide_eq_true h) _)
  case listStride f s =>
    exact fine_of_eval (Object.listStride_eval (by omega) (by omega))
      (listView_good (fun l h => Message.strideFits_listFits (of_decide_eq_true h)) _)

/-- The zero object has no message to read: only a call that never reads returns. -/
theorem null_object_call {z : Value} (h : (Value.object .null).call c = some (.ok z)) : z = .bytes none := by
  cases c <;> simp only [Value.call, Option.some.injEq, reduceCtorEq] at h
  case bytesFixedSlice f n =>
    obtain ⟨x, hx, rfl⟩ := map_ok h
    simp only [Object.bytesFixedSlice, Object.null, dataOf, go_pure, go_bind_error] at hx
    split_ifs at hx
    rw [Except.ok.inj hx]
  all_goals
    obtain ⟨x, hx, rfl⟩ := map_ok h
    cases hx

theorem outside_call {l : ListView} (hout : ∀ i : Int, c.index = some i → i < 0 ∨ i ≥ l.length)
    (hc : c ≠ .listBytes) (hr : (Value.list l).call c = some r) : Fine m lo r := by
  cases c <;> cases hr
  case itemUint8 i => exact fine_of_eval (ListView.outside (hout i rfl)).1 trivial
  case itemUint32 i => exact fine_of_eval ((ListView.outside (hout i rfl)).2.1 4) trivial
  case itemUint64 i => exact fine_of_eval ((ListView.outside (hout i rfl)).2.1 8) trivial
  case itemObject i e => exact ⟨_, rfl, .inl ((ListView.outside (hout i rfl)).2.2.2 e)⟩
  case objectPtr i => exact fine_of_eval (ListView.outside (hout i rfl)).2.2.1 (.inl rfl)
  case listBytes => exact absurd rfl hc

theorem list_call (hlen : m.data.length < 2 ^ 32) (hlo : lo ≤ headerSize) (ht16 : headerSize ≤ t)
    (ht : t < m.data.length) (hn : n ≤ m.data.length) (hc : c.Tame)
    (hr : (Value.list (m.listView (some (t, n)))).call c = some r) : Fine m lo r := by
  by_cases hin : c = .listBytes ∨ ∃ k : Nat, c.index = some (k : Int) ∧ k < n
  swap
  · refine outside_call (fun i hi => ?_) (fun h => hin (.inl h)) hr
    by_contra hcon
    simp only [Message.listView] at hcon
    exact hin (.inr ⟨i.toNat, by rw [hi]; congr 1; omega, by omega⟩)
  cases c <;> simp only [Value.call, Option.some.injEq, reduceCtorEq] at hr <;> subst hr <;>
    simp only [Call.Tame] at hc <;>
    simp only [reduceCtorEq, false_or, Call.index, Option.some.injEq] at hin
  case listBytes =>
    refine fine_of_eval (ListView.bytes_eval (by omega) hn ht) ?_
    intro x hx
    split_ifs at hx with hfit
    · cases hx
      exact ⟨by simp only; omega, span_inside hfit⟩
    · cases hx
  all_goals obtain ⟨k, rfl, hk⟩ := hin
  case itemUint8 => exact fine_of_eval (ListView.uint8_eval (by omega) hn ht hk) trivial
  case itemUint32 => exact fine_of_eval (ListView.uint_eval (by omega) (by omega) hn ht hk) trivial
  case itemUint64 => exact fine_of_eval (ListView.uint_eval (by omega) (by omega) hn ht hk) trivial
  case itemObject e =>
    obtain ⟨heq, hle⟩ := ListView.object_eval (m := m) (a := t) hlen hn ht hk hc
    exact ⟨_, rfl, .inr ⟨t + k * e, by omega, hle, heq⟩⟩
  case objectPtr => exact fine_of_eval (ListView.objectPtr_eval (by omega) hn ht hk) (pointee_good hlo hlen _)

theorem null_list_call (hr : (Value.list .null).call c = some r) : Fine m lo r := by
  by_cases hc : c = .listBytes
  · subst hc
    cases hr
    exact fine_of_eval (a := none) rfl (by simp [Value.Good])
  · exact outside_call (fun i _ => by simp only [ListView.null]; omega) hc hr

theorem zero_view_call (hc : c.Tame) (hr : (Value.view .zero).call c = some r) : Fine m lo r := by
  cases c <;> cases hr <;>
    simp only [Call.Tame] at hc
  case read w f => exact fine_of_eval (View.read_eval (by omega) (by omega) (by omega)) trivial
  case nestedAt n f => exact fine_of_eval (a := .zero) rfl (.inl rfl)
  case listAt e f => exact fine_of_eval (a := .zero) rfl ⟨hc.2, .inl rfl⟩
  case listNestedAt n f => exact fine_of_eval (a := .zero) rfl ⟨hc.2, .inl rfl⟩

theorem viewAt_fields (hfit : a + size ≤ m.data.length) :
    (m.viewAt size a).data = some m ∧ (m.viewAt size a).rootOff = int32 a ∧
      (m.viewAt size a).payload = ⟨a, window m.data a size⟩ := by
  rw [Message.viewAt, if_pos hfit]
  exact ⟨rfl, rfl, rfl⟩

/-- A view whose recorded offset plus the field's offset is not negative: no accessor faults on it. -/
theorem view_call (hlen : m.data.length < 2 ^ 32) (hlo : lo ≤ headerSize) (hv : v.data = some m)
    (hroot : -2 ^ 31 ≤ v.rootOff ∧ v.rootOff < 2 ^ 31) (hc : c.Tame) (hr : (Value.view v).call c = some r) :
    Fine m lo r ∨ v.rootOff < 0 ∧ r = .error .outOfRange := by
  have hneg : ∀ f : Nat, v.rootOff + f < 0 → v.asObject.object f = .error .outOfRange ∧
      ∀ stride, v.asObject.listStride f stride = .error .outOfRange :=
    fun f h => Object.negative hv hroot.1 h
  cases c <;> cases hr <;>
    simp only [Call.Tame] at hc
  case read w f => exact .inl (fine_of_eval (View.read_eval (by omega) (by omega) (by omega)) trivial)
  case nestedAt n f =>
    by_cases hs : v.rootOff + f < 0
    · refine .inr ⟨by omega, ?_⟩
      simp only [View.nestedAt, hv, (hneg f hs).1, go_bind_error]
      rfl
    · have hsum : v.rootOff + f = ((v.rootOff + f).toNat : Int) := by omega
      exact .inl (fine_of_eval (View.nestedAt_eval hv hsum (hc.2.2.trans (by decide)) (by omega) (by omega))
        (pointeeView_good hlo hc.2.1 _))
  case listAt e f =>
    by_cases hs : v.rootOff + f < 0
    · refine .inr ⟨by omega, ?_⟩
      simp only [listAt, listWith, hv, (hneg f hs).2, go_bind_error]
      rfl
    have hsum : v.rootOff + f = ((v.rootOff + f).toNat : Int) := by omega
    have hmod : e.size % 2 ^ 32 = e.size := Nat.mod_eq_of_lt (by have := hc.2.2; omega)
    refine .inl (fine_of_eval (listWith_eval hv hsum (by omega) (by omega)) ⟨hc.2, ?_⟩)
    rw [hmod]
    exact typedList_good hc.2.1 _
  case listNestedAt n f =>
    by_cases hs : v.rootOff + f < 0
    · refine .inr ⟨by omega, ?_⟩
      simp only [listNestedAt, listWith, hv, (hneg f hs).2, go_bind_error]
      rfl
    · have hsum : v.rootOff + f = ((v.rootOff + f).toNat : Int) := by omega
      exact .inl (fine_of_eval (listWith_eval hv hsum (by omega) (by omega))
        ⟨hc.2, typedList_good (by decide) _⟩)

/-- The offset a view records is negative exactly when the view starts at `2 ^ 31` or later. -/
theorem viewAt_rootOff_neg (hlen : m.data.length < 2 ^ 32) (hfit : a + size ≤ m.data.length) :
    (m.viewAt size a).rootOff < 0 ↔ 2 ^ 31 ≤ a := by
  rw [(viewAt_fields hfit).2.1]
  unfold int32
  omega

/-- The elements a typed list of the message counts: the recorded count has not wrapped, and either the
recorded offset has not, or every element it counts starts before zero. -/
theorem typedList_index (hlen : m.data.length < 2 ^ 32) (hw : 0 < w) (hfit : t + n * w ≤ m.data.length)
    (hi : ¬(i < 0 ∨ i ≥ int32 n)) :
    ∃ k : Nat, i = k ∧ k < n ∧ int32 n = n ∧ t + k * w + w ≤ m.data.length ∧
      (t < 2 ^ 31 ∧ int32 t = t ∨ int32 (t : Int) + (k * w : Nat) + w < 0) := by
  have hnle : n ≤ n * w := Nat.le_mul_of_pos_right n hw
  have hn31 : int32 n = n := by
    by_cases hbig : n < 2 ^ 31
    · exact int32_id (by omega) (by omega)
    · have hneg : int32 (n : Int) < 0 := by
        unfold int32
        omega
      omega
  rw [hn31] at hi
  have hk : i.toNat < n := by omega
  have hmul : (i.toNat + 1) * w ≤ n * w := Nat.mul_le_mul_right _ hk
  rw [Nat.add_mul, Nat.one_mul] at hmul
  refine ⟨i.toNat, by omega, hk, hn31, by omega, ?_⟩
  by_cases hlow : t < 2 ^ 31
  · exact .inl ⟨hlow, int32_id (by omega) (by omega)⟩
  · right
    unfold int32
    omega

/-- `List.At` on a list read from the message: the zero view, or the view of an element it counts. -/
theorem elems_call {e : Schema} (hlen : m.data.length < 2 ^ 32) (hlo : lo ≤ headerSize) (he : e.Sized)
    (hl : l.From m e.size) : Fine m lo (.view <$> l.elemAt e i) := by
  obtain rfl | ⟨t, n, ht16, ht, hfit, rfl⟩ := hl
  · exact fine_of_eval (a := .zero) (if_pos (.inl rfl)) (.inl rfl)
  rw [Message.typedList]
  by_cases hi : i < 0 ∨ i ≥ int32 n
  · exact fine_of_eval (a := .zero) (if_pos (.inr hi)) (.inl rfl)
  obtain ⟨k, rfl, hk, hn, hend, ⟨-, hoff⟩ | hwrap⟩ := typedList_index hlen he.1 hfit hi
  · rw [if_neg (by omega), hn, hoff]
    exact fine_of_eval (TypedList.elemAt_eval hk (by omega))
      (.inr ⟨t + k * e.size, e.size, by omega, he.1, hend, rfl⟩)
  have hb := int32_bounds (t : Int)
  have hsum : int64 (int32 (t : Int) + (k : Int) * e.size) = int32 (t : Int) + (k * e.size : Nat) := by
    rw [int64_id] <;> push_cast at hwrap ⊢ <;> omega
  rw [if_neg (show n ≠ 0 by omega)]
  refine fine_of_eval (a := .zero) ?_ (.inl rfl)
  simp only [TypedList.elemAt, Option.isNone_some, Bool.false_eq_true, false_or]
  rw [if_neg hi, hsum, Zap.Wire.viewAt, dataOf, go_bind_ok, if_pos (.inl (by omega)), go_pure]

/-- `ListNested.At` on a list read from the message: the zero view, or a view behind the header. -/
theorem pointers_call (hlen : m.data.length < 2 ^ 32) (hlo : lo ≤ headerSize) (hs : s.Sized)
    (hl : l.From m objPtrStride) : Fine m lo (.view <$> l.nestedElemAt s i) := by
  obtain rfl | ⟨t, n, ht16, ht, hfit, rfl⟩ := hl
  · exact fine_of_eval (a := .zero) rfl (.inl rfl)
  rw [Message.typedList]
  by_cases hi : i < 0 ∨ i ≥ int32 n
  · exact fine_of_eval (a := .zero) (if_pos hi) (.inl rfl)
  obtain ⟨k, rfl, hk, hn, hend, ⟨-, hoff⟩ | hwrap⟩ := typedList_index hlen (by decide) hfit hi
  · have hnle : n ≤ n * objPtrStride := Nat.le_mul_of_pos_right n (by decide)
    rw [if_neg (by omega), hn, hoff]
    exact fine_of_eval (TypedList.nestedElemAt_eval hk hs.1 (hs.2.trans (by decide)) (by omega) ht (by omega))
      (pointeeView_good hlo hs.1 _)
  · have hb := int32_bounds (t : Int)
    have hsum : int64 (int32 (t : Int) + (k : Int) * objPtrStride) = int32 (t : Int) + (k * objPtrStride : Nat) := by
      rw [int64_id] <;> push_cast at hwrap ⊢ <;> omega
    rw [if_neg (show n ≠ 0 by omega)]
    refine fine_of_eval (a := .zero) ?_ (.inl rfl)
    simp only [TypedList.nestedElemAt]
    rw [if_neg hi, hsum, if_pos (.inl (by omega)), go_pure]

/-- The value is not a view that starts at `2 ^ 31` or later. -/
def Value.Low : Value → Prop
  | .view v => v.payload.start < 2 ^ 31
  | _ => True

/-- **Every call keeps the invariant**, whether or not the reader may go on from the value; and it does not fault
if the reader may, unless the value is a view at `2 ^ 31` or later. -/
theorem call_good (hlen : m.data.length < 2 ^ 32) (hlo : lo ≤ headerSize) (hy : y.Good m lo) (hc : c.Tame)
    (h : y.call c = some r) : (∀ z, r = .ok z → z.Good m lo) ∧ (y.Continues → y.Low → ∃ z, r = .ok z) := by
  have hfine : Fine m lo r → (∀ z, r = .ok z → z.Good m lo) ∧ (y.Continues → y.Low → ∃ z, r = .ok z) := by
    rintro ⟨z, rfl, hgood⟩
    exact ⟨fun z' hz => Except.ok.inj hz ▸ hgood, fun _ _ => ⟨z, rfl⟩⟩
  cases y with
  | object o =>
    obtain rfl | ⟨a, hla, ha, rfl⟩ := hy
    · refine ⟨fun z hz => ?_, nofun⟩
      subst hz
      rw [null_object_call h]
      nofun
    · exact hfine (object_call hlen hlo hla ha hc h)
  | list l =>
    obtain rfl | ⟨t, n, ht16, ht, hn, rfl⟩ := hy
    · exact hfine (null_list_call h)
    · exact hfine (list_call hlen hlo ht16 ht hn hc h)
  | view v =>
    obtain rfl | ⟨a, size, -, -, hfit, rfl⟩ := hy
    · exact hfine (zero_view_call hc h)
    obtain ⟨hdata, hroot, hpay⟩ := viewAt_fields hfit
    have hb := int32_bounds (a : Int)
    rw [← hroot] at hb
    obtain hf | ⟨hneg, rfl⟩ := view_call hlen hlo hdata hb hc h
    · exact hfine hf
    · refine ⟨nofun, fun _ hlow => ?_⟩
      simp only [Value.Low, hpay] at hlow
      have := (viewAt_rootOff_neg hlen hfit).mp hneg
      omega
  | elems e l =>
    cases c <;> cases h
    exact hfine (elems_call hlen hlo hy.1 hy.2)
  | pointers s l =>
    cases c <;> cases h
    exact hfine (pointers_call hlen hlo hy.1 hy.2)
  | bytes s | number n => cases c <;> cases h

theorem reach_good (hlen : m.data.length < 2 ^ 32) (hlo : lo ≤ headerSize) (hx : x.Good m lo) (h : Reach ok x y) :
    y.Good m lo := by
  induction h with
  | start => exact hx
  | call _ _ hc hcall ih => exact (call_good hlen hlo ih hc hcall).1 _ rfl

theorem Value.Good.inside (h : y.Good m lo) : y.Inside m := by
  cases y with
  | bytes s =>
    cases s with
    | none => trivial
    | some x => exact (h x rfl).2
  | view v =>
    intro hz
    obtain rfl | ⟨a, size, -, -, hfit, rfl⟩ := h
    · cases hz
    · rw [(viewAt_fields hfit).2.2]
      exact span_inside hfit
  | _ => trivial

end Invariant

/-! ## No chain panics -/

/-- The chains from `Root` return no views: those come from `Wrap` only. -/
def Value.OnWire : Value → Prop
  | .object _ | .list _ | .bytes _ | .number _ => True
  | _ => False

theorem reach_onWire (hx : x.OnWire) (h : Reach ok x y) : y.OnWire := by
  induction h with
  | start => exact hx
  | @call y z c _ _ _ hcall ih =>
    cases y <;> cases c <;> simp only [Value.call, Option.some.injEq, reduceCtorEq] at hcall <;>
      first
      | exact ih.elim
      | (obtain ⟨a, -, rfl⟩ := map_ok hcall; trivial)
      | (cases hcall; trivial)

variable {m : Message}

theorem root_good (h : lo ≤ m.rootOffset) : (Value.object m.root).Good m lo := by
  have := m.rootOffset_lt
  exact .inr ⟨m.rootOffset, h, by omega, rfl⟩

theorem wrapped_good {b : List UInt8} (hs : s.Sized) (hp : parse b = .ok m) (hw : wrap s b = .ok (.ok v))
    (hlo : lo ≤ m.rootOffset) : (Value.view v).Good m lo ∧ v.isZero = false ∧ v.payload.start = m.rootOffset := by
  obtain ⟨m', hp', -, -, hfit, rfl⟩ := (wrap_ok_iff (hs.2.trans (by decide))).mp hw
  obtain rfl : m = m' := Except.ok.inj (hp.symm.trans hp')
  obtain ⟨hdata, -, hpay⟩ := viewAt_fields hfit
  refine ⟨.inr ⟨_, _, hlo, hs.1, hfit, rfl⟩, ?_, by rw [hpay]⟩
  rw [View.isZero, hdata]
  rfl

/-- A chain is safe if none of the views it reaches starts at `2 ^ 31` or later. -/
theorem safe_of_low (hlen : m.data.length < 2 ^ 32) (hx : x.Good m 0) (hlow : ∀ y, Reach Value.Continues x y → y.Low) :
    Safe m x := by
  intro y hy
  have hgood := reach_good hlen (Nat.zero_le _) hx hy
  exact ⟨hgood.inside, fun hgo c r hc hcall =>
    (call_good hlen (Nat.zero_le _) hgood hc hcall).2 hgo (hlow y hy)⟩

/-- The schema of one byte with which a view at `2 ^ 31` is followed to its fault. -/
def byteSchema : Schema := ⟨0, 1, "byte"⟩

theorem byteSchema_sized : byteSchema.Sized := ⟨by decide, by decide⟩

/-- A view at `2 ^ 31` or later faults as soon as a pointer of it is followed. -/
theorem high_view_faults (hlen : m.data.length < 2 ^ 32) (hv : (Value.view v).Good m 0)
    (hhigh : 2 ^ 31 ≤ v.payload.start) : v.nestedAt byteSchema 0 = .error .outOfRange := by
  obtain rfl | ⟨a, size, -, -, hfit, rfl⟩ := hv
  · simp only [View.zero] at hhigh
    omega
  obtain ⟨hdata, hroot, hpay⟩ := viewAt_fields hfit
  rw [hpay] at hhigh
  have hneg := (viewAt_rootOff_neg hlen hfit).mpr hhigh
  have hb := int32_bounds (a : Int)
  have hobj := Object.negative (m := m) (f := 0) (o := (m.viewAt size a).asObject) hdata
    (by rw [View.asObject, hroot]; exact hb.1) (by simpa [View.asObject] using hneg)
  simp only [View.nestedAt, hdata, hobj.1, go_bind_error]

/-- **No hostile message makes a reader panic, as far as its views stay below `2 ^ 31`.**  Every chain from
`Root` is safe. `Wrap` always returns, and a chain from the view it returns is safe exactly when no view
it reaches starts at `2 ^ 31` or later; a message of at most `2 ^ 31` bytes has no such view. -/
theorem reader_never_panics (b : List UInt8) :
    (∀ m, parse b = .ok m → Safe m (.object m.root)) ∧
    ∀ s : Schema, s.Sized → (∃ r, wrap s b = .ok r) ∧
      ∀ m v, parse b = .ok m → wrap s b = .ok (.ok v) →
        (Safe m (.view v) ↔
          ∀ w, Reach Value.Continues (.view v) (.view w) → w.payload.start < 2 ^ 31) ∧
        (declaredSize b ≤ 2 ^ 31 → Safe m (.view v)) := by
  refine ⟨fun m hp => ?_, fun s hs => ⟨wrap_returns (hs.2.trans (by decide)) b, fun m v hp hw => ?_⟩⟩
  · refine safe_of_low (parse_length_lt hp) (root_good (Nat.zero_le _)) fun y hy => ?_
    have hwire := reach_onWire (x := .object m.root) trivial hy
    cases y <;> trivial
  have hlen := parse_length_lt hp
  have hgood := (wrapped_good hs hp hw (Nat.zero_le _)).1
  have hiff : Safe m (.view v) ↔ ∀ w, Reach Value.Continues (.view v) (.view w) → w.payload.start < 2 ^ 31 := by
    constructor
    · intro hsafe w hw
      by_contra hhigh
      have hfault := high_view_faults hlen (reach_good hlen (Nat.zero_le _) hgood hw) (by omega)
      obtain ⟨z, hz⟩ := (hsafe _ hw).2 trivial (.nestedAt byteSchema 0) _
        ⟨by decide, byteSchema_sized⟩ rfl
      rw [hfault] at hz
      cases hz
    · intro hlow
      refine safe_of_low hlen hgood fun y hy => ?_
      cases y with
      | view w => exact hlow w hy
      | _ => trivial
  refine ⟨hiff, fun hsize => hiff.mpr fun w hw => ?_⟩
  obtain rfl | ⟨a, size, -, hpos, hfit, rfl⟩ := reach_good hlen (Nat.zero_le _) hgood hw
  · decide
  · rw [(viewAt_fields hfit).2.2]
    rw [parse_length hp] at hfit
    simp only
    omega

/-- A message of `17 + n` bytes whose root is its last byte. -/
def farRoot (n : Nat) : List UInt8 :=
  header version2 0 (headerSize + n) (headerSize + (n + 1)) ++ List.replicate (n + 1) 0

theorem farRoot_wraps (hn : n + 17 < 2 ^ 32) :
    ∃ m v, parse (farRoot n) = .ok m ∧ wrap byteSchema (farRoot n) = .ok (.ok v) ∧
      v.payload.start = headerSize + n := by
  have h16 : headerSize = 16 := rfl
  obtain ⟨m, hp, hdata, -, -, hroot⟩ := parse_header version2 0 (headerSize + n)
    (headerSize + (n + 1)) (List.replicate (n + 1) 0)
    (.inr rfl) (by rw [List.length_replicate]) (by omega)
  have hlen : m.data.length = headerSize + (n + 1) := by
    rw [hdata, List.length_append, header_length, List.length_replicate]
  rw [Nat.mod_eq_of_lt (by omega)] at hroot
  have hkind : m.data[m.rootOffset]? = some byteSchema.kind := by
    rw [hroot, hdata, List.getElem?_append_right (by rw [header_length]; omega), header_length,
      Nat.add_sub_cancel_left, List.getElem?_replicate, if_pos (by omega)]
    rfl
  have hfit : m.rootOffset + byteSchema.size ≤ m.data.length := by
    rw [hroot, hlen]
    exact Nat.le_refl _
  refine ⟨m, m.viewAt byteSchema.size m.rootOffset, hp, ?_, ?_⟩
  · exact (wrap_ok_iff (by decide)).mpr ⟨m, hp, by omega, hkind, hfit, rfl⟩
  · rw [(viewAt_fields hfit).2.2, hroot]

/-- A message of `2 ^ 31 + 1` bytes that `Wrap` accepts and on whose view `NestedAt` panics. -/
theorem far_root_panics :
    ∃ m v, parse (farRoot (2 ^ 31 - 16)) = .ok m ∧
      wrap byteSchema (farRoot (2 ^ 31 - 16)) = .ok (.ok v) ∧
      v.nestedAt byteSchema 0 = .error .outOfRange ∧ ¬Safe m (.view v) := by
  obtain ⟨m, v, hp, hw, hstart⟩ := farRoot_wraps (n := 2 ^ 31 - 16) (by omega)
  have hgood := (wrapped_good byteSchema_sized hp hw (Nat.zero_le _)).1
  have hfault := high_view_faults (parse_length_lt hp) hgood (by rw [hstart]; decide)
  refine ⟨m, v, hp, hw, hfault, fun hsafe => ?_⟩
  obtain ⟨z, hz⟩ := (hsafe _ .start).2 trivial (.nestedAt byteSchema 0) _
    ⟨by decide, byteSchema_sized⟩ rfl
  rw [hfault] at hz
  cases hz

/-! ## No value aliases the header -/

theorem Value.Good.behindHeader (hlen : m.data.length < 2 ^ 32) (h : y.Good m headerSize) : y.BehindHeader := by
  have htyped : ∀ {w : Nat} {l : TypedList}, l.From m w → 0 < l.length ∧ 0 ≤ l.offset →
      (headerSize : Int) ≤ l.offset := by
    rintro w l (rfl | ⟨t, n, ht16, ht, -, rfl⟩) hl
    · exact absurd hl.1 (by decide)
    simp only [Message.typedList] at hl ⊢
    split_ifs at hl ⊢ with hn
    · subst hn
      exact absurd hl.1 (by decide)
    have hlow : int32 (t : Int) = t := by
      unfold int32 at hl ⊢
      omega
    rw [hlow]
    omega
  cases y with
  | object o =>
    intro hnull
    obtain rfl | ⟨a, hla, -, rfl⟩ := h
    · cases hnull
    · exact Int.ofNat_le.mpr hla
  | list l =>
    intro hnull
    obtain rfl | ⟨t, n, ht16, -, -, rfl⟩ := h
    · cases hnull
    · exact Int.ofNat_le.mpr ht16
  | bytes s =>
    cases s with
    | none => trivial
    | some x => exact (h x rfl).1
  | number n => trivial
  | view v =>
    intro hz
    obtain rfl | ⟨a, size, hla, -, hfit, rfl⟩ := h
    · cases hz
    · rw [(viewAt_fields hfit).2.2]
      exact hla
  | elems e l | pointers s l => exact htyped h.2

/-- Whatever the root is, its bytes can be read, so a root inside the header is a header read. -/
theorem root_reads_header (h : m.rootOffset < headerSize) :
    ∃ y, Reach (fun _ => True) (.object m.root) y ∧ ¬y.BehindHeader := by
  have hh := m.header
  have h16 : headerSize = 16 := rfl
  refine ⟨.bytes (some ⟨m.rootOffset, window m.data m.rootOffset 1⟩),
    .call (c := .bytesFixedSlice 0 1) .start trivial ⟨by decide, by decide⟩ ?_, ?_⟩
  · have := Object.bytesFixedSlice_eval (m := m) (a := m.rootOffset) (f := 0) (n := 1) (by decide)
      (by omega)
    rw [Nat.add_zero, if_pos (by omega)] at this
    simp only [Value.call, Message.root, this]
    rfl
  · simp only [Value.BehindHeader]
    omega

/-- **No value aliases the header exactly when the root does not.**  For a message `Parse` accepts, every
non-null value any chain of calls from `Root` returns starts behind the header if and only if the root
offset in the header does; and so for the view `Wrap` returns. -/
theorem behind_header_iff {b : List UInt8} {m : Message} (hp : parse b = .ok m) :
    ((∀ y, Reach (fun _ => True) (.object m.root) y → y.BehindHeader) ↔ headerSize ≤ m.rootOffset) ∧
    ∀ (s : Schema) (v : View), s.Sized → wrap s b = .ok (.ok v) →
      ((∀ y, Reach (fun _ => True) (.view v) y → y.BehindHeader) ↔ headerSize ≤ m.rootOffset) := by
  have hlen := parse_length_lt hp
  refine ⟨⟨fun h => ?_, fun h y hy => ?_⟩, fun s v hs hw => ⟨fun h => ?_, fun h y hy => ?_⟩⟩
  · by_contra hlt
    obtain ⟨y, hy, hbad⟩ := root_reads_header (m := m) (by omega)
    exact hbad (h y hy)
  · exact (reach_good hlen (Nat.le_refl _) (root_good h) hy).behindHeader hlen
  · obtain ⟨-, hz, hstart⟩ := wrapped_good hs hp hw (Nat.zero_le _)
    rw [← hstart]
    exact h _ .start hz
  · exact (reach_good hlen (Nat.le_refl _) (wrapped_good hs hp hw h).1 hy).behindHeader hlen

/-- A message of one byte whose root offset is 4: its root is the version field. -/
def rootInHeader : List UInt8 := header version2 0 4 17 ++ [0]

set_option maxRecDepth 4000 in
/-- `Parse` and `Wrap` accept it, and the root object and the view start at offset 4. -/
theorem root_in_header_aliases :
    ∃ m v, parse rootInHeader = .ok m ∧ m.root.isNull = false ∧ m.root.offset = 4 ∧
      wrap ⟨2, 1, "version"⟩ rootInHeader = .ok (.ok v) ∧ v.isZero = false ∧ v.payload.start = 4 ∧
      ¬(Value.object m.root).BehindHeader ∧ ¬(Value.view v).BehindHeader := by
  refine ⟨_, _, rfl, rfl, rfl, rfl, rfl, rfl, fun h => ?_, fun h => ?_⟩
  · exact absurd (h rfl) (show ¬((headerSize : Int) ≤ (4 : Nat)) by decide)
  · exact absurd (h rfl) (show ¬(headerSize ≤ 4) by decide)

/-- A message whose root has a pointer to a byte string in its last bytes. -/
def pointing : List UInt8 := header version2 0 16 27 ++ (le 4 8 ++ le 4 3 ++ [1, 2, 3])

set_option maxRecDepth 4000 in
theorem behind_header_sample :
    ∃ m, parse pointing = .ok m ∧
      (∀ y, Reach (fun _ => True) (.object m.root) y → y.BehindHeader) ∧
      Reach (fun _ => True) (.object m.root) (.bytes (some ⟨24, [1, 2, 3]⟩)) := by
  have hp : parse pointing = .ok _ := rfl
  refine ⟨_, hp, (behind_header_iff hp).1.mpr (by decide), .call (c := .bytes 0) .start trivial
    (show 0 < 2 ^ 31 by decide) ?_⟩
  rfl

end Zap.Wire
