/-
# Zap.Wire.Lists — the readers of a list, against each other and against the writers.

A list field is a displacement and a count. Five readers interpret it: `Object.List` and `Object.ListStride`,
which differ in the bound they put on the count; the typed lists of `v1`, which narrow the position and the
count to `int32`; their iterators; and `ListNested.At` beside `List.ObjectPtr`, which both follow the
pointers a list is made of.

The typed readers agree with the raw list exactly as far as the two narrowed numbers are the numbers. A list
that a program has started and appended to lies before the cursor at its own stride, so `ListStride` accepts it
as soon as the displacement of the field reaches it.
-/
import Zap.Wire.Chain
import Zap.Wire.Stride

namespace Zap.Wire

open Zap.Lib

/-! ## Where a list field is -/

variable {t a n f : Nat} {v : View} {α : Type} {p : Build α} {ob : ObjectBuilder}

section Position

variable {m : Message} {o : Object}

theorem int64_bounds (x : Int) : -2 ^ 63 ≤ int64 x ∧ int64 x < 2 ^ 63 := by
  unfold int64
  omega

@[simp]
theorem objectAt_offset (t : Nat) : (m.objectAt t).offset = t := rfl

theorem objectAt_isNull (h : headerSize ≤ t) : (m.objectAt t).isNull = false := by
  have h16 : 16 ≤ t := h
  simp only [Object.isNull, objectAt_offset, beq_eq_false_iff_ne]
  omega

/-- `List` and `ListStride` look at one position of the message, or both fault. -/
theorem Object.list_position (hm : o.msg = some m) (hlen : m.data.length < 2 ^ 32) (f : Int) :
    (∃ a, o.list f = .ok (m.listView ((m.listAt a).filter (m.listFits ·))) ∧
      ∀ s, o.listStride f s = .ok (m.listView ((m.listAt a).filter (m.strideFits s ·)))) ∨
    (o.list f = .error .outOfRange ∧ ∀ s, o.listStride f s = .error .outOfRange) := by
  have hh : 16 ≤ m.data.length := m.header
  have hb := int64_bounds (o.offset + f)
  by_cases hin : 0 ≤ int64 (o.offset + f) ∧ int64 (o.offset + f) + 8 < 2 ^ 63
  · obtain ⟨a, ha⟩ : ∃ a : Nat, int64 (o.offset + f) = a := ⟨_, (Int.toNat_of_nonneg hin.1).symm⟩
    have hsum : int64 (o.offset + f) = int64 ((m.objectAt a).offset + ((0 : Nat) : Int)) := by
      rw [ha, objectAt_offset, Nat.cast_zero, add_zero, int64_id (by omega) (by omega)]
    refine .inl ⟨a + 0, ?_, fun s => ?_⟩
    · rw [← Object.list_eval (by omega) (by omega), Object.list, Object.list, hsum, hm]
      rfl
    · rw [← Object.listStride_eval (by omega) (by omega), Object.listStride, Object.listStride, hsum, hm]
      rfl
  · -- the bound on the end of the field does not see a position before the buffer, nor one that wraps
    have hstop : ¬int64 (int64 (o.offset + f) + 8) > m.data.length := by
      generalize int64 (o.offset + f) = pos at *
      unfold int64
      omega
    have hread : ∀ w, readLE w m.data (int64 (o.offset + f)) = .error .outOfRange :=
      fun w => readLE_outside (by omega)
    refine .inr ⟨?_, fun s => ?_⟩
    · simp only [Object.list, hm, dataOf, go_bind_ok, if_neg hstop, hread, go_bind_error]
    · simp only [Object.listStride, hm, dataOf, go_bind_ok, if_neg hstop, hread, go_bind_error]

theorem listView_cases {p : Nat × Nat → Bool} {l : ListView} (h : m.listView ((m.listAt a).filter p) = l) :
    l = .null ∨ ∃ t n, m.listAt a = some (t, n) ∧ p (t, n) = true ∧ headerSize ≤ t ∧
      t < m.data.length ∧ l = ⟨some m, t, n⟩ := by
  cases hl : (m.listAt a).filter p with
  | none =>
    rw [hl] at h
    exact .inl h.symm
  | some x =>
    obtain ⟨t, n⟩ := x
    rw [hl] at h
    obtain ⟨hat, hp⟩ := Option.mem_filter_iff.mp hl
    have hin := Message.listAt_some hat
    exact .inr ⟨t, n, hat, hp, hin.1, hin.2, h.symm⟩

/-- **A list `ListStride` accepts is the list `List` returns**, and its elements are inside the message. -/
theorem listStride_agrees (hlen : m.data.length < 2 ^ 32) (hm : o.msg = some m) {f : Int} {s : Nat}
    (hs : 1 ≤ s) {l : ListView} (h : o.listStride f s = .ok l) (hnull : l.isNull = false) :
    o.list f = .ok l ∧ ∀ i : Nat, (i : Int) < l.len →
      (headerSize : Int) ≤ l.offset + i * s ∧ l.offset + i * s + s ≤ m.data.length := by
  rcases Object.list_position hm hlen f with ⟨a, hlist, hstride⟩ | ⟨-, hfault⟩
  swap
  · rw [hfault] at h
    cases h
  rw [hstride] at h
  obtain rfl | ⟨t, n, hat, hp, h16, ht, rfl⟩ := listView_cases (Except.ok.inj h)
  · cases hnull
  have hfit : m.strideFits s (t, n) := of_decide_eq_true hp
  constructor
  · rw [hlist, hat, Message.listView_accepted (decide_eq_true (Message.strideFits_listFits hfit))]
  intro i hi
  rw [Message.strideFits, if_pos (by omega)] at hfit
  have hend := stride_end hfit (Int.ofNat_lt.mp hi)
  simp only
  norm_cast
  omega

end Position

/-! ## The typed list and its iterators -/

/-- `At`, `All`, `Payloads` and `Indexed` go over the same elements, and they are `Len` many. -/
def TypedList.Enumerates (l : TypedList) (e : Schema) : Prop :=
  ∃ xs : List View, (xs.length : Int) = l.len ∧ (∀ (i : Nat) x, xs[i]? = some x → l.elemAt e i = .ok x) ∧
    l.all e = .ok xs ∧ l.payloads e = .ok (xs.map View.payload) ∧
    l.indexed e = .ok (xs.mapIdx fun i x => (i, x))

section Typed

variable {m : Message} {e : Schema} {l : TypedList}

theorem TypedList.enumerates_empty (h : l.length = 0) : l.Enumerates e := by
  have hnone : l.elements e = .ok [] := by
    unfold TypedList.elements
    cases l.data with
    | none => rfl
    | some m => rw [h]; rfl
  refine ⟨[], h.symm, fun i x hx => ?_, ?_, ?_, ?_⟩
  · cases hx
  · rw [TypedList.all, hnone]
    rfl
  · rw [TypedList.payloads, hnone]
    rfl
  · rw [TypedList.indexed, hnone]
    rfl

/-- An iterator that yields at all has sliced the first element out of the message. -/
theorem TypedList.all_first {t n : Int} {x : View} {xs : List View}
    (h : (TypedList.mk (some m) t n).all e = .ok (x :: xs)) :
    0 ≤ int64 t ∧ int64 t ≤ int64 (int64 t + e.size) ∧ int64 (int64 t + e.size) ≤ m.data.length := by
  obtain ⟨ys, hys, hmap⟩ := go_bind_eq_ok.mp h
  simp only [TypedList.elements] at hys
  cases hn : n.toNat with
  | zero =>
    rw [hn] at hys
    cases hys
    cases hmap
  | succ k =>
    rw [hn, TypedList.scan] at hys
    simp only [Nat.cast_zero, zero_mul, add_zero] at hys
    split_ifs at hys with hstop
    · cases hys
      cases hmap
    · obtain ⟨payload, hslice, -⟩ := go_bind_eq_ok.mp hys
      unfold slice at hslice
      split_ifs at hslice with hc
      exact hc

theorem TypedList.Enumerates.first {t n : Int} (hn : 0 < n)
    (h : (TypedList.mk (some m) t n).Enumerates e) :
    0 ≤ int64 t ∧ int64 t ≤ int64 (int64 t + e.size) ∧ int64 (int64 t + e.size) ≤ m.data.length := by
  obtain ⟨xs, hlen, -, hall, -, -⟩ := h
  cases xs with
  | nil =>
    simp only [List.length_nil, TypedList.len, Nat.cast_zero] at hlen
    omega
  | cons x xs => exact TypedList.all_first hall

/-- The list at `t` with `n` elements, narrowed, is gone over as it is exactly when nothing was lost. -/
theorem typedList_enumerates_iff (hlen : m.data.length < 2 ^ 32) (h0 : n ≠ 0) (hs : 1 ≤ e.size) (hs' : e.size < 2 ^ 63)
    (ht : t < m.data.length) (hfit : m.strideFits (e.size % 2 ^ 32) (t, n)) :
    (m.typedList (some (t, n))).Enumerates e ↔ e.size < 2 ^ 32 ∧ t < 2 ^ 31 ∧ n < 2 ^ 31 := by
  have hle : n ≤ m.data.length := Message.strideFits_listFits hfit
  rw [Message.typedList, if_neg h0]
  constructor
  · intro henum
    -- the count is the length of what was yielded, so it did not turn negative
    have hn : n < 2 ^ 31 := by
      obtain ⟨xs, hxs, -⟩ := henum
      simp only [TypedList.len] at hxs
      unfold int32 at hxs
      omega
    rw [int32_id (x := (n : Int)) (by omega) (by omega)] at henum
    obtain ⟨hlo, hmid, hhi⟩ := henum.first (by omega)
    have ht31 : t < 2 ^ 31 := by
      unfold int64 int32 at hlo
      omega
    rw [int32_id (x := (t : Int)) (by omega) (by omega), int64_id (x := (t : Int)) (by omega) (by omega)]
      at hmid hhi
    unfold int64 at hmid hhi
    exact ⟨by omega, ht31, hn⟩
  · rintro ⟨hsize, ht31, hn⟩
    rw [int32_id (x := (n : Int)) (by omega) (by omega), int32_id (x := (t : Int)) (by omega) (by omega)]
    rw [Nat.mod_eq_of_lt hsize, Message.strideFits, if_pos (by omega)] at hfit
    obtain ⟨hget, hall, hpay, hidx⟩ := strideViews_read (by omega) hfit e rfl
    refine ⟨strideViews m e.size t n, ?_, hget, hall, hpay, hidx⟩
    simp only [strideViews, List.length_map, List.length_range, TypedList.len]

theorem listAt_enumerates_iff {raw : ListView} (hlen : m.data.length < 2 ^ 32) (hv : v.data = some m) (hs : 1 ≤ e.size)
    (hs' : e.size < 2 ^ 63) (hraw : v.asObject.listStride f (e.size % 2 ^ 32) = .ok raw) (hl : listAt v e f = .ok l) :
    l.Enumerates e ↔ raw.isNull = true ∨ raw.len = 0 ∨
      (e.size < 2 ^ 32 ∧ raw.offset < 2 ^ 31 ∧ raw.len < 2 ^ 31) := by
  rcases Object.list_position (o := v.asObject) hv hlen f with ⟨a, -, hstride⟩ | ⟨-, hfault⟩
  swap
  · rw [hfault] at hraw
    cases hraw
  rw [listAt, listWith_of_listStride hv (by omega) (hstride _)] at hl
  rw [hstride] at hraw
  cases hl
  cases hraw
  cases hat : (m.listAt a).filter (m.strideFits (e.size % 2 ^ 32) ·) with
  | none => exact ⟨fun _ => .inl rfl, fun _ => TypedList.enumerates_empty rfl⟩
  | some x =>
    obtain ⟨t, n⟩ := x
    obtain ⟨hin, hp⟩ := Option.mem_filter_iff.mp hat
    have ht := (Message.listAt_some hin).2
    simp only [Message.listView, ListView.isNull, ListView.len, Option.isNone_some, Bool.false_eq_true, false_or]
    by_cases h0 : n = 0
    · subst h0
      exact ⟨fun _ => .inl rfl, fun _ => TypedList.enumerates_empty rfl⟩
    · rw [typedList_enumerates_iff hlen h0 hs hs' ht (of_decide_eq_true hp)]
      omega

end Typed

/-! ## Lists of pointers -/

/-- `ListNested.At` is null exactly when `ObjectPtr` is or its target does not fit the element, and otherwise
views the offset `ObjectPtr` gives. -/
def NestedAgrees (m : Message) (s : Schema) (i : Int) (raw : ListView) (l : TypedList) : Prop :=
  ∃ x o, l.nestedElemAt s i = .ok x ∧ raw.objectPtr i = .ok o ∧
    (x.isZero = true ↔ o.isNull = true ∨ m.data.length < o.offset + s.size) ∧
    (x.isZero = false → x.payload.start = o.offset ∧ x.rootOff = o.offset)

section Nested

variable {m : Message} {s : Schema} {i : Int} {raw : ListView} {l : TypedList} {o : Object}

/-- Where `At` returns the null view, the two agree if there is nothing to view. -/
theorem nestedAgrees_null (hx : l.nestedElemAt s i = .ok .zero) (ho : raw.objectPtr i = .ok o) :
    NestedAgrees m s i raw l ↔ o.isNull = true ∨ m.data.length < o.offset + s.size := by
  constructor
  · rintro ⟨x, o', hx', ho', hiff, -⟩
    cases hx.symm.trans hx'
    cases ho.symm.trans ho'
    exact hiff.mp rfl
  · intro h
    refine ⟨.zero, o, hx, ho, ⟨fun _ => h, fun _ => rfl⟩, fun hz => ?_⟩
    cases hz

/-- Outside the raw list there is no object, and the null view is right. -/
theorem nestedAgrees_outside {P : Prop} (hi : i < 0 ∨ i ≥ raw.length) (hx : l.nestedElemAt s i = .ok .zero)
    (ho : raw.objectPtr i = .ok o) : NestedAgrees m s i raw l ↔ o.isNull = true ∨ P := by
  cases ho.symm.trans (ListView.outside hi).2.2.1
  rw [nestedAgrees_null hx ho]
  exact ⟨fun _ => .inl rfl, fun _ => .inl rfl⟩

/-- Where both follow the pointer, they agree unless the view's offset is narrowed. -/
theorem nestedAgrees_follow (hx : l.nestedElemAt s i = .ok (m.pointeeView s.size (m.follow a)))
    (ho : raw.objectPtr i = .ok (m.pointee (m.follow a))) :
    NestedAgrees m s i raw l ↔ (m.pointee (m.follow a)).isNull = true ∨
      m.data.length < (m.pointee (m.follow a)).offset + s.size ∨
      (m.pointee (m.follow a)).offset < 2 ^ 31 := by
  cases ht : m.follow a with
  | none =>
    rw [ht] at hx ho
    rw [nestedAgrees_null hx ho]
    exact ⟨fun _ => .inl rfl, fun _ => .inl rfl⟩
  | some t =>
    have hin := Message.follow_some ht
    rw [ht] at hx ho
    simp only [Message.pointee, Message.pointeeView, objectAt_isNull hin.1, Bool.false_eq_true, false_or] at hx ho ⊢
    by_cases hfit : t + s.size ≤ m.data.length
    · obtain ⟨hdata, hroot, hpay⟩ := viewAt_fields hfit
      have hz : (m.viewAt s.size t).isZero = false := by rw [View.isZero, hdata]; rfl
      constructor
      · rintro ⟨x, o, hx', ho', -, hsame⟩
        cases hx.symm.trans hx'
        cases ho.symm.trans ho'
        have h := (hsame hz).2
        rw [hroot, objectAt_offset] at h
        have hb := int32_bounds (t : Int)
        rw [h] at hb
        exact .inr hb.2
      · intro hor
        have ht31 : (t : Int) < 2 ^ 31 := by
          rw [objectAt_offset] at hor
          omega
        refine ⟨_, _, hx, ho, ?_, fun _ => ⟨by rw [hpay]; rfl, ?_⟩⟩
        · rw [hz, objectAt_isNull hin.1, objectAt_offset]
          simp only [Bool.false_eq_true, false_or, false_iff]
          omega
        · rw [hroot, int32_id (by omega) ht31, objectAt_offset]
    · rw [Message.viewAt, if_neg hfit] at hx
      rw [nestedAgrees_null hx ho, objectAt_isNull hin.1, objectAt_offset]
      simp only [Bool.false_eq_true, false_or]
      omega

theorem nestedElemAt_outside (h : i < 0 ∨ i ≥ l.length) : l.nestedElemAt s i = .ok .zero := by
  unfold TypedList.nestedElemAt
  cases l.data with
  | none => rfl
  | some m => exact if_pos h

/-- The same of a list of `n` pointers at `t`, once `ListStride` has accepted it. -/
theorem nestedAgrees_list (hlen : m.data.length < 2 ^ 32) (hs : 1 ≤ s.size) (hs' : s.size < 2 ^ 63)
    (ht : t < m.data.length) (hi : 0 ≤ i ∧ i < n) (hfit : t + n * 4 ≤ m.data.length)
    (ho : (ListView.mk (some m) t n).objectPtr i = .ok o) :
    NestedAgrees m s i ⟨some m, t, n⟩ (m.typedList (some (t, n))) ↔ o.isNull = true ∨
      m.data.length < o.offset + s.size ∨ (t < 2 ^ 31 ∧ o.offset < 2 ^ 31) := by
  obtain ⟨k, rfl⟩ : ∃ k : Nat, i = k := ⟨_, (Int.toNat_of_nonneg hi.1).symm⟩
  have hk : k < n := by omega
  have heval := ListView.objectPtr_eval (m := m) (a := t) (n := n) (i := k) (by omega) (by omega) ht hk
  cases ho.symm.trans heval
  have hlist : m.typedList (some (t, n)) = ⟨some m, int32 t, n⟩ := by
    rw [Message.typedList, if_neg (by omega), int32_id (x := (n : Int)) (by omega) (by omega)]
  rw [hlist]
  by_cases ht31 : t < 2 ^ 31
  · have hx := TypedList.nestedElemAt_eval (m := m) (t := t) hk (by omega) hs' (by omega) ht (by omega)
    rw [int32_id (x := (t : Int)) (by omega) (by omega), nestedAgrees_follow hx heval]
    simp only [ht31, true_and]
  -- the slots of a list at `2 ^ 31` or later are before the message for `At`
  have hneg : int64 (int32 (t : Int) + (k : Int) * objPtrStride) < 0 := by
    simp only [objPtrStride]
    unfold int64 int32
    omega
  have hx : (TypedList.mk (some m) (int32 t) n).nestedElemAt s k = .ok .zero := by
    simp only [TypedList.nestedElemAt]
    rw [if_neg (by omega), if_pos (.inl hneg), go_pure]
  rw [nestedAgrees_null hx heval]
  simp only [ht31, false_and, or_false]

theorem listView_objectPtr (hlen : m.data.length < 2 ^ 32) :
    ∃ o, (m.listView ((m.listAt a).filter (m.listFits ·))).objectPtr i = .ok o := by
  obtain h | ⟨t, n, -, hp, -, ht, h⟩ := listView_cases (m := m) (a := a) (p := (m.listFits ·)) rfl
  · rw [h]
    exact ⟨_, (ListView.outside (by simp only [ListView.null]; omega)).2.2.1⟩
  have hn : n ≤ m.data.length := of_decide_eq_true hp
  rw [h]
  by_cases hi : 0 ≤ i ∧ i < n
  · obtain ⟨k, rfl⟩ : ∃ k : Nat, i = k := ⟨_, (Int.toNat_of_nonneg hi.1).symm⟩
    exact ⟨_, ListView.objectPtr_eval (by omega) hn ht (by omega)⟩
  · exact ⟨_, (ListView.outside (by simp only; omega)).2.2.1⟩

theorem listNestedAt_agrees_iff (hlen : m.data.length < 2 ^ 32) (hv : v.data = some m) (hs : 1 ≤ s.size)
    (hs' : s.size < 2 ^ 63) (hraw : v.asObject.list f = .ok raw) (hl : listNestedAt v f = .ok l) :
    ∃ o, raw.objectPtr i = .ok o ∧ (NestedAgrees m s i raw l ↔ o.isNull = true ∨
      m.data.length < o.offset + s.size ∨
      (raw.offset + raw.len * 4 ≤ m.data.length ∧ raw.offset < 2 ^ 31 ∧ o.offset < 2 ^ 31)) := by
  rcases Object.list_position (o := v.asObject) hv hlen f with ⟨a, hlist, hstride⟩ | ⟨hfault, -⟩
  swap
  · rw [hfault] at hraw
    cases hraw
  rw [listNestedAt, listWith_of_listStride hv (by omega) (hstride _)] at hl
  rw [hlist] at hraw
  cases hl
  cases hraw
  obtain ⟨o, ho⟩ := listView_objectPtr (a := a) (i := i) hlen
  refine ⟨o, ho, ?_⟩
  cases hat : m.listAt a with
  | none =>
    rw [hat] at ho
    exact nestedAgrees_outside (by simp only [Option.filter_none, Message.listView, ListView.null]; omega)
      rfl ho
  | some x =>
    obtain ⟨t, n⟩ := x
    have ht := (Message.listAt_some hat).2
    rw [hat] at ho
    by_cases hfit : m.strideFits objPtrStride (t, n)
    · have hraw : (some (t, n)).filter (m.listFits ·) = some (t, n) :=
        Option.filter_some_pos (decide_eq_true (Message.strideFits_listFits hfit))
      have htyped : (some (t, n)).filter (m.strideFits objPtrStride ·) = some (t, n) :=
        Option.filter_some_pos (decide_eq_true hfit)
      rw [htyped]
      rw [hraw, Message.listView] at ho ⊢
      have hfit4 : t + n * 4 ≤ m.data.length := hfit
      by_cases hi : 0 ≤ i ∧ i < n
      · rw [nestedAgrees_list hlen hs hs' ht hi hfit4 ho]
        simp only [ListView.len]
        norm_cast
        simp only [hfit4, true_and]
      · refine nestedAgrees_outside (by simp only; omega) (nestedElemAt_outside ?_) ho
        simp only [Message.typedList]
        rw [int32_id (x := (n : Int)) (by omega) (by omega)]
        omega
    · -- `ListNestedAt` has refused the list, and is null at every index
      have hnone : (some (t, n)).filter (m.strideFits objPtrStride ·) = none :=
        Option.filter_some_neg (by simpa using hfit)
      rw [hnone, nestedAgrees_null rfl ho]
      by_cases hlist : m.listFits (t, n)
      · have hfit4 : ¬t + n * 4 ≤ m.data.length := hfit
        rw [Message.listView_accepted (decide_eq_true hlist)]
        simp only [ListView.len]
        norm_cast
        simp only [hfit4, false_and, or_false]
      · rw [Option.filter_some_neg (by simpa using hlist), Message.listView] at ho
        obtain rfl := Except.ok.inj (ho.symm.trans
          (ListView.outside (by simp only [ListView.null]; omega)).2.2.1)
        exact ⟨fun _ => .inl rfl, fun _ => .inl rfl⟩

end Nested

/-! ## The lists a builder writes -/

section Cursor

variable {b b' : Builder}

theorem run_pos_le {x : α × Builder} (h : Builder.run p b = .ok x) : b.pos ≤ x.2.pos := by
  induction p generalizing b with
  | ret a =>
    cases h
    exact Nat.le_refl _
  | ask r k ih =>
    obtain ⟨y, hy, hx⟩ := go_bind_eq_ok.mp h
    exact (answer_pos_le hy).trans (ih _ hx)

/-- An object that has been started and filled lies before the cursor, behind where the cursor was. -/
theorem buildObject_span {init : ObjectBuilder → Build Unit} (h : Builder.run (buildObject n init) b = .ok (ob, b')) :
    b.pos ≤ ob.startPos ∧ ob.startPos + n ≤ b'.pos := by
  rw [buildObject, Builder.run_bind] at h
  obtain ⟨⟨ob1, b1⟩, hstart, h⟩ := go_bind_eq_ok.mp h
  rw [Builder.run_bind] at h
  obtain ⟨⟨u, b2⟩, hinit, h⟩ := go_bind_eq_ok.mp h
  cases h
  have hans : b.answer (.startObject n) = .ok (ob1, b1) := (Builder.run_request _ b).symm.trans hstart
  cases hans
  exact ⟨Nat.le_add_right _ _, (Builder.ensureField_reserves _ _ _).trans (run_pos_le hinit)⟩

end Cursor

/-- A `ListBuilder` at work: started on a builder that may have been used before, appended to at one width,
and between its calls any other call of the program. -/
inductive ListWrite (stride : Nat) : Builder → ListBuilder → Prop
  | startList {v g : Nat} {b : Builder} : Used v g b → ListWrite stride b.startList.2 b.startList.1
  | addUint {b : Builder} {lb : ListBuilder} (w : Width) (v : Nat) : ListWrite stride b lb →
      w.bytes = stride → ListWrite stride (b.addUint w lb v).2 (b.addUint w lb v).1
  | addBytes {b : Builder} {lb : ListBuilder} (d : List UInt8) : ListWrite stride b lb →
      stride = 1 → ListWrite stride (b.addBytes lb d).2 (b.addBytes lb d).1
  | addObjectPtr {b : Builder} {lb : ListBuilder} (t : Nat) : ListWrite stride b lb →
      stride = objPtrStride → ListWrite stride (b.addObjectPtr lb t).2 (b.addObjectPtr lb t).1
  | call {b : Builder} {lb : ListBuilder} {r : BuildReq} {x : r.Resp × Builder} :
      ListWrite stride b lb → b.answer r = .ok x → ListWrite stride x.2 lb

/-- An `ElemSetter` at work, the same way. -/
inductive ElemWrite : Builder → ElemSetter → Prop
  | start {v g stride : Nat} {b : Builder} : Used v g b → ElemWrite b ⟨stride, 0, 0⟩
  | append {b b' : Builder} {es es' : ElemSetter} {init : ObjectBuilder → Build Unit} :
      ElemWrite b es → Builder.run (es.append init) b = .ok (es', b') → ElemWrite b' es'
  | call {b : Builder} {es : ElemSetter} {r : BuildReq} {x : r.Resp × Builder} :
      ElemWrite b es → b.answer r = .ok x → ElemWrite x.2 es

/-- A program has written `count` elements of `stride` bytes at `start`. -/
def ListWritten (stride : Nat) (b : Builder) (start count : Nat) : Prop :=
  ListWrite stride b ⟨start, count⟩ ∨ ElemWrite b ⟨stride, count, start⟩

section Writers

variable {b : Builder} {stride start count : Nat}

theorem Used.answer {v g : Nat} {r : BuildReq} {x : r.Resp × Builder} (h : Used v g b)
    (hx : b.answer r = .ok x) : Used v g x.2 :=
  h.run ((Builder.run_request r b).trans hx)

theorem ListWrite.inside {lb : ListBuilder} (h : ListWrite stride b lb) :
    headerSize ≤ lb.startPos ∧ lb.startPos + lb.count * stride ≤ b.pos ∧ ∃ v g, Used v g b := by
  induction h with
  | @startList v g b hb =>
    refine ⟨(b.align alignment).past_header, ?_, v, g, hb.answer (r := .startList) rfl⟩
    simp only [Builder.startList, Nat.zero_mul, Nat.add_zero, Nat.le_refl]
  | @addUint b lb w v _ hw ih =>
    obtain ⟨h16, hin, v', g, hb⟩ := ih
    refine ⟨h16, ?_, v', g, hb.answer (r := .addUint w lb v) rfl⟩
    simp only [Builder.addUint, Builder.extend_pos, le_length, hw, Nat.add_mul, Nat.one_mul]
    omega
  | @addBytes b lb d _ hw ih =>
    obtain ⟨h16, hin, v', g, hb⟩ := ih
    refine ⟨h16, ?_, v', g, hb.answer (r := .addBytes lb d) rfl⟩
    simp only [Builder.addBytes, Builder.extend_pos, hw, Nat.mul_one] at hin ⊢
    omega
  | @addObjectPtr b lb t _ hw ih =>
    obtain ⟨h16, hin, v', g, hb⟩ := ih
    refine ⟨h16, ?_, v', g, hb.answer (r := .addObjectPtr lb t) rfl⟩
    have hlen : (if t = 0 then le 4 0 else relWord t b.pos).length = objPtrStride := by
      split_ifs
      · exact le_length 4 0
      · exact relWord_length t b.pos
    simp only [Builder.addObjectPtr, Builder.extend_pos, hlen, hw, Nat.add_mul, Nat.one_mul] at hin ⊢
    omega
  | call _ hx ih =>
    obtain ⟨h16, hin, v', g, hb⟩ := ih
    exact ⟨h16, hin.trans (answer_pos_le hx), v', g, hb.answer hx⟩

theorem ElemWrite.inside {es : ElemSetter} (h : ElemWrite b es) :
    (es.count ≠ 0 → headerSize ≤ es.startPos) ∧ es.startPos + es.count * es.stride ≤ b.pos ∧ ∃ v g, Used v g b := by
  induction h with
  | @start v g stride b hb =>
    exact ⟨fun h => absurd rfl h, by simp only [Nat.zero_mul, Nat.add_zero, Nat.zero_le], v, g, hb⟩
  | @append b b' es es' init _ hrun ih =>
    obtain ⟨h16, hin, v, g, hb⟩ := ih
    have hused : Used v g b' := hb.run hrun
    rw [ElemSetter.append, Builder.run_bind] at hrun
    obtain ⟨⟨ob, b1⟩, hobj, hrun⟩ := go_bind_eq_ok.mp hrun
    cases hrun
    obtain ⟨hlo, hhi⟩ := buildObject_span hobj
    refine ⟨fun _ => ?_, ?_, v, g, hused⟩
    · simp only
      split_ifs with h0
      · exact ob.past_header
      · exact h16 h0
    · simp only [Nat.add_mul, Nat.one_mul]
      split_ifs with h0
      · rw [h0]
        omega
      · omega
  | call _ hx ih =>
    obtain ⟨h16, hin, v, g, hb⟩ := ih
    exact ⟨h16, hin.trans (answer_pos_le hx), v, g, hb.answer hx⟩

theorem ListWritten.inside (h : ListWritten stride b start count) :
    (count ≠ 0 → headerSize ≤ start) ∧ start + count * stride ≤ b.pos ∧ ∃ v g, Used v g b := by
  rcases h with h | h
  · exact ⟨fun _ => h.inside.1, h.inside.2⟩
  · exact h.inside

theorem setList_window {b' : Builder} (h : b.setList ob f t n = .ok b') :
    ob.startPos + f + 8 ≤ b'.pos ∧ window b'.written (ob.startPos + f) 8 =
      if t = 0 ∨ n = 0 then nullPair else pairWord t (ob.startPos + f) n := by
  have hres := b.ensureField_reserves ob (f + 8)
  rw [Builder.setList] at h
  generalize b.ensureField ob (f + 8) = d at *
  have hpatch : ∀ {bs cs : List UInt8}, bs.length = 4 → cs.length = 4 →
      (d.patch (ob.startPos + f) bs >>= fun e => e.patch (ob.startPos + f + 4) cs) = .ok b' →
      ob.startPos + f + 8 ≤ b'.pos ∧ window b'.written (ob.startPos + f) 8 = bs ++ cs := by
    intro bs cs hbs hcs h
    obtain ⟨e, he, hpos, -, hw⟩ := d.patch_twice_ok (ob.startPos + f) bs cs (by omega)
    rw [hbs, h] at he
    cases he
    have hlen : (bs ++ cs).length = 8 := by rw [List.length_append, hbs, hcs]
    refine ⟨by omega, ?_⟩
    rw [hw, ← hlen, window_overwrite_self]
    rw [hlen, Builder.written_length]
    omega
  split_ifs at h ⊢
  · exact hpatch (le_length 4 0) (le_length 4 0) h
  · exact hpatch (relWord_length _ _) (le_length 4 n) h

/-- **A written list is read back at its own stride** exactly when the field's displacement reaches it. The
program may go on after `SetList`, as long as it leaves the field alone. -/
theorem written_list_accepted_iff {b1 b2 : Builder} {y : α} (hs : 1 ≤ stride) (h : ListWritten stride b start count)
    (hset : b.setList ob f start count = .ok b1) (hrun : Builder.run p b1 = .ok (y, b2))
    (hkeep : window b2.written (ob.startPos + f) 8 = window b1.written (ob.startPos + f) 8) (hsize : b2.pos < 2 ^ 32) :
    ∃ m, parse b2.finish.1 = .ok m ∧
      (count = 0 → (m.objectAt ob.startPos).listStride f stride = .ok .null) ∧
      (count ≠ 0 → ((m.objectAt ob.startPos).listStride f stride = .ok ⟨some m, start, count⟩ ↔
        start ≠ ob.startPos + f ∧ -2 ^ 31 ≤ (start : Int) - (ob.startPos + f : Nat) ∧
          (start : Int) - (ob.startPos + f : Nat) < 2 ^ 31)) := by
  obtain ⟨h16, hin, v, g, hb⟩ := h.inside
  have hcall : b.answer (.setList ob f start count) = .ok ((), b1) := by
    rw [Builder.answer, hset]
    rfl
  have hused : Used v g b2 := (hb.answer hcall).run hrun
  have hpos1 : b.pos ≤ b1.pos := answer_pos_le hcall
  have hpos2 : b1.pos ≤ b2.pos := run_pos_le hrun
  obtain ⟨hfield, hword⟩ := setList_window hset
  obtain ⟨m, hp, hlen, -, -, -, hwin⟩ := head_parses hused.version hused.head.1 hsize
  have hstart := ob.past_header
  rw [← hkeep, ← hwin _ _ (by omega)] at hword
  refine ⟨m, hp, fun h0 => ?_, fun h0 => ?_⟩
  all_goals rw [Object.listStride_eval (by omega) (by omega)]
  · rw [if_pos (.inr h0)] at hword
    rw [(listAt_of_nullPair (by omega) hword).1]
    rfl
  have hmul : count * 1 ≤ count * stride := Nat.mul_le_mul_left _ hs
  have hge := h16 h0
  have h16' : headerSize = 16 := rfl
  rw [if_neg (by omega)] at hword
  obtain ⟨hrel, hcount⟩ := pairWord_words (by omega) hword (by omega)
  have hfit : m.strideFits stride (start, count) := by
    rw [Message.strideFits, if_pos (by omega), hlen]
    exact (hin.trans hpos1).trans hpos2
  rw [← follow_relWord_iff (m := m) (by omega) hge (by omega) hrel]
  constructor
  · intro hok
    obtain hnull | ⟨t, n, hat, -, -, -, heq⟩ := listView_cases (Except.ok.inj hok)
    · cases hnull
    obtain ⟨-, ht, -⟩ := ListView.mk.inj heq
    obtain rfl : start = t := Int.ofNat.inj ht
    rw [Message.listAt_of_le (by omega)] at hat
    obtain ⟨t', hfol, hpair⟩ := Option.map_eq_some_iff.mp hat
    rw [hfol, (Prod.mk.inj hpair).1]
  · intro hfol
    rw [Message.listAt_of_le (by omega), hcount, hfol, Option.map_some,
      Message.listView_accepted (decide_eq_true hfit)]

end Writers

/-! ## The readers agree -/

/-- **When the list readers agree.**  On every message `Parse` accepts a list that `ListStride` accepts is the
list of `List` and lies inside the message. The typed list goes over the same elements exactly when it is
empty or its position, its count and its stride fit the words they are kept in; `ListNested.At` agrees with
`ObjectPtr` exactly when there is nothing to view, or the slots fit the message and both positions fit 31 bits.
What a builder has written `ListStride` accepts exactly when the field's displacement reaches it. -/
theorem list_readers_agree_iff (data : List UInt8) :
    (∀ m, parse data = .ok m →
      (∀ (o : Object) (f : Int) (s : Nat) (l : ListView), o.msg = some m → 1 ≤ s →
        o.listStride f s = .ok l → l.isNull = false →
        o.list f = .ok l ∧ ∀ i : Nat, (i : Int) < l.len →
          (headerSize : Int) ≤ l.offset + i * s ∧ l.offset + i * s + s ≤ m.data.length) ∧
      (∀ (v : View) (e : Schema) (f : Nat) (raw : ListView) (l : TypedList), v.data = some m →
        1 ≤ e.size → e.size < 2 ^ 63 → v.asObject.listStride f (e.size % 2 ^ 32) = .ok raw →
        listAt v e f = .ok l →
        (l.Enumerates e ↔ raw.isNull = true ∨ raw.len = 0 ∨
          (e.size < 2 ^ 32 ∧ raw.offset < 2 ^ 31 ∧ raw.len < 2 ^ 31))) ∧
      (∀ (v : View) (s : Schema) (f : Nat) (raw : ListView) (l : TypedList) (i : Int), v.data = some m →
        1 ≤ s.size → s.size < 2 ^ 63 → v.asObject.list f = .ok raw → listNestedAt v f = .ok l →
        ∃ o, raw.objectPtr i = .ok o ∧ (NestedAgrees m s i raw l ↔ o.isNull = true ∨
          m.data.length < o.offset + s.size ∨
          (raw.offset + raw.len * 4 ≤ m.data.length ∧ raw.offset < 2 ^ 31 ∧ o.offset < 2 ^ 31)))) ∧
    ∀ (α : Type) (p : Build α) (y : α) (b b₁ b₂ : Builder) (ob : ObjectBuilder)
      (stride start count f : Nat), 1 ≤ stride → ListWritten stride b start count →
      b.setList ob f start count = .ok b₁ → Builder.run p b₁ = .ok (y, b₂) →
      window b₂.written (ob.startPos + f) 8 = window b₁.written (ob.startPos + f) 8 →
      b₂.pos < 2 ^ 32 → ∃ m, parse b₂.finish.1 = .ok m ∧
        (count = 0 → (m.objectAt ob.startPos).listStride f stride = .ok .null) ∧
        (count ≠ 0 → ((m.objectAt ob.startPos).listStride f stride = .ok ⟨some m, start, count⟩ ↔
          start ≠ ob.startPos + f ∧ -2 ^ 31 ≤ (start : Int) - (ob.startPos + f : Nat) ∧
            (start : Int) - (ob.startPos + f : Nat) < 2 ^ 31)) := by
  refine ⟨fun m hp => ?_, fun _ _ _ _ _ _ _ _ _ _ _ hs h hset hrun hkeep hsize =>
    written_list_accepted_iff hs h hset hrun hkeep hsize⟩
  have hlen := parse_length_lt hp
  refine ⟨?_, ?_, ?_⟩
  · intro o f s l hm hs h hnull
    exact listStride_agrees hlen hm hs h hnull
  · intro v e f raw l hv hs hs' hraw hl
    exact listAt_enumerates_iff hlen hv hs hs' hraw hl
  · intro v s f raw l i hv hs hs' hraw hl
    exact listNestedAt_agrees_iff hlen hv hs hs' hraw hl

/-- The root of the two messages below: a kind byte and a list field at offset 4 or 8. -/
def listSchema : Schema := ⟨0, 16, "list"⟩

/-- A message whose root has, at offset 8, a list of one byte: the last byte of the message. -/
def farList (rest : Nat) : List UInt8 :=
  header version2 0 headerSize (32 + rest) ++
    (List.replicate 8 0 ++ (le 4 (7 + rest) ++ (le 4 1 ++ List.replicate rest 0)))

/-- A message whose root has, at offset 4, a list of `count` pointers and room for one: it leads back to the
root. -/
def pointers (count : Nat) : List UInt8 :=
  header version2 0 headerSize 32 ++ (le 4 0 ++ (le 4 8 ++ (le 4 count ++ relWord 16 28)))

section Samples

theorem farList_reads (rest : Nat) (h0 : 0 < rest) (h : 7 + rest < 2 ^ 31) :
    ∃ m, parse (farList rest) = .ok m ∧
      wrap listSchema (farList rest) = .ok (.ok (m.viewAt listSchema.size headerSize)) ∧
      m.data.length = 32 + rest ∧ m.listAt 24 = some (31 + rest, 1) := by
  have h16 : headerSize = 16 := rfl
  obtain ⟨m, hp, hdata, -, -, hroot⟩ := parse_header version2 0 headerSize (32 + rest)
    (List.replicate 8 0 ++ (le 4 (7 + rest) ++ (le 4 1 ++ List.replicate rest 0))) (.inr rfl)
    (by simp only [List.length_append, List.length_replicate, le_length]; omega) (by omega)
  have hroot : m.rootOffset = headerSize := hroot
  have hlen : m.data.length = 32 + rest := by
    rw [hdata, List.length_append, header_length]
    simp only [List.length_append, List.length_replicate, le_length]
    omega
  have hkind : m.data[headerSize]? = some listSchema.kind := by
    rw [hdata, List.getElem?_append_right (by rw [header_length]), header_length, Nat.sub_self,
      List.getElem?_append_left (by rw [List.length_replicate]; decide)]
    rfl
  have hsize : listSchema.size = 16 := rfl
  have hw1 : window m.data 24 4 = le 4 (7 + rest) := by
    rw [hdata, ← List.append_assoc]
    exact window_mid (by simp) (le_length 4 _)
  have hw2 : window m.data 28 4 = le 4 1 := by
    rw [hdata, ← List.append_assoc, ← List.append_assoc]
    exact window_mid (by simp) (le_length 4 _)
  have hword : int32 (m.uintAt 4 24) = 7 + rest := by
    rw [uintAt_of_window (by omega) hw1, Nat.mod_eq_of_lt (by omega), int32_id] <;> push_cast <;> omega
  refine ⟨m, hp, ?_, hlen, ?_⟩
  · refine (wrap_ok_iff (by decide)).mpr ⟨m, hp, by omega, by rw [hroot]; exact hkind, by omega, ?_⟩
    rw [hroot]
  have hfol : m.follow 24 = some (31 + rest) := by
    have h0 : int32 (m.uintAt 4 24) ≠ 0 := by omega
    obtain ⟨t, ht, habs⟩ := Message.follow_inside h0 (by omega)
    have hlast : t = 31 + rest := by omega
    rw [ht, hlast]
  have hcount : m.uintAt 4 (24 + 4) = 1 := (uintAt_of_window (by omega) hw2).trans (by decide)
  rw [Message.listAt_of_le (by omega), hfol, hcount, Option.map_some]

/-- The list `ListAt` gives of that field, as long as its pointer is signed. -/
theorem farList_listAt (rest : Nat) (h0 : 0 < rest) (h : 7 + rest < 2 ^ 31) :
    ∃ m v, parse (farList rest) = .ok m ∧ wrap listSchema (farList rest) = .ok (.ok v) ∧
      v.data = some m ∧ m.data.length = 32 + rest ∧
      v.asObject.listStride 8 1 = .ok ⟨some m, (31 + rest : Nat), 1⟩ ∧
      listAt v byteSchema 8 = .ok ⟨some m, int32 (31 + rest : Nat), 1⟩ := by
  have h16 : headerSize = 16 := rfl
  obtain ⟨m, hp, hw, hlen, hat⟩ := farList_reads rest h0 h
  have hsize : listSchema.size = 16 := rfl
  have hroom : headerSize + listSchema.size ≤ m.data.length := by omega
  obtain ⟨hdata, hroot, -⟩ := viewAt_fields hroom
  have hsum : (m.viewAt listSchema.size headerSize).rootOff + (8 : Nat) = (24 : Nat) := by
    rw [hroot, int32_id (by omega) (by omega)]
    rfl
  have hfit : (some (31 + rest, 1)).filter (m.strideFits 1 ·) = some (31 + rest, 1) := by
    refine Option.filter_some_pos (decide_eq_true ?_)
    rw [Message.strideFits, if_pos (by decide)]
    omega
  refine ⟨m, _, hp, hw, hdata, hlen, ?_, ?_⟩
  · have hraw := (View.asObject_eval hdata hsum (by omega) (by omega)).2 1
    rw [hat, hfit] at hraw
    exact hraw
  · have hlist : listWith _ 1 8 = .ok _ := listWith_eval hdata hsum (by omega) (by omega)
    rw [hat, hfit, Message.typedList, if_neg (by decide), Nat.cast_one,
      int32_id (x := 1) (by decide) (by decide)] at hlist
    exact hlist

/-- A typed list whose position has turned negative: `At` has no element, and the iterators fault. -/
theorem TypedList.negative {m : Message} {e : Schema} {t : Int} (hmin : -2 ^ 31 ≤ t) (ht : t + e.size ≤ 0) (hn : 0 < n)
    (hs : 0 < e.size) :
    (TypedList.mk (some m) t n).elemAt e 0 = .ok .zero ∧ (TypedList.mk (some m) t n).all e = .error .outOfRange := by
  have h1 : int64 (t + ((0 : Nat) : Int) * e.size) = t := by
    rw [Nat.cast_zero, zero_mul, add_zero, int64_id (by omega) (by omega)]
  have h2 : int64 (t + e.size) = t + e.size := int64_id (by omega) (by omega)
  constructor
  · simp only [TypedList.elemAt, Option.isNone_some, Bool.false_eq_true, false_or, zero_mul, add_zero]
    rw [if_neg (by omega), int64_id (by omega) (by omega)]
    simp only [Zap.Wire.viewAt, dataOf, go_bind_ok]
    rw [if_pos (.inl (by omega)), go_pure]
  · obtain ⟨k, rfl⟩ : ∃ k, n = k + 1 := ⟨n - 1, by omega⟩
    simp only [TypedList.all, TypedList.elements, Int.toNat_natCast, TypedList.scan, h1, h2]
    rw [if_neg (by omega), slice, if_neg (by omega), go_bind_error, go_bind_error]

end Samples

set_option maxRecDepth 4000 in
/-- A message of `2 ^ 31 + 24` bytes with a list of one byte that `At` does not find and on which `All` panics;
and one of 32 bytes with a list of pointers, the first of which `ObjectPtr` follows to an object of the right
size where `ListNested.At` is null. -/
theorem list_readers_disagree :
    (∃ m v l, parse (farList (2 ^ 31 - 8)) = .ok m ∧
      wrap listSchema (farList (2 ^ 31 - 8)) = .ok (.ok v) ∧ v.data = some m ∧
      listAt v byteSchema 8 = .ok l ∧ l.len = 1 ∧ l.elemAt byteSchema 0 = .ok .zero ∧
      l.all byteSchema = .error .outOfRange) ∧
    ∃ m v raw o l, parse (pointers 2) = .ok m ∧ wrap listSchema (pointers 2) = .ok (.ok v) ∧
      v.data = some m ∧ v.asObject.list 4 = .ok raw ∧ raw.objectPtr 0 = .ok o ∧ o.isNull = false ∧
      o.offset + byteSchema.size ≤ m.data.length ∧ listNestedAt v 4 = .ok l ∧
      l.nestedElemAt byteSchema 0 = .ok .zero := by
  constructor
  · obtain ⟨m, v, hp, hw, hv, -, -, hl⟩ := farList_listAt (2 ^ 31 - 8) (by decide) (by decide)
    have hneg := TypedList.negative (m := m) (e := byteSchema) (t := int32 (31 + (2 ^ 31 - 8) : Nat))
      (n := 1) (int32_bounds _).1 (by decide) (by decide) (by decide)
    exact ⟨m, v, _, hp, hw, hv, hl, rfl, hneg.1, hneg.2⟩
  · exact ⟨_, _, _, _, _, rfl, rfl, rfl, rfl, rfl, rfl, by decide, rfl, rfl⟩

/-- A list of one byte in front of the object whose field is set to it. -/
def listFirst : Builder × ListBuilder :=
  let x := (newBuilder 64 version2).startList
  let y := x.2.addUint .w8 x.1 7
  (y.2, y.1)

set_option maxRecDepth 4000 in
/-- The readers agree on two small messages, and on a list a builder has written. -/
theorem list_readers_agree_samples :
    (∃ m v l, parse (farList 1) = .ok m ∧ wrap listSchema (farList 1) = .ok (.ok v) ∧
      listAt v byteSchema 8 = .ok l ∧ l.Enumerates byteSchema) ∧
    (∃ m v raw l, parse (pointers 1) = .ok m ∧ wrap listSchema (pointers 1) = .ok (.ok v) ∧
      v.asObject.list 4 = .ok raw ∧ listNestedAt v 4 = .ok l ∧ NestedAgrees m byteSchema 0 raw l) ∧
    ∃ b m, (listFirst.1.startObject 8).2.setList (listFirst.1.startObject 8).1 0 16 1 = .ok b ∧
      parse b.finish.1 = .ok m ∧
      (m.objectAt 24).listStride (0 : Nat) 1 = .ok ⟨some m, (16 : Nat), (1 : Nat)⟩ := by
  refine ⟨?_, ?_, ?_⟩
  · obtain ⟨m, v, hp, hw, hv, hlen, hraw, hl⟩ := farList_listAt 1 (by decide) (by decide)
    refine ⟨m, v, _, hp, hw, hl, ?_⟩
    have hiff := ((list_readers_agree_iff _).1 m hp).2.1 v byteSchema 8 _ _ hv (by decide) (by decide) hraw hl
    refine hiff.mpr (.inr (.inr ⟨by decide, ?_, ?_⟩)) <;> simp only [ListView.len] <;> decide
  · obtain ⟨m, v, raw, l, o, hp, hw, hv, hlist, hnested, ho, hfit⟩ : ∃ m v raw l o, parse (pointers 1) = .ok m ∧
        wrap listSchema (pointers 1) = .ok (.ok v) ∧ v.data = some m ∧ v.asObject.list 4 = .ok raw ∧
        listNestedAt v 4 = .ok l ∧ raw.objectPtr 0 = .ok o ∧ raw.offset + raw.len * 4 ≤ m.data.length ∧
        raw.offset < 2 ^ 31 ∧ o.offset < 2 ^ 31 :=
      ⟨_, _, _, _, _, rfl, rfl, rfl, rfl, rfl, rfl, by decide⟩
    refine ⟨m, v, raw, l, hp, hw, hlist, hnested, ?_⟩
    obtain ⟨o', ho', hiff⟩ := ((list_readers_agree_iff _).1 m hp).2.2 v byteSchema 4 raw l 0 hv (by decide)
      (by decide) hlist hnested
    cases ho.symm.trans ho'
    exact hiff.mpr (.inr (.inr hfit))
  · have hwrite : ListWrite 1 listFirst.1 listFirst.2 :=
      .addUint .w8 7 (.startList (.new 64 (.inr rfl))) rfl
    have hstart : ListWrite 1 (listFirst.1.startObject 8).2 listFirst.2 :=
      hwrite.call (r := .startObject 8) rfl
    obtain ⟨b, hb, hw⟩ : ∃ b, (listFirst.1.startObject 8).2.setList (listFirst.1.startObject 8).1 0 16 1 =
        .ok b ∧ b.written = overwrite (listFirst.1.startObject 8).2.written 24 (pairWord 16 24 1) :=
      setList_spec (by decide) (by decide) (by decide)
    have hpos : b.pos = 32 := written_overwrite_pos hw (by decide)
    obtain ⟨m, hp, -, hacc⟩ := (list_readers_agree_iff []).2 Unit (pure ()) () _ b b _ 1 16 1 0 (by decide)
      (.inl hstart) hb rfl rfl (by omega)
    exact ⟨b, m, hb, hp, (hacc (by decide)).mpr ⟨by decide, by decide, by decide⟩⟩

end Zap.Wire
