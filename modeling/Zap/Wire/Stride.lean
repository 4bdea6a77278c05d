/-
# Zap.Wire.Stride — typed lists: the writer's step and the reader's stride.

`WriteList` appends its elements with `StartObject`, which aligns every one of them to eight bytes;
`ListAt`, `At` and the iterators walk the list with the size of the element's schema. An
element lies behind the padding of the one before (`Laid`), so the writer's step is the size rounded up. The
two agree exactly when the size is a multiple of eight or there is at most one element.
-/
import Zap.Wire.RoundTrip

namespace Zap.Wire

open Zap.Lib

/-! ## What `WriteList` lays down -/

/-- Only scalars and inline byte arrays: what an element of a typed list may hold. -/
def Fields.Flat : Fields → Prop
  | .nil => True
  | .cons _ (.scalar _ _) rest => rest.Flat
  | .cons _ (.fixed _) rest => rest.Flat
  | .cons _ _ _ => False

/-- One `ElemSetter.Append` per element. -/
def appendAll : List Fields → ElemSetter → Build ElemSetter
  | [], es => pure es
  | fs :: rest, es => do
    let es ← es.append (fs.write es.stride)
    appendAll rest es

/-- A message of schema `s` with a typed list of schema `e` in the field at `off`. -/
def listMessage (s e : Schema) (off : Nat) (elems : List Fields) : Build ObjectBuilder :=
  buildRoot s fun ob => writeList ob s.size e.size off (appendAll elems)

/-- The zeros `StartObject` puts at a position. -/
abbrev padAt (p : Nat) : Nat := (8 - p % 8) % 8

/-- The distance between the starts of two elements. -/
def step (size : Nat) : Nat := size + padAt size

theorem step_eq_iff (size : Nat) : step size = size ↔ 8 ∣ size := by
  unfold step padAt
  omega

/-- The elements from a position on, each behind its padding. -/
def Laid (H : Heap) (size : Nat) : Nat → List Fields → Prop
  | _, [] => True
  | p, fs :: rest =>
    (p, List.replicate (padAt p) 0) ∈ H.frozen ∧ (p + padAt p, size) ∈ H.sections ∧
    fs.Holds H (p + padAt p) ∧ Laid H size (p + padAt p + size) rest

variable {size : Nat} {H : Heap} {i off : Nat} {fs : Fields} {b : Builder} {s e : Schema}

theorem Laid.mono {K : Heap} (h : H.Le K) : ∀ {p : Nat} {elems : List Fields},
    Laid H size p elems → Laid K size p elems
  | _, [], _ => trivial
  | _, fs :: _, ⟨hpad, hsec, hf, hr⟩ => ⟨h.2.2 hpad, h.1 hsec, Fields.Holds.mono h fs hf, hr.mono h⟩

variable {elems : List Fields}

/-- Element `i` lies `i` steps behind the first one, and behind the padding of its predecessor. -/
theorem Laid.get {p : Nat} (h : Laid H size p elems) (hi : elems[i]? = some fs) :
    (p + padAt p + i * step size, size) ∈ H.sections ∧ fs.Holds H (p + padAt p + i * step size) ∧
      (0 < i → (p + padAt p + (i - 1) * step size + size, List.replicate (padAt size) 0) ∈ H.frozen) := by
  induction elems generalizing i p with
  | nil => simp at hi
  | cons x rest ih =>
    obtain ⟨hpad, hsec, hf, hr⟩ := h
    cases i with
    | zero =>
      obtain rfl : x = fs := by simpa using hi
      rw [Nat.zero_mul, Nat.add_zero]
      exact ⟨hsec, hf, fun h0 => absurd h0 (Nat.lt_irrefl 0)⟩
    | succ i =>
      -- behind an aligned start the padding is that of the size alone
      have hres : padAt (p + padAt p + size) = padAt size := by
        unfold padAt
        omega
      have hstart : p + padAt p + size + padAt (p + padAt p + size) = p + padAt p + step size := by
        rw [hres, step, Nat.add_assoc]
      obtain ⟨h1, h2, h3⟩ := ih hr (by simpa using hi)
      rw [hstart] at h1 h2 h3
      have hmul : p + padAt p + (i + 1) * step size = p + padAt p + step size + i * step size := by
        rw [Nat.add_mul, Nat.one_mul]
        omega
      rw [hmul]
      refine ⟨h1, h2, fun _ => ?_⟩
      rw [Nat.add_sub_cancel]
      cases i with
      | zero =>
        rw [Nat.zero_mul, Nat.add_zero, ← hres]
        cases rest with
        | nil => simp at hi
        | cons y ys => exact hr.1
      | succ i =>
        have h := h3 (Nat.succ_pos i)
        rw [Nat.add_sub_cancel] at h
        have hmul : p + padAt p + (i + 1) * step size = p + padAt p + step size + i * step size := by
          rw [Nat.add_mul, Nat.one_mul]
          omega
        rwa [hmul]

theorem Fields.Flat.plain : ∀ {fs : Fields}, fs.Flat → fs.Plain ∧ fs.tail = 0
  | .nil, _ => ⟨trivial, rfl⟩
  | .cons _ (.scalar _ _) rest, h => @Fields.Flat.plain rest h
  | .cons _ (.fixed _) rest, h => @Fields.Flat.plain rest h

theorem padding_length (b : Builder) : b.padding.length = padAt b.pos := by
  rw [Builder.padding, List.length_replicate]

theorem makes_element (hA : Assembles H b) (hsize : 0 < size) (hflat : fs.Flat) (hwf : fs.WF size) :
    Makes b H (buildObject size (fs.write size)) (Slot.Behind b.pos) fun ob b' H' =>
      ob.startPos = b.pos + padAt b.pos ∧ b'.pos = b.pos + padAt b.pos + size ∧
      (b.pos, List.replicate (padAt b.pos) 0) ∈ H'.frozen ∧
      (b.pos + padAt b.pos, size) ∈ H'.sections ∧ fs.Holds H' (b.pos + padAt b.pos) := by
  refine (makes_buildObject hA hsize (G := fun ob b' H' =>
    ob.startPos = b.pos + padAt b.pos ∧ b'.pos = b.pos + padAt b.pos + size ∧
      (b.pos, List.replicate (padAt b.pos) 0) ∈ H'.frozen ∧
      (b.pos + padAt b.pos, size) ∈ H'.sections ∧ fs.Holds H' (b.pos + padAt b.pos)) ?_).mono
      (fun _ hx => hx) fun _ _ _ _ h => h.2
  intro ob b1 H1 hst
  have hstart : ob.startPos = b.pos + padAt b.pos := by rw [hst.start, padding_length]
  obtain ⟨x, b2, H2, hrun, hA2, hle, hadds, hf⟩ := Fields.write_makes fs hwf hst.assembles hst.reserved
    (Fields.room_of_free hst.free hwf)
  have hpos := plain_write_pos hflat.plain.1 hwf (Nat.le_of_eq hst.stop.symm) hrun
  rw [hflat.plain.2, Nat.add_zero] at hpos
  refine ⟨x, b2, H2, hrun, hA2, hle, hadds, hstart, ?_, hadds.1.2.2 hst.pad, ?_, ?_⟩
  · rw [hpos, hst.stop, hstart]
  · rw [← hstart]
    exact hadds.1.1 hst.reserved
  · rw [← hstart]
    exact hf

/-- **The append loop** lays the elements down from the cursor on. -/
theorem makes_appendAll (hsize : 0 < size) : ∀ {elems : List Fields},
    (∀ fs ∈ elems, fs.Flat ∧ fs.WF size) → ∀ (es : ElemSetter) {b : Builder} {H : Heap},
    Assembles H b → es.stride = size →
    Makes b H (appendAll elems es) (Slot.Behind b.pos) fun es' b' H' =>
      es'.count = es.count + elems.length ∧
      es'.startPos = (if es.count = 0 ∧ elems.length ≠ 0 then b.pos + padAt b.pos else es.startPos) ∧
      b'.pos ≤ b.pos + elems.length * (size + 8) ∧ Laid H' size b.pos elems
  | [], _, _, _, _, hA, _ => makes_pure hA ⟨rfl, by simp, by simp, trivial⟩
  | fs :: rest, helems, es, b, H, hA, hstride => by
      obtain ⟨hflat, hwf⟩ := helems fs (List.mem_cons_self ..)
      have happend : Makes b H (es.append (fs.write es.stride)) (Slot.Behind b.pos) fun es' b' H' =>
          es' = ⟨size, es.count + 1, if es.count = 0 then b.pos + padAt b.pos else es.startPos⟩ ∧
          b'.pos = b.pos + padAt b.pos + size ∧ (b.pos, List.replicate (padAt b.pos) 0) ∈ H'.frozen ∧
          (b.pos + padAt b.pos, size) ∈ H'.sections ∧ fs.Holds H' (b.pos + padAt b.pos) := by
        rw [ElemSetter.append, hstride]
        refine (makes_element hA hsize hflat hwf).bind (fun _ hx => hx) ?_
        rintro ob b1 H1 hA1 - - ⟨hstart, hrest⟩
        exact makes_pure hA1 ⟨by rw [hstart], hrest⟩
      refine happend.bind (fun _ hx => hx) ?_
      rintro es1 b1 H1 hA1 hpos - ⟨rfl, hend, hpad, hsec, hf⟩
      have hrest := makes_appendAll hsize (fun gs hgs => helems gs (List.mem_cons_of_mem _ hgs))
        ⟨size, es.count + 1, if es.count = 0 then b.pos + padAt b.pos else es.startPos⟩ hA1 rfl
      refine hrest.mono (fun x hx => Nat.le_trans hpos hx) ?_
      rintro es2 b2 H2 hle ⟨hcount, hstart, hlen, hlaid⟩
      rw [hend] at hlaid hlen
      simp only at hcount
      refine ⟨?_, ?_, ?_, hle.2.2 hpad, hle.1 hsec, Fields.Holds.mono hle fs hf, hlaid⟩
      · rw [hcount, List.length_cons]
        omega
      · rw [hstart, if_neg fun h => absurd h.1 (Nat.succ_ne_zero _)]
        simp only [List.length_cons, ne_eq, Nat.add_eq_zero_iff, one_ne_zero, and_false, not_false_eq_true, and_true]
      · have : padAt b.pos < 8 := by
          unfold padAt
          omega
        rw [List.length_cons, Nat.add_mul, Nat.one_mul]
        omega

/-- What `WriteList` leaves behind a list field: the null pair, or the pair of the first element. -/
def HoldsList (H : Heap) (base off size pos : Nat) (elems : List Fields) : Prop :=
  Laid H size pos elems ∧
    (elems.length = 0 ∧ ⟨base, off, nullPair⟩ ∈ H.slots ∨
      elems.length ≠ 0 ∧ ⟨base, off, pairWord (pos + padAt pos) (base + off) elems.length⟩ ∈ H.slots)

theorem makes_writeList (hA : Assembles H b) {ob : ObjectBuilder} {parentSize size : Nat} (hsize : 0 < size)
    (helems : ∀ fs ∈ elems, fs.Flat ∧ fs.WF size) (hsec : (ob.startPos, parentSize) ∈ H.sections)
    (hfree : H.Free ob.startPos off 8) :
    Makes b H (writeList ob parentSize size off (appendAll elems)) (ObjectFrame b.pos ob.startPos)
      fun _ b' H' => b'.pos ≤ b.pos + elems.length * (size + 8) ∧ HoldsList H' ob.startPos off size b.pos elems := by
  refine makes_reserved hA hsec ?_
  refine (makes_appendAll hsize helems _ hA rfl).bind (fun _ hx => .inl hx) ?_
  rintro es b1 H1 hA1 hpos hadds ⟨hcount, hstart, hlen, hlaid⟩
  simp only [Nat.zero_add, true_and] at hcount hstart
  have hfree1 := free_behind hA hfree hadds
  have hne : b.pos + padAt b.pos ≠ 0 := pos_ne_zero b (Nat.le_add_right _ _)
  have hframe : ∀ x, Slot.At ob.startPos off 8 x → ObjectFrame b.pos ob.startPos x := fun _ hx => .inr hx.1
  rw [hcount]
  by_cases h0 : elems.length = 0
  · rw [if_pos h0]
    refine (makes_setList hA1 (.inr rfl) hfree1).mono hframe ?_
    rintro - b2 H2 hle ⟨hpos2, ⟨-, hs⟩ | ⟨h, -⟩⟩
    · exact ⟨by omega, hlaid.mono hle, .inl ⟨h0, hs⟩⟩
    · exact absurd rfl h
  · rw [if_neg h0, hstart, if_pos h0]
    refine (makes_setList hA1 (.inl hne) hfree1).mono hframe ?_
    rintro - b2 H2 hle ⟨hpos2, ⟨h, -⟩ | ⟨-, hs⟩⟩
    · exact absurd h h0
    · exact ⟨by omega, hlaid.mono hle, .inr ⟨h0, hs⟩⟩

/-- The record of a message with a list: the section of the parent, its kind byte, and the list behind it. -/
structure ListRoot (s e : Schema) (off : Nat) (elems : List Fields) (ob : ObjectBuilder) (b : Builder)
    (H : Heap) : Prop where
  parent : (ob.startPos, s.size) ∈ H.sections
  kind : ⟨ob.startPos, 0, le 1 s.kind.toNat⟩ ∈ H.slots
  bounded : b.pos ≤ headerSize + s.size + elems.length * (e.size + 8)
  list : ∃ pos, ob.startPos + s.size ≤ pos ∧ HoldsList H ob.startPos off e.size pos elems

theorem run_listMessage (hoff : 1 ≤ off) (hoff' : off + 8 ≤ s.size) (hsize : 0 < e.size)
    (helems : ∀ fs ∈ elems, fs.Flat ∧ fs.WF e.size) :
    ∃ ob b H, Builder.run (listMessage s e off elems) (newBuilder (headerSize + s.size) version2) =
      .ok (ob, b) ∧ Assembles H b ∧ b.rootOffset = ob.startPos ∧ ListRoot s e off elems ob b H := by
  have hnew : Assembles .empty (newBuilder (headerSize + s.size) version2) := .new _ (.inr rfl)
  have hpos0 : (newBuilder (headerSize + s.size) version2).pos = headerSize := rfl
  have hpad : (newBuilder (headerSize + s.size) version2).padding.length = 0 := by
    rw [padding_length, hpos0]
    decide
  generalize newBuilder (headerSize + s.size) version2 = b0 at *
  have hobject : Makes b0 .empty
      (buildObject s.size fun ob => do
        call (.setUint .w8 ob 0 s.kind.toNat)
        writeList ob s.size e.size off (appendAll elems))
      (Slot.Behind b0.pos) fun ob b H => b0.pos ≤ ob.startPos ∧ ListRoot s e off elems ob b H := by
    refine makes_buildObject hnew (by omega) fun ob b1 H1 hst => ?_
    have hstart := hst.start
    have hstop := hst.stop
    refine (makes_setUint hst.assembles (hst.free 0 1 (by omega))).bind (fun _ hx => .inr hx.1) ?_
    rintro - b2 H2 hA2 - hadds ⟨hpos2, hkind⟩
    have hsec := hadds.1.1 hst.reserved
    have hfree : H2.Free ob.startPos off 8 := by
      refine (hst.free off 8 (by omega)).adds hadds fun x hx _ => ?_
      obtain ⟨-, hx0, hx1⟩ := hx
      rw [Width.bytes] at hx1
      exact .inr (by omega)
    refine (makes_writeList hA2 hsize helems hsec hfree).mono ?_ ?_
    · exact fun x hx => hx.imp (fun h => Nat.le_trans (Nat.le_of_eq hpos2.symm) h) id
    · rintro - b3 H3 hle ⟨hlen, hlist⟩
      exact ⟨hle.1 hsec, hle.2.1 hkind, by omega, b2.pos, by omega, hlist⟩
  obtain ⟨ob, b, H, hrun, hA, -, -, -, hroot⟩ := hobject
  refine ⟨ob, b.finishAsRoot ob, H, ?_, hA.finishAsRoot ob, rfl, ⟨hroot.1, hroot.2, hroot.3, hroot.4⟩⟩
  rw [listMessage, buildRoot, Builder.run_bind, hrun, go_bind_ok]
  rfl

/-! ## What the reader walks over -/

/-- A view of an element shows the contents of a field: through `Read` and `BytesFixedSlice`, and in the payload
the iterators hand out. -/
def Field.In (x : View) (f : Field) (off : Nat) : Prop :=
  match f with
  | .scalar w v => x.read w.bytes off = .ok v ∧ readPayload x.payload w.bytes off = .ok v
  | .fixed bs => (∃ p, x.asObject.bytesFixedSlice off bs.length = .ok (some ⟨p, bs⟩)) ∧
      window x.payload.bytes off bs.length = bs
  | _ => True

def Fields.In (x : View) : Fields → Prop
  | .nil => True
  | .cons off f rest => f.In x off ∧ rest.In x

/-- The list has the elements: there are as many, and `At`, `All`, `Payloads` and `Indexed` agree on views that
show them. -/
def TypedList.Yields (l : TypedList) (e : Schema) (elems : List Fields) : Prop :=
  l.len = elems.length ∧ ∃ xs : List View, xs.length = elems.length ∧
    (∀ (i : Nat) fs x, elems[i]? = some fs → xs[i]? = some x → fs.In x) ∧
    (∀ (i : Nat) x, xs[i]? = some x → l.elemAt e i = .ok x) ∧
    l.all e = .ok xs ∧ l.payloads e = .ok (xs.map View.payload) ∧
    l.indexed e = .ok (xs.mapIdx fun i x => (i, x))

/-- The list is written with `WriteList` into the field of a message, and read back from its bytes. -/
def ListRoundTrip (s e : Schema) (off : Nat) (elems : List Fields) : Prop :=
  ∃ ob b v l, Builder.run (listMessage s e off elems) (newBuilder (headerSize + s.size) version2) =
    .ok (ob, b) ∧ wrap s b.finish.1 = .ok (.ok v) ∧ listAt v e off = .ok l ∧ l.Yields e elems

/-- Fixed fields that the reader sees in an object are shown by the view of it. -/
theorem Fields.in_of_reads {m : Message} {size a : Nat} (hlen : m.data.length < 2 ^ 31)
    (hsize : a + size ≤ m.data.length) : ∀ {fs : Fields}, fs.Flat → fs.WF size → fs.Reads m size a →
    fs.In (m.viewAt size a)
  | .nil, _, _, _ => trivial
  | .cons _ (.scalar _ _) rest, hflat, ⟨_, _, _, hwf⟩, ⟨⟨_, hread⟩, hr⟩ => by
      have hflat : rest.Flat := hflat
      exact ⟨⟨hread, hread⟩, Fields.in_of_reads hlen hsize hflat hwf hr⟩
  | .cons off (.fixed bs) rest, hflat, ⟨hbs, hoff, _, hwf⟩, ⟨hread, hr⟩ => by
      have hflat : rest.Flat := hflat
      have hobj : (m.viewAt size a).asObject = m.objectAt a := by
        rw [Message.viewAt_inside hsize, View.asObject, int32_id (by omega) (by omega), Message.objectAt]
      simp only [Field.width] at hoff
      refine ⟨⟨⟨a + off, by rw [hobj]; exact hread⟩, ?_⟩, Fields.in_of_reads hlen hsize hflat hwf hr⟩
      have hpos : 0 < bs.length := List.length_pos_iff.mpr hbs
      have hread : (m.objectAt a).bytesFixedSlice off bs.length = .ok (some ⟨a + off, bs⟩) := hread
      rw [Object.bytesFixedSlice_eval hpos (by omega), if_pos (by omega)] at hread
      rw [Message.viewAt_inside hsize]
      simp only [window_window hoff]
      exact congrArg Span.bytes (Option.some.inj (Except.ok.inj hread))

theorem scan_eval {d : List UInt8} {start stride : Nat} (hlen : d.length < 2 ^ 62) :
    ∀ (fuel i : Nat), start + (i + fuel) * stride ≤ d.length →
    TypedList.scan d start stride fuel i = .ok ((List.range' i fuel).map fun k =>
      (k, ⟨start + k * stride, window d (start + k * stride) stride⟩))
  | 0, _, _ => rfl
  | fuel + 1, i, h => by
      have hmul : (i + (fuel + 1)) * stride = i * stride + stride + fuel * stride := by
        rw [Nat.add_mul, Nat.add_mul, Nat.one_mul]
        omega
      have hrest := @scan_eval d start stride hlen fuel (i + 1) (by
        rw [Nat.add_right_comm, ← Nat.add_assoc] at *
        exact h)
      rw [TypedList.scan, int64_add_mul (by omega), int64_add (by omega), if_neg (by omega),
        slice_eval (by omega) (by omega), Nat.add_sub_cancel_left, go_bind_ok, hrest, go_bind_ok, go_pure,
        List.range'_succ, List.map_cons]

section Walk

variable {m : Message} {size q n : Nat} (hlen : m.data.length < 2 ^ 62) (hsize : 0 < size)
  (hfit : q + n * size ≤ m.data.length)

/-- The views the reader makes of the elements: every `size` bytes. -/
def strideViews (m : Message) (size q n : Nat) : List View :=
  (List.range n).map fun i => m.viewAt size (q + i * size)

theorem strideViews_get {x : View} (h : (strideViews m size q n)[i]? = some x) :
    i < n ∧ x = m.viewAt size (q + i * size) := by
  rw [strideViews, List.getElem?_map, Option.map_eq_some_iff] at h
  obtain ⟨k, hk, rfl⟩ := h
  obtain ⟨hi, rfl⟩ := List.getElem?_eq_some_iff.mp hk
  rw [List.length_range] at hi
  exact ⟨hi, by rw [List.getElem_range]⟩

include hfit in
theorem stride_end (hi : i < n) : q + i * size + size ≤ m.data.length := by
  have : (i + 1) * size ≤ n * size := Nat.mul_le_mul_right _ hi
  rw [Nat.add_mul, Nat.one_mul] at this
  omega

include hlen hfit in
/-- `At` and the iterators agree on the views at the reader's stride. -/
theorem strideViews_read (e : Schema) (he : e.size = size) :
    (∀ (i : Nat) x, (strideViews m size q n)[i]? = some x →
      (TypedList.mk (some m) q n).elemAt e i = .ok x) ∧
    (TypedList.mk (some m) q n).all e = .ok (strideViews m size q n) ∧
    (TypedList.mk (some m) q n).payloads e = .ok ((strideViews m size q n).map View.payload) ∧
    (TypedList.mk (some m) q n).indexed e = .ok ((strideViews m size q n).mapIdx fun i x => (i, x)) := by
  have hscan : (TypedList.mk (some m) q n).elements e = .ok ((List.range n).map fun k =>
      (k, ⟨q + k * size, window m.data (q + k * size) size⟩)) := by
    have h := @scan_eval m.data q size (by omega) n 0 (by rwa [Nat.zero_add])
    rw [← List.range_eq_range'] at h
    change TypedList.scan m.data q e.size (n : Int).toNat 0 = _
    rw [he, Int.toNat_natCast, h]
  have hview : ∀ k, k < n → (TypedList.mk (some m) q n).elemView
      ⟨q + k * size, window m.data (q + k * size) size⟩ = m.viewAt size (q + k * size) := by
    intro k hk
    rw [Message.viewAt_inside (stride_end hfit hk)]
    rfl
  refine ⟨?_, ?_, ?_, ?_⟩
  · intro i x hx
    obtain ⟨hi, rfl⟩ := strideViews_get hx
    have := stride_end hfit hi
    rw [← he] at *
    exact TypedList.elemAt_eval hi (by omega)
  · rw [TypedList.all, hscan, go_bind_ok, go_pure, List.map_map, strideViews]
    exact congrArg _ (List.map_congr_left fun k hk => hview k (List.mem_range.mp hk))
  · rw [TypedList.payloads, hscan, go_bind_ok, go_pure, List.map_map, strideViews, List.map_map]
    refine congrArg _ (List.map_congr_left fun k hk => ?_)
    simp only [Function.comp, ← hview k (List.mem_range.mp hk), TypedList.elemView]
  · rw [TypedList.indexed, hscan, go_bind_ok, go_pure, List.map_map, strideViews]
    refine congrArg _ (List.ext_getElem? fun i => ?_)
    rw [List.getElem?_map, List.getElem?_mapIdx, List.getElem?_map]
    by_cases hi : i < n
    · rw [List.getElem?_range hi]
      simp only [Option.map_some, Function.comp, hview i hi]
    · rw [List.getElem?_eq_none (by rw [List.length_range]; omega)]
      rfl

end Walk

section Read

variable {H : Heap} {m : Message} (hrep : Rep H headerSize m.data) (hlen : m.data.length < 2 ^ 31)
  {base off size parentSize pos : Nat} {elems : List Fields}
  (hlist : HoldsList H base off size pos elems)

include hrep hlist

/-- The elements fit behind the first one at the reader's stride too. -/
theorem holdsList_fits (h0 : elems.length ≠ 0) :
    headerSize ≤ pos + padAt pos ∧ pos + padAt pos + elems.length * size ≤ m.data.length := by
  obtain ⟨fs, hfs⟩ : ∃ fs, elems[elems.length - 1]? = some fs := ⟨_, List.getElem?_eq_getElem (by omega)⟩
  obtain ⟨gs, hgs⟩ : ∃ gs, elems[0]? = some gs := ⟨_, List.getElem?_eq_getElem (by omega)⟩
  have hlast := hrep.section_in _ (hlist.1.get hfs).1
  have hfirst := hrep.section_in _ (hlist.1.get hgs).1
  have hmul : (elems.length - 1) * size ≤ (elems.length - 1) * step size :=
    Nat.mul_le_mul_left _ (Nat.le_add_right _ _)
  have hn : elems.length * size = (elems.length - 1) * size + size := by
    rw [← Nat.succ_mul, Nat.succ_eq_add_one, Nat.sub_add_cancel (by omega)]
  simp only [Nat.zero_mul, Nat.add_zero] at hfirst
  simp only at hlast
  omega

include hlen

/-- `ListAt` has the list the writer counted, at the position of the first element. -/
theorem listAt_of_holdsList (hsize : 0 < size) (hparent : base + parentSize ≤ m.data.length)
    (hoff : off + 8 ≤ parentSize) (hpos : base + parentSize ≤ pos) (e : Schema) (he : e.size = size) :
    listAt (m.viewAt parentSize base) e off = .ok (if elems.length = 0 then .zero
      else ⟨some m, ((pos + padAt pos : Nat) : Int), elems.length⟩) := by
  rcases hlist.2 with ⟨h0, hs⟩ | ⟨h0, hs⟩
  · obtain ⟨-, hend, hw⟩ := slot_read hrep hs
    rw [if_pos h0, Zap.Wire.listAt]
    exact (lists_of_null hparent _ hlen hoff (listAt_of_nullPair hend hw).1).2.2
  obtain ⟨-, hend, hw⟩ := slot_read hrep hs
  obtain ⟨hlo, hfit⟩ := holdsList_fits hrep hlist h0
  have hn : elems.length ≤ elems.length * size := Nat.le_mul_of_pos_right _ hsize
  have hsz : size ≤ elems.length * size := Nat.le_mul_of_pos_left _ (by omega)
  have hstride : e.size % 2 ^ 32 = size := by omega
  rw [pairWord_length] at hend hw
  have hl := listAt_of_pairWord hend hw (by omega) hlen hlo (by omega) (by omega)
  rw [if_neg h0, Zap.Wire.listAt, hstride]
  exact (lists_of_listAt hparent hlen hoff hl h0 hsize hfit).2.2

/-- Where the reader's stride meets the writer's step, the list has the elements. -/
theorem yields_of_holdsList (helems : ∀ fs ∈ elems, fs.Flat ∧ fs.WF size)
    (hmeet : 8 ∣ size ∨ elems.length ≤ 1) (h0 : elems.length ≠ 0) (e : Schema) (he : e.size = size) :
    (TypedList.mk (some m) ((pos + padAt pos : Nat) : Int) elems.length).Yields e elems := by
  obtain ⟨hlo, hfit⟩ := holdsList_fits hrep hlist h0
  refine ⟨rfl, strideViews m size (pos + padAt pos) elems.length, by simp [strideViews], ?_,
    strideViews_read (by omega) hfit e he⟩
  intro i fs x hfs hx
  obtain ⟨hi, rfl⟩ := strideViews_get hx
  obtain ⟨hflat, hwf⟩ := helems fs (List.mem_of_getElem? hfs)
  have hstep : i * step size = i * size := by
    rcases hmeet with h8 | h1
    · rw [(step_eq_iff size).mpr h8]
    · rw [show i = 0 by omega, Nat.zero_mul, Nat.zero_mul]
  obtain ⟨-, hholds, -⟩ := hlist.1.get hfs
  rw [hstep] at hholds
  have hend := stride_end hfit hi
  exact Fields.in_of_reads hlen hend hflat hwf (Fields.reads_of_holds hrep hlen fs hwf hend hholds)

/-- Where it does not, the second element's first byte is read from the padding before it. -/
theorem not_yields_of_holdsList (hmeet : ¬8 ∣ size) (h2 : 2 ≤ elems.length) (e : Schema)
    (he : e.size = size) {rest : Fields}
    (hone : elems[1]? = some (.cons 0 (.scalar .w8 1) rest)) :
    ¬(TypedList.mk (some m) ((pos + padAt pos : Nat) : Int) elems.length).Yields e elems := by
  rintro ⟨-, xs, hxs, hin, hat, -⟩
  obtain ⟨hlo, hfit⟩ := holdsList_fits hrep hlist (by omega)
  obtain ⟨x, hx⟩ : ∃ x, xs[1]? = some x := ⟨_, List.getElem?_eq_getElem (by omega)⟩
  have hend := stride_end hfit (show 1 < elems.length by omega)
  have helem := hat 1 x hx
  have hread := (hin 1 _ x hone hx).1.1
  -- the view `At(1)` returns starts where the first element ends
  have hview : (TypedList.mk (some m) ((pos + padAt pos : Nat) : Int) elems.length).elemAt e (1 : Nat) =
      .ok (m.viewAt size (pos + padAt pos + 1 * size)) := by
    subst he
    exact TypedList.elemAt_eval (by omega) (by omega)
  cases helem.symm.trans hview
  obtain ⟨-, -, hpad⟩ := hlist.1.get hone
  have hpad := hpad Nat.one_pos
  have hbytes := hrep.frozen_bytes _ hpad
  have hlt : 0 < padAt size := by
    unfold padAt
    omega
  simp only [Nat.sub_self, Nat.zero_mul, Nat.add_zero, List.length_replicate] at hbytes
  have hzero : window m.data (pos + padAt pos + size) 1 = [0] := by
    have := congrArg (fun l => window l 0 1) hbytes
    simp only [window_window (show 0 + 1 ≤ padAt size by omega), Nat.add_zero] at this
    rw [this, window, List.drop_zero, List.take_replicate, Nat.min_eq_left (by omega)]
    rfl
  rw [Nat.one_mul] at hend hread
  rw [Message.viewAt_read hend (by decide) (by decide) (by rw [Width.bytes]; omega) (by omega), Nat.add_zero,
    Message.uintAt, if_pos (by rw [Width.bytes]; omega), Width.bytes, hzero] at hread
  exact absurd (Except.ok.inj hread) (by decide)

end Read

/-! ## The round trip of typed lists -/

theorem yields_nil (e : Schema) : TypedList.zero.Yields e [] := ⟨rfl, [], rfl, nofun, nofun, rfl, rfl, rfl⟩

/-- The message of a list, read: `Wrap` opens it, and `ListAt` gives a list that has the elements when stride
and step meet, and loses the second one's first byte when they do not. -/
theorem listMessage_read (hoff : 1 ≤ off) (hoff' : off + 8 ≤ s.size) (hsize : 0 < e.size)
    (helems : ∀ fs ∈ elems, fs.Flat ∧ fs.WF e.size)
    (hbound : headerSize + s.size + elems.length * (e.size + 8) < 2 ^ 31) :
    ∃ ob b v l, Builder.run (listMessage s e off elems) (newBuilder (headerSize + s.size) version2) =
      .ok (ob, b) ∧ wrap s b.finish.1 = .ok (.ok v) ∧ listAt v e off = .ok l ∧
      (8 ∣ e.size ∨ elems.length ≤ 1 → l.Yields e elems) ∧
      (¬8 ∣ e.size → 2 ≤ elems.length → ∀ rest, elems[1]? = some (.cons 0 (.scalar .w8 1) rest) →
        ¬l.Yields e elems) := by
  obtain ⟨ob, b, H, hrun, hA, hroot, hsec, hkind, hend, pos, hpos, hlist⟩ :=
    run_listMessage (s := s) (e := e) hoff hoff' hsize helems
  obtain ⟨m, hparse, hlen, hroot', hrep⟩ := assembles_parses hA (by omega)
  have hin := assembles_section hA hsec
  rw [hroot, Nat.mod_eq_of_lt (by omega)] at hroot'
  have hwrap : wrap s b.finish.1 = .ok (.ok (m.viewAt s.size ob.startPos)) := by
    rw [wrap_ok_iff (by omega)]
    have hfs : (Fields.cons 0 (.scalar .w8 s.kind.toNat) .nil).Holds H ob.startPos := ⟨hkind, trivial⟩
    have hkinded : (Fields.cons 0 (.scalar .w8 s.kind.toNat) .nil).Kinded s.kind := .inl ⟨rfl, rfl⟩
    have hbyte := kind_byte hrep hkinded hfs
    exact ⟨m, hparse, by omega, by rw [hroot']; exact hbyte, by omega, by rw [hroot']⟩
  have hlistAt := listAt_of_holdsList hrep (by omega) hlist hsize (by omega) hoff' hpos e rfl
  refine ⟨ob, b, _, _, hrun, hwrap, hlistAt, fun hmeet => ?_, fun hmeet h2 rest hone => ?_⟩
  · by_cases h0 : elems.length = 0
    · rw [if_pos h0, List.length_eq_zero_iff.mp h0]
      exact yields_nil e
    · rw [if_neg h0]
      exact yields_of_holdsList hrep (by omega) hlist helems hmeet h0 e rfl
  · rw [if_neg (by omega)]
    exact not_yields_of_holdsList hrep (by omega) hlist hmeet h2 e rfl hone

def oneByte : Fields := .cons 0 (.scalar .w8 1) .nil

theorem oneByte_wf (h : 0 < size) : oneByte.Flat ∧ oneByte.WF size :=
  ⟨trivial, show 1 < 256 ^ 1 by decide, by simp only [Field.width, Width.bytes]; omega, trivial, trivial⟩

/-- Two or more elements of one byte, with a stride that is no multiple of eight, do not come back. -/
theorem oneBytes_lost {n : Nat} (hoff : 1 ≤ off) (hoff' : off + 8 ≤ s.size) (hsize : 0 < e.size)
    (hbound : headerSize + s.size + n * (e.size + 8) < 2 ^ 31) (hmeet : ¬8 ∣ e.size) (hn : 2 ≤ n) :
    ¬ListRoundTrip s e off (List.replicate n oneByte) := by
  rintro ⟨ob, b, v, l, hrun, hwrap, hlist, hyields⟩
  have helems : ∀ fs ∈ List.replicate n oneByte, fs.Flat ∧ fs.WF e.size := fun fs hfs => by
    rw [List.eq_of_mem_replicate hfs]
    exact oneByte_wf hsize
  obtain ⟨ob', b', v', l', hrun', hwrap', hlist', -, hnot⟩ := listMessage_read hoff hoff' hsize helems
    (by rwa [List.length_replicate])
  cases hrun.symm.trans hrun'
  cases Except.ok.inj (hwrap.symm.trans hwrap')
  cases hlist.symm.trans hlist'
  exact hnot hmeet (by rwa [List.length_replicate]) .nil
    (by rw [List.getElem?_replicate, if_pos (by omega)]; rfl) hyields

/-- **Typed lists round-trip exactly where the stride is the step.**  For a parent with room for the list
pointer behind its kind byte and an element schema of at least one byte, every sequence of `n` elements of
fixed fields comes back through `ListAt`, `At`, `All`, `Payloads` and `Indexed` if and only if the size of the
element is a multiple of eight or `n ≤ 1`. -/
theorem list_round_trip_iff (s e : Schema) (off n : Nat) (hoff : 1 ≤ off) (hoff' : off + 8 ≤ s.size)
    (hsize : 0 < e.size) (hbound : headerSize + s.size + n * (e.size + 8) < 2 ^ 31) :
    (∀ elems : List Fields, elems.length = n → (∀ fs ∈ elems, fs.Flat ∧ fs.WF e.size) →
      ListRoundTrip s e off elems) ↔ 8 ∣ e.size ∨ n ≤ 1 := by
  constructor
  · intro h
    by_contra hnot
    rw [not_or] at hnot
    refine oneBytes_lost hoff hoff' hsize hbound hnot.1 (by omega)
      (h (List.replicate n oneByte) List.length_replicate fun fs hfs => ?_)
    rw [List.eq_of_mem_replicate hfs]
    exact oneByte_wf hsize
  · rintro hmeet elems rfl helems
    obtain ⟨ob, b, v, l, hrun, hwrap, hlist, hyields, -⟩ := listMessage_read hoff hoff' hsize helems hbound
    exact ⟨ob, b, v, l, hrun, hwrap, hlist, hyields hmeet⟩

theorem list_round_trip_words : 8 ∣ (Schema.mk 0 8 "").size ∧ ∀ elems : List Fields,
    elems.length = 3 → (∀ fs ∈ elems, fs.Flat ∧ fs.WF 8) →
    ListRoundTrip ⟨7, 9, ""⟩ ⟨0, 8, ""⟩ 1 elems :=
  ⟨by decide, (list_round_trip_iff ⟨7, 9, ""⟩ ⟨0, 8, ""⟩ 1 3 (by decide) (by decide) (by decide)
    (by decide)).mpr (.inl (by decide))⟩

/-- Two elements of one byte each, both set to one: the second one does not come back. -/
theorem byte_list_lost : (∀ fs ∈ [oneByte, oneByte], fs.Flat ∧ fs.WF 1) ∧
    ¬ListRoundTrip ⟨7, 9, ""⟩ ⟨0, 1, ""⟩ 1 [oneByte, oneByte] := by
  refine ⟨fun fs hfs => ?_, ?_⟩
  · rw [List.eq_of_mem_replicate (n := 2) (a := oneByte) hfs]
    exact oneByte_wf Nat.one_pos
  · exact oneBytes_lost (n := 2) (by decide) (by decide) (by decide) (by decide) (by decide) (by decide)

end Zap.Wire
