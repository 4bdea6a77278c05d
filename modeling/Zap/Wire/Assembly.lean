/-
# Zap.Wire.Assembly — every run of builder calls in which no slot is set twice.

`Assembles H b` says that the builder `b` has come out of a new one by calls that never set one field of an
object twice, in whatever order: objects may be open while others are started, children may be built
before their parents or behind them, byte strings are appended between the setters of different objects.
`H` is the record of those calls. `assembles_rep` is the one fact about all such runs: the bytes written
so far bear the record out. `assembles_parses` carries it into the finished message.

The slot's owner is a section of the record, so in an assembly a field is inside what was reserved for it.
-/
import Zap.Lib.Heap
import Zap.Wire.Reuse

namespace Zap.Wire

open Zap.Lib

/-! ## The calls, on the written bytes -/

section Calls

variable {b : Builder}

/-- The zeros `align` puts in front of an object or a list. -/
def Builder.padding (b : Builder) : List UInt8 := List.replicate ((alignment - b.pos % alignment) % alignment) 0

theorem startObject_spec (b : Builder) (n : Nat) :
    (b.startObject n).1.startPos = b.pos + b.padding.length ∧
      (b.startObject n).2.written = b.written ++ b.padding ++ List.replicate n 0 := by
  refine ⟨rfl, ?_⟩
  have hstart : (b.startObject n).2 =
      (b.align alignment).ensureField ⟨(b.align alignment).pos, n, (b.align alignment).past_header⟩ n :=
    rfl
  rw [hstart, Builder.ensureField]
  simp only [gt_iff_lt, Nat.add_sub_cancel_left]
  split_ifs with h
  · rw [Builder.written_extend, Builder.written_align, Builder.padding]
  · have hn : n = 0 := by omega
    rw [Builder.written_align, hn, List.replicate_zero, List.append_nil, Builder.padding]

theorem startList_spec (b : Builder) :
    ∃ pad, b.startList.1.startPos = b.pos + List.length pad ∧ b.startList.1.count = 0 ∧
      b.startList.2.written = b.written ++ pad :=
  ⟨_, rfl, rfl, Builder.written_align b alignment⟩

variable {ob : ObjectBuilder} {off : Nat}

theorem setUint_spec {w : Width} (v : Nat) (h : ob.startPos + off + w.bytes ≤ b.pos) :
    ∃ b', b.setUint w ob off v = .ok b' ∧ b'.written = overwrite b.written (ob.startPos + off) (le w.bytes v) := by
  obtain ⟨b', hb, -, -, hw⟩ := b.patch_ok (ob.startPos + off) (le w.bytes v)
    (by rw [le_length]; exact h)
  refine ⟨b', ?_, hw⟩
  rw [Builder.setUint, Builder.ensureField_of_le (by omega), hb]

variable {v : List UInt8} {target : Nat}

theorem setBytesFixed_spec (hv : v ≠ []) (h : ob.startPos + off + v.length ≤ b.pos) :
    ∃ b', b.setBytesFixed ob off v = .ok b' ∧ b'.written = overwrite b.written (ob.startPos + off) v := by
  obtain ⟨b', hb, -, -, hw⟩ := b.patch_ok (ob.startPos + off) v h
  refine ⟨b', ?_, hw⟩
  rw [Builder.setBytesFixed, if_neg (by simpa using hv), Builder.ensureField_of_le (by omega), hb]

def nullPair : List UInt8 := le 4 0 ++ le 4 0

/-- The pair of words of a field that points to `count` things at `target`. -/
def pairWord (target base count : Nat) : List UInt8 := relWord target base ++ le 4 count

@[simp]
theorem nullPair_length : nullPair.length = 8 := rfl

@[simp]
theorem pairWord_length (target base count : Nat) : (pairWord target base count).length = 8 := by
  simp [pairWord]

theorem setBytes_nil_spec (h : ob.startPos + off + 8 ≤ b.pos) :
    ∃ b', b.setBytes ob off [] = .ok b' ∧
      b'.written = overwrite b.written (ob.startPos + off) nullPair := by
  obtain ⟨b', hb, -, -, hw⟩ := b.patch_twice_ok (ob.startPos + off) (le 4 0) (le 4 0)
    (by rw [le_length]; omega)
  exact ⟨b', hb, hw⟩

theorem setBytes_spec (hv : v ≠ []) (h : ob.startPos + off + 8 ≤ b.pos) :
    ∃ b', b.setBytes ob off v = .ok b' ∧
      b'.written = overwrite (b.written ++ v) (ob.startPos + off)
        (pairWord b.pos (ob.startPos + off) v.length) := by
  obtain ⟨b', hb, -, -, hw⟩ := (b.extend v).patch_twice_ok (ob.startPos + off)
    (relWord b.pos (ob.startPos + off)) (le 4 v.length)
    (by rw [relWord_length, le_length, Builder.extend_pos]; omega)
  refine ⟨b', ?_, by rw [hw, Builder.written_extend, pairWord]⟩
  rw [Builder.setBytes, if_neg (by simpa using hv)]
  exact hb

theorem setObject_spec (ht : target ≠ 0) (h : ob.startPos + off + 4 ≤ b.pos) :
    ∃ b', b.setObject ob off target = .ok b' ∧
      b'.written = overwrite b.written (ob.startPos + off) (relWord target (ob.startPos + off)) := by
  obtain ⟨b', hb, -, -, hw⟩ := b.patch_ok (ob.startPos + off)
    (relWord target (ob.startPos + off)) (by rw [relWord_length]; exact h)
  refine ⟨b', ?_, hw⟩
  rw [Builder.setObject, Builder.ensureField_of_le (by omega), if_neg ht, hb]

theorem setList_null_spec (h : ob.startPos + off + 8 ≤ b.pos) :
    ∃ b', b.setList ob off 0 0 = .ok b' ∧
      b'.written = overwrite b.written (ob.startPos + off) nullPair := by
  obtain ⟨b', hb, -, -, hw⟩ := b.patch_twice_ok (ob.startPos + off) (le 4 0) (le 4 0)
    (by rw [le_length]; omega)
  refine ⟨b', ?_, hw⟩
  rw [Builder.setList, Builder.ensureField_of_le (by omega), if_pos (.inl rfl)]
  exact hb

theorem setList_spec {count : Nat} (ht : target ≠ 0) (hc : count ≠ 0) (h : ob.startPos + off + 8 ≤ b.pos) :
    ∃ b', b.setList ob off target count = .ok b' ∧ b'.written = overwrite b.written (ob.startPos + off)
        (pairWord target (ob.startPos + off) count) := by
  obtain ⟨b', hb, -, -, hw⟩ := b.patch_twice_ok (ob.startPos + off)
    (relWord target (ob.startPos + off)) (le 4 count)
    (by rw [relWord_length, le_length]; omega)
  refine ⟨b', ?_, by rw [hw, pairWord]⟩
  rw [Builder.setList, Builder.ensureField_of_le (by omega), if_neg (by omega)]
  exact hb

end Calls

/-! ## Lists -/

def addUints (w : Width) : List Nat → ListBuilder → Build ListBuilder
  | [], lb => pure lb
  | v :: vs, lb => do
    let lb ← Prog.request (S := buildSig) (.addUint w lb v)
    addUints w vs lb

def addObjectPtrs : List Nat → ListBuilder → Build ListBuilder
  | [], lb => pure lb
  | t :: ts, lb => do
    let lb ← Prog.request (S := buildSig) (.addObjectPtr lb t)
    addObjectPtrs ts lb

/-- `StartList`, the elements, `Finish`: the offset and the length. -/
def scalarList (w : Width) (vs : List Nat) : Build (Nat × Nat) := do
  let lb ← Prog.request (S := buildSig) .startList
  let lb ← addUints w vs lb
  return (lb.startPos, lb.count)

/-- `StartList`, the pointers, `Finish`: the offset and the length. -/
def pointerList (targets : List Nat) : Build (Nat × Nat) := do
  let lb ← Prog.request (S := buildSig) .startList
  let lb ← addObjectPtrs targets lb
  return (lb.startPos, lb.count)

def scalarArray (w : Width) (vs : List Nat) : List UInt8 := (vs.map (le w.bytes)).flatten

/-- The bytes of a pointer list at `pos`: every slot is relative to itself. -/
def pointerArray : Nat → List Nat → List UInt8
  | _, [] => []
  | pos, t :: ts => relWord t pos ++ pointerArray (pos + 4) ts

theorem run_addUints (w : Width) (vs : List Nat) (lb : ListBuilder) (b : Builder) :
    ∃ b', Builder.run (addUints w vs lb) b = .ok (⟨lb.startPos, lb.count + vs.length⟩, b') ∧
      b'.written = b.written ++ scalarArray w vs := by
  induction vs generalizing lb b with
  | nil => exact ⟨b, rfl, by simp [scalarArray]⟩
  | cons v vs ih =>
    obtain ⟨b', hrun, hw⟩ := ih ⟨lb.startPos, lb.count + 1⟩ (b.extend (le w.bytes v))
    refine ⟨b', ?_, ?_⟩
    · rw [addUints, Builder.run_bind, Builder.run_request]
      refine hrun.trans ?_
      rw [List.length_cons, Nat.add_assoc, Nat.add_comm 1]
    · rw [hw, Builder.written_extend]
      simp [scalarArray]

theorem run_addObjectPtrs (ts : List Nat) (hts : ∀ t ∈ ts, t ≠ 0) (lb : ListBuilder) (b : Builder) :
    ∃ b', Builder.run (addObjectPtrs ts lb) b = .ok (⟨lb.startPos, lb.count + ts.length⟩, b') ∧
      b'.written = b.written ++ pointerArray b.pos ts := by
  induction ts generalizing lb b with
  | nil => exact ⟨b, rfl, by simp [pointerArray]⟩
  | cons t ts ih =>
    have ht : t ≠ 0 := hts t (List.mem_cons_self ..)
    obtain ⟨b', hrun, hw⟩ := ih (fun u hu => hts u (List.mem_cons_of_mem _ hu))
      ⟨lb.startPos, lb.count + 1⟩ (b.extend (relWord t b.pos))
    refine ⟨b', ?_, ?_⟩
    · rw [addObjectPtrs, Builder.run_bind, Builder.run_request]
      have hans : b.answer (.addObjectPtr lb t) =
          .ok ((⟨lb.startPos, lb.count + 1⟩ : ListBuilder), b.extend (relWord t b.pos)) := by
        simp only [Builder.answer, Builder.addObjectPtr, if_neg ht]
      rw [hans]
      refine hrun.trans ?_
      rw [List.length_cons, Nat.add_assoc, Nat.add_comm 1]
    · rw [hw, Builder.written_extend, Builder.extend_pos, relWord_length, List.append_assoc, pointerArray]

theorem run_scalarList (w : Width) (vs : List Nat) (b : Builder) :
    ∃ pad b', Builder.run (scalarList w vs) b = .ok ((b.pos + List.length pad, vs.length), b') ∧
      b'.written = b.written ++ pad ++ scalarArray w vs := by
  obtain ⟨pad, hstart, hcount, hw⟩ := startList_spec b
  obtain ⟨b', hrun, hw'⟩ := run_addUints w vs b.startList.1 b.startList.2
  refine ⟨pad, b', ?_, by rw [hw', hw]⟩
  rw [scalarList, Builder.run_bind, Builder.run_request]
  change Builder.run (addUints w vs b.startList.1 >>= _) b.startList.2 = _
  rw [Builder.run_bind, hrun, go_bind_ok, hstart, hcount, Nat.zero_add]
  rfl

theorem run_pointerList (ts : List Nat) (hts : ∀ t ∈ ts, t ≠ 0) (b : Builder) :
    ∃ pad b', Builder.run (pointerList ts) b = .ok ((b.pos + List.length pad, ts.length), b') ∧
      b'.written = b.written ++ pad ++ pointerArray (b.pos + List.length pad) ts := by
  obtain ⟨pad, hstart, hcount, hw⟩ := startList_spec b
  obtain ⟨b', hrun, hw'⟩ := run_addObjectPtrs ts hts b.startList.1 b.startList.2
  have hpos : b.startList.2.pos = b.pos + pad.length := by
    rw [← Builder.written_length, hw, List.length_append, Builder.written_length]
  refine ⟨pad, b', ?_, by rw [hw', hw, hpos]⟩
  rw [pointerList, Builder.run_bind, Builder.run_request]
  change Builder.run (addObjectPtrs ts b.startList.1 >>= _) b.startList.2 = _
  rw [Builder.run_bind, hrun, go_bind_ok, hstart, hcount, Nat.zero_add]
  rfl

/-! ## Assemblies -/

/-- A run of builder calls that never sets one slot twice, with the record of what it has written. The
setters name a section of the record; a pointer setter may name any position. -/
inductive Assembles : Heap → Builder → Prop
  | new (capacity : Nat) {version : Nat} (h : version = version1 ∨ version = version2) :
      Assembles .empty (newBuilder capacity version)
  | startObject {H : Heap} {b : Builder} {n : Nat} (hn : 0 < n) :
      Assembles H b → Assembles ((H.freeze b.pos b.padding).reserve (b.pos + b.padding.length) n)
        (b.startObject n).2
  | setUint {H : Heap} {b b' : Builder} {w : Width} {ob : ObjectBuilder} {off v : Nat} :
      Assembles H b → H.Free ob.startPos off w.bytes → b.setUint w ob off v = .ok b' →
      Assembles (H.fill ob.startPos off (le w.bytes v)) b'
  | setBytesFixed {H : Heap} {b b' : Builder} {ob : ObjectBuilder} {off : Nat} {v : List UInt8} :
      Assembles H b → v ≠ [] → H.Free ob.startPos off v.length → b.setBytesFixed ob off v = .ok b' →
      Assembles (H.fill ob.startPos off v) b'
  | setBytesNull {H : Heap} {b b' : Builder} {ob : ObjectBuilder} {off : Nat} :
      Assembles H b → H.Free ob.startPos off 8 → b.setBytes ob off [] = .ok b' →
      Assembles (H.fill ob.startPos off nullPair) b'
  | setBytes {H : Heap} {b b' : Builder} {ob : ObjectBuilder} {off : Nat} {v : List UInt8} :
      Assembles H b → v ≠ [] → H.Free ob.startPos off 8 → b.setBytes ob off v = .ok b' →
      Assembles ((H.freeze b.pos v).fill ob.startPos off
        (pairWord b.pos (ob.startPos + off) v.length)) b'
  | setObject {H : Heap} {b b' : Builder} {ob : ObjectBuilder} {off target : Nat} :
      Assembles H b → target ≠ 0 → H.Free ob.startPos off 4 → b.setObject ob off target = .ok b' →
      Assembles (H.fill ob.startPos off (relWord target (ob.startPos + off))) b'
  | setListNull {H : Heap} {b b' : Builder} {ob : ObjectBuilder} {off : Nat} :
      Assembles H b → H.Free ob.startPos off 8 → b.setList ob off 0 0 = .ok b' →
      Assembles (H.fill ob.startPos off nullPair) b'
  | setList {H : Heap} {b b' : Builder} {ob : ObjectBuilder} {off target count : Nat} :
      Assembles H b → target ≠ 0 → count ≠ 0 → H.Free ob.startPos off 8 →
      b.setList ob off target count = .ok b' →
      Assembles (H.fill ob.startPos off (pairWord target (ob.startPos + off) count)) b'
  | scalarList {H : Heap} {b b' : Builder} {w : Width} {vs : List Nat} {x : Nat × Nat} :
      Assembles H b → Builder.run (scalarList w vs) b = .ok (x, b') →
      Assembles (H.freeze x.1 (scalarArray w vs)) b'
  | pointerList {H : Heap} {b b' : Builder} {ts : List Nat} {x : Nat × Nat} :
      Assembles H b → (∀ t ∈ ts, t ≠ 0) → Builder.run (pointerList ts) b = .ok (x, b') →
      Assembles (H.freeze x.1 (pointerArray x.1 ts)) b'
  | finishAsRoot {H : Heap} {b : Builder} (ob : ObjectBuilder) : Assembles H b → Assembles H (b.finishAsRoot ob)

variable {H : Heap} {n : Nat} {b b' : Builder}

theorem free_inside {base off : Nat} (h : Rep H headerSize b.written) (hfree : H.Free base off n) :
    base + off + n ≤ b.pos := by
  obtain ⟨⟨size, hsize, hle⟩, -⟩ := hfree
  have := h.section_in _ hsize
  rw [Builder.written_length] at this
  simp only at this
  omega

theorem written_pos (b : Builder) : headerSize ≤ b.written.length := by
  rw [Builder.written_length]
  exact b.past_header

theorem rep_reserve {pad : List UInt8} (h : Rep H headerSize b.written) (hn : 0 < n)
    (hw : b'.written = b.written ++ pad ++ List.replicate n 0) :
    Rep ((H.freeze b.pos pad).reserve (b.pos + pad.length) n) headerSize b'.written := by
  have hlen : (b.written ++ pad).length = b.pos + pad.length := by
    rw [List.length_append, Builder.written_length]
  have hpad := h.freeze (written_pos b) pad
  have := hpad.reserve (by have := written_pos b; rw [List.length_append]; omega) hn
  rwa [hlen, Builder.written_length, ← hw] at this

theorem rep_freeze {pad bs : List UInt8} (h : Rep H headerSize b.written) (hw : b'.written = b.written ++ pad ++ bs) :
    Rep (H.freeze (b.pos + pad.length) bs) headerSize b'.written := by
  have hlen : (b.written ++ pad).length = b.pos + pad.length := by
    rw [List.length_append, Builder.written_length]
  have := (h.append pad).freeze (by have := written_pos b; rw [List.length_append]; omega) bs
  rwa [hlen, ← hw] at this

/-- **The bytes bear out the record of the run.** -/
theorem assembles_rep (h : Assembles H b) : Rep H headerSize b.written := by
  induction h with
  | new capacity hv => exact Rep.empty _ _
  | @startObject H b n hn _ ih =>
    exact rep_reserve ih hn (startObject_spec b n).2
  | @setUint H b b' w ob off v _ hfree hcall ih =>
    obtain ⟨b1, hb1, hw⟩ := setUint_spec (w := w) v (free_inside ih hfree)
    cases hb1.symm.trans hcall
    rw [hw]
    exact ih.fill (by rw [le_length]; exact hfree)
  | setBytesFixed _ hv hfree hcall ih =>
    obtain ⟨b1, hb1, hw⟩ := setBytesFixed_spec hv (free_inside ih hfree)
    cases hb1.symm.trans hcall
    rw [hw]
    exact ih.fill hfree
  | setBytesNull _ hfree hcall ih =>
    obtain ⟨b1, hb1, hw⟩ := setBytes_nil_spec (free_inside ih hfree)
    cases hb1.symm.trans hcall
    rw [hw]
    exact ih.fill hfree
  | @setBytes H b b' ob off v _ hv hfree hcall ih =>
    obtain ⟨b1, hb1, hw⟩ := setBytes_spec hv (free_inside ih hfree)
    cases hb1.symm.trans hcall
    rw [hw]
    have hfrozen := ih.freeze (written_pos b) v
    rw [Builder.written_length] at hfrozen
    exact hfrozen.fill (by rw [pairWord_length]; exact hfree)
  | setObject _ ht hfree hcall ih =>
    obtain ⟨b1, hb1, hw⟩ := setObject_spec ht (free_inside ih hfree)
    cases hb1.symm.trans hcall
    rw [hw]
    exact ih.fill (by rw [relWord_length]; exact hfree)
  | setListNull _ hfree hcall ih =>
    obtain ⟨b1, hb1, hw⟩ := setList_null_spec (free_inside ih hfree)
    cases hb1.symm.trans hcall
    rw [hw]
    exact ih.fill hfree
  | setList _ ht hc hfree hcall ih =>
    obtain ⟨b1, hb1, hw⟩ := setList_spec ht hc (free_inside ih hfree)
    cases hb1.symm.trans hcall
    rw [hw]
    exact ih.fill (by rw [pairWord_length]; exact hfree)
  | @scalarList H b b' w vs x _ hrun ih =>
    obtain ⟨pad, b1, hb1, hw⟩ := run_scalarList w vs b
    cases hb1.symm.trans hrun
    exact rep_freeze ih hw
  | @pointerList H b b' ts x _ hts hrun ih =>
    obtain ⟨pad, b1, hb1, hw⟩ := run_pointerList ts hts b
    cases hb1.symm.trans hrun
    exact rep_freeze ih hw
  | finishAsRoot ob _ ih => exact ih

theorem setter_head {r : BuildReq} {e : Go Builder} (u : Unit → r.Resp)
    (hr : b.answer r = e >>= fun d => pure (u (), d)) (he : e = .ok b') : SameHead b' b := by
  subst he
  exact answer_head (x := (u (), b')) hr

theorem assembles_head (h : Assembles H b) : ∃ v, (v = version1 ∨ v = version2) ∧ b.Head v 0 := by
  have hkeep : ∀ {b b' : Builder}, SameHead b' b → (∃ v, (v = version1 ∨ v = version2) ∧ b.Head v 0) →
      ∃ v, (v = version1 ∨ v = version2) ∧ b'.Head v 0 :=
    fun hsame ⟨v, hv, hhead⟩ => ⟨v, hv, hhead.of_same hsame⟩
  induction h with
  | new capacity hv => exact ⟨_, hv, newBuilder_head _ _⟩
  | @startObject H b n _ _ ih => exact hkeep (answer_head (r := .startObject n) rfl) ih
  | @setUint H b b' w ob off v _ _ hcall ih =>
    exact hkeep (setter_head (r := .setUint w ob off v) id rfl hcall) ih
  | @setBytesFixed H b b' ob off v _ _ _ hcall ih =>
    exact hkeep (setter_head (r := .setBytesFixed ob off v) id rfl hcall) ih
  | @setBytesNull H b b' ob off _ _ hcall ih =>
    exact hkeep (setter_head (r := .setBytes ob off []) id rfl hcall) ih
  | @setBytes H b b' ob off v _ _ _ hcall ih =>
    exact hkeep (setter_head (r := .setBytes ob off v) id rfl hcall) ih
  | @setObject H b b' ob off target _ _ _ hcall ih =>
    exact hkeep (setter_head (r := .setObject ob off target) id rfl hcall) ih
  | @setListNull H b b' ob off _ _ hcall ih =>
    exact hkeep (setter_head (r := .setList ob off 0 0) id rfl hcall) ih
  | @setList H b b' ob off target count _ _ _ _ hcall ih =>
    exact hkeep (setter_head (r := .setList ob off target count) id rfl hcall) ih
  | scalarList _ hrun ih => exact hkeep (run_head hrun) ih
  | pointerList _ _ hrun ih => exact hkeep (run_head hrun) ih
  | finishAsRoot ob _ ih => exact ih

theorem finish_bytes {v g : Nat} (h : b.Head v g) :
    b.finish.1 = header v g b.rootOffset b.pos ++ b.written.drop headerSize := by
  have h16 : headerSize = 16 := rfl
  have hpos := b.past_header
  have hfits := b.fits
  have hheader : header v g b.rootOffset b.pos = b.buf.take 8 ++ (le 4 b.rootOffset ++ le 4 b.pos) := by
    rw [h]
    simp [header, head]
  have h8 : (b.buf.take 8).length = 8 := by
    rw [List.length_take]
    omega
  rw [hheader, List.append_assoc, List.append_assoc, Builder.finish]
  apply List.ext_getElem?
  intro k
  by_cases hk : k < b.pos
  · rw [List.getElem?_take_of_lt hk, finishBuffer_getElem?]
    split_ifs with hsize hroot
    · rw [List.getElem?_append_right (by omega), List.getElem?_append_right (by rw [le_length]; omega),
        List.getElem?_append_left (by rw [le_length, le_length]; omega), h8, le_length]
      congr 1
    · rw [List.getElem?_append_right (by omega), List.getElem?_append_left (by rw [le_length]; omega), h8]
    · by_cases hlow : k < 8
      · rw [List.getElem?_append_left (by omega), List.getElem?_take_of_lt hlow]
      rw [List.getElem?_append_right (by omega), List.getElem?_append_right (by rw [le_length]; omega),
        List.getElem?_append_right (by rw [le_length, le_length]; omega), h8, le_length, le_length,
        List.getElem?_drop, ← Builder.written_getElem? b hk]
      congr 1
      omega
  · rw [List.getElem?_take_eq_none (by omega), List.getElem?_eq_none]
    simp only [List.length_append, le_length, List.length_drop, Builder.written_length, h8]
    omega

theorem head_parses {v g : Nat} (hv : v = version1 ∨ v = version2) (hhead : b.Head v g)
    (hsize : b.pos < 2 ^ 32) :
    ∃ m, parse b.finish.1 = .ok m ∧ m.data.length = b.pos ∧ m.version = v ∧ m.flags = g % 2 ^ 16 ∧
      m.rootOffset = b.rootOffset % 2 ^ 32 ∧
      ∀ p n, headerSize ≤ p → window m.data p n = window b.written p n := by
  have h16 : headerSize = 16 := rfl
  have hpos := b.past_header
  have hbody : (b.written.drop headerSize).length = b.pos - headerSize := by
    rw [List.length_drop, Builder.written_length]
  obtain ⟨m, hp, hdata, hver, hflags, hroot⟩ := parse_header v g b.rootOffset b.pos
    (b.written.drop headerSize) hv (by omega) hsize
  rw [← finish_bytes hhead] at hp hdata
  have hlen : m.data.length = b.pos := by
    rw [hdata, finish_bytes hhead, List.length_append, header_length, hbody]
    omega
  refine ⟨m, hp, hlen, hver, hflags, hroot, ?_⟩
  intro p n hp16
  rw [hdata, finish_bytes hhead, window, window, List.drop_append, header_length,
    List.drop_eq_nil_of_le (by rw [header_length]; exact hp16), List.nil_append, List.drop_drop]
  congr 2
  omega

/-- **An assembly parses**, and its message bears out the record. -/
theorem assembles_parses (h : Assembles H b) (hsize : b.pos < 2 ^ 32) :
    ∃ m, parse b.finish.1 = .ok m ∧ m.data.length = b.pos ∧ m.rootOffset = b.rootOffset % 2 ^ 32 ∧
      Rep H headerSize m.data := by
  obtain ⟨v, hv, hhead⟩ := assembles_head h
  obtain ⟨m, hp, hlen, -, -, hroot, hwin⟩ := head_parses hv hhead hsize
  exact ⟨m, hp, hlen, hroot, (assembles_rep h).congr (by rw [hlen, Builder.written_length]) hwin⟩

theorem window_putFlags (b : Builder) (flags : Nat) {p : Nat} (hp : headerSize ≤ p) :
    window (b.putFlags flags).written p n = window b.written p n := by
  have h16 : headerSize = 16 := rfl
  have h1 := b.past_header
  have h2 := b.fits
  apply List.ext_getElem?
  intro k
  simp only [window, List.getElem?_take, List.getElem?_drop]
  split_ifs with hk
  · simp only [Builder.written, Builder.putFlags, List.getElem?_take]
    split_ifs with hin
    · rw [overwrite_getElem? (by rw [le_length]; omega), le_length, if_neg (by omega)]
    · rfl
  · rfl

theorem assembles_parses_flags (h : Assembles H b) (hsize : b.pos < 2 ^ 32)
    (flags : Nat) :
    ∃ m, parse (b.finishWithFlags flags).1 = .ok m ∧ m.data.length = b.pos ∧
      m.flags = flags % 2 ^ 16 ∧ m.rootOffset = b.rootOffset % 2 ^ 32 ∧ Rep H headerSize m.data := by
  obtain ⟨v, hv, hhead⟩ := assembles_head h
  obtain ⟨m, hp, hlen, -, hflags, hroot, hwin⟩ := head_parses hv (putFlags_head hhead flags) hsize
  refine ⟨m, hp, hlen, hflags, hroot, (assembles_rep h).congr ?_ fun p n hp16 => ?_⟩
  · rw [hlen, Builder.written_length]
    rfl
  · rw [hwin p n hp16, window_putFlags b flags hp16]

/-- **What a builder finishes is a message**, whatever it has been through: its version, the last flags, its bytes. -/
theorem used_finishes {v g : Nat} (hb : Used v g b) (hsize : b.pos < 2 ^ 32) (flags : Option Nat)
    (hf : ∀ f ∈ flags, f < 2 ^ 16) :
    ∃ m, parse (flags.elim b.finish b.finishWithFlags).1 = .ok m ∧ m.data.length = b.pos ∧ m.version = v ∧
      m.flags = flags.getD g ∧ ∀ p n, headerSize ≤ p → window m.data p n = window b.written p n := by
  obtain ⟨hhead, -, hg⟩ := hb.head
  cases flags with
  | none =>
    obtain ⟨m, hp, hlen, hver, hflags, -, hwin⟩ := head_parses hb.version hhead hsize
    exact ⟨m, hp, hlen, hver, hflags.trans (Nat.mod_eq_of_lt hg), hwin⟩
  | some f =>
    obtain ⟨m, hp, hlen, hver, hflags, -, hwin⟩ := head_parses hb.version (putFlags_head hhead f) hsize
    refine ⟨m, hp, hlen, hver, hflags.trans (Nat.mod_eq_of_lt (hf f rfl)), fun p n hle => ?_⟩
    rw [hwin p n hle, window_putFlags b f hle]

theorem used_finishes_worn :
    ∃ b m, worn = .ok b ∧ parse (b.finishWithFlags 1).1 = .ok m ∧ m.version = version2 ∧ m.flags = 1 ∧
      m.data.length = 33 := by
  obtain ⟨b, hworn, hused, hpos⟩ := worn_used
  obtain ⟨m, hp, hlen, hver, hflags, -⟩ := used_finishes hused (by rw [hpos]; decide) (some 1) (by decide)
  exact ⟨b, m, hworn, hp, hver, hflags, hlen.trans hpos⟩

end Zap.Wire
