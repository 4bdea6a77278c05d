/-
# Zap.Wire.Setter — the writers of `v1`, and a logic for programs of builder calls.

These are the writers of the `v1` package: `WriteNested`, `WriteListNested`, `WriteList` and `Build`, as programs
of builder calls. A `Setter` is the object builder it wraps; the closures the writers take are programs.

`Makes b H p P Q` says that `p`, started on the builder `b` whose calls so far are recorded in `H`, returns
without a fault, that its calls are again an assembly, that every slot it
fills satisfies `P`, and that `Q` holds of what it returns. `P` is the frame: a program that only fills slots of
objects it has started itself leaves every free slot of an older object free.
-/
import Zap.Wire.Assembly
import Zap.Wire.View

namespace Zap.Wire

open Zap.Lib

/-! ## The writers -/

def call (r : BuildReq) : Build r.Resp := Prog.request (S := buildSig) r

/-- `StartObject`, the fields, `Finish`: the lines `WriteNested`, `NestedElemSetter.Append`,
`ElemSetter.Append` and `Build` share. -/
def buildObject (size : Nat) (init : ObjectBuilder → Build Unit) : Build ObjectBuilder := do
  let ob ← call (.startObject size)
  init ob
  return ob

/-- `WriteNested`, with the size of the parent's schema and of the nested one. -/
def writeNested (ob : ObjectBuilder) (parentSize size byteOffset : Nat)
    (init : ObjectBuilder → Build Unit) : Build Unit := do
  call (.reserveFixed ob parentSize)
  let nob ← buildObject size init
  call (.setObject ob byteOffset nob.startPos)

/-- `NestedElemSetter.Append`, on the positions collected so far. -/
def NestedElemSetter.append (size : Nat) (init : ObjectBuilder → Build Unit) (positions : List Nat) :
    Build (List Nat) := do
  let ob ← buildObject size init
  return positions ++ [ob.startPos]

/-- `WriteListNested`. The closure appends to the positions it is given. -/
def writeListNested (ob : ObjectBuilder) (parentSize byteOffset : Nat)
    (each : List Nat → Build (List Nat)) : Build Unit := do
  call (.reserveFixed ob parentSize)
  let positions ← each []
  if positions.length = 0 then
    call (.setList ob byteOffset 0 0)
  else
    let l ← pointerList positions
    call (.setList ob byteOffset l.1 l.2)

structure ElemSetter where
  stride : Nat
  count : Nat
  startPos : Nat

def ElemSetter.append (es : ElemSetter) (init : ObjectBuilder → Build Unit) : Build ElemSetter := do
  let ob ← buildObject es.stride init
  return ⟨es.stride, es.count + 1, if es.count = 0 then ob.startPos else es.startPos⟩

/-- `WriteList`, with the size of the parent's schema and of the element's. -/
def writeList (ob : ObjectBuilder) (parentSize stride byteOffset : Nat)
    (each : ElemSetter → Build ElemSetter) : Build Unit := do
  call (.reserveFixed ob parentSize)
  let es ← each ⟨stride, 0, 0⟩
  if es.count = 0 then
    call (.setList ob byteOffset 0 0)
  else
    call (.setList ob byteOffset es.startPos es.count)

/-- The calls of `Build` between `NewBuilder` and `Finish`. -/
def buildRoot (s : Schema) (init : ObjectBuilder → Build Unit) : Build ObjectBuilder := do
  let ob ← buildObject s.size fun ob => do
    call (.setUint .w8 ob 0 s.kind.toNat)
    init ob
  call (.finishAsRoot ob)
  return ob

/-! ## A logic for programs of builder calls -/

/-- The program returns, its calls are an assembly, the slots it fills satisfy `P`, and its result and
its final state satisfy `Q`. -/
def Makes {α : Type} (b : Builder) (H : Heap) (p : Build α) (P : Slot → Prop)
    (Q : α → Builder → Heap → Prop) : Prop :=
  ∃ x b' H', Builder.run p b = .ok (x, b') ∧ Assembles H' b' ∧ b.pos ≤ b'.pos ∧ H.Adds P H' ∧ Q x b' H'

variable {H' : Heap}

section Rules

variable {α β : Type} {b : Builder} {H : Heap} {P P' : Slot → Prop} {Q Q' : α → Builder → Heap → Prop}
  {p : Build α}

theorem Makes.mono (h : Makes b H p P Q) (hP : ∀ x, P x → P' x) (hQ : ∀ x b' H', H.Le H' → Q x b' H' → Q' x b' H') :
    Makes b H p P' Q' := by
  obtain ⟨x, b', H', hrun, hA, hpos, hadds, hq⟩ := h
  exact ⟨x, b', H', hrun, hA, hpos, hadds.mono hP, hQ x b' H' hadds.1 hq⟩

theorem makes_pure {a : α} (hA : Assembles H b) (h : Q a b H) : Makes b H (pure a : Build α) P Q :=
  ⟨a, b, H, rfl, hA, Nat.le_refl _, .refl H P, h⟩

/-- Sequencing. The second program meets the state the first has left, and knows the first one's frame. -/
theorem Makes.bind {k : α → Build β} {R : β → Builder → Heap → Prop} (h : Makes b H p P Q) (hP : ∀ x, P x → P' x)
    (hk : ∀ x b' H', Assembles H' b' → b.pos ≤ b'.pos → H.Adds P H' → Q x b' H' →
      Makes b' H' (k x) P' R) : Makes b H (p >>= k) P' R := by
  obtain ⟨x, b1, H1, hrun, hA, hpos, hadds, hq⟩ := h
  obtain ⟨y, b2, H2, hrun', hA', hpos', hadds', hr⟩ := hk x b1 H1 hA hpos hadds hq
  refine ⟨y, b2, H2, ?_, hA', Nat.le_trans hpos hpos', (hadds.mono hP).trans hadds', hr⟩
  rw [Builder.run_bind, hrun, go_bind_ok, hrun']

theorem makes_call (r : BuildReq) (x : r.Resp) {b' : Builder} {Q : r.Resp → Builder → Heap → Prop}
    (hans : b.answer r = .ok (x, b')) (hA : Assembles H' b') (hpos : b.pos ≤ b'.pos) (hadds : H.Adds P H')
    (hq : Q x b' H') : Makes b H (call r) P Q :=
  ⟨x, b', H', (Builder.run_request r b).trans hans, hA, hpos, hadds, hq⟩

end Rules

theorem written_overwrite_pos {b b' : Builder} {i : Nat} {bs : List UInt8}
    (h : b'.written = overwrite b.written i bs) (hi : i + bs.length ≤ b.pos) : b'.pos = b.pos := by
  have := congrArg List.length h
  rwa [overwrite_length (by rw [Builder.written_length]; exact hi), Builder.written_length,
    Builder.written_length] at this

/-- What `StartObject` has done: the object is behind a padding, its section is reserved and free. -/
structure Started (b : Builder) (H : Heap) (n : Nat) (ob : ObjectBuilder) (b' : Builder) (H' : Heap) :
    Prop where
  assembles : Assembles H' b'
  le : H.Le H'
  start : ob.startPos = b.pos + b.padding.length
  stop : b'.pos = ob.startPos + n
  pad : (b.pos, b.padding) ∈ H'.frozen
  reserved : (ob.startPos, n) ∈ H'.sections
  free : ∀ off k, off + k ≤ n → H'.Free ob.startPos off k

section CallRules

variable {b : Builder} {H : Heap} (hA : Assembles H b)

include hA

variable {n : Nat}

theorem assembles_section {p : Nat} (h : (p, n) ∈ H.sections) : headerSize ≤ p ∧ 0 < n ∧ p + n ≤ b.pos := by
  have := (assembles_rep hA).section_in _ h
  rwa [Builder.written_length] at this

theorem makes_startObject (hn : 0 < n) (P : Slot → Prop) : Makes b H (call (.startObject n)) P (Started b H n) := by
  obtain ⟨hstart, hw⟩ := startObject_spec b n
  have hpos : (b.startObject n).2.pos = b.pos + b.padding.length + n := by
    have := congrArg List.length hw
    rwa [Builder.written_length, List.length_append, List.length_append, Builder.written_length,
      List.length_replicate] at this
  have hans : b.answer (.startObject n) = .ok ((b.startObject n).1, (b.startObject n).2) := rfl
  refine makes_call (.startObject n) (b.startObject n).1 hans
    (hA.startObject hn) (by omega)
    ((Heap.adds_freeze H P _ _).trans (Heap.adds_reserve _ P _ _))
    ⟨hA.startObject hn, (H.le_freeze _ _).trans (Heap.le_reserve _ _ _), hstart,
      by rw [hpos, hstart], List.mem_cons_self .., ?_, ?_⟩
  · rw [hstart]
    exact List.mem_cons_self ..
  intro off k hle
  rw [hstart]
  refine ⟨⟨n, List.mem_cons_self .., hle⟩, fun x hx hbase => ?_⟩
  -- every older slot belongs to a section that ends before the cursor
  obtain ⟨size, hsec, -⟩ := (assembles_rep hA).slot_in x hx
  have := assembles_section hA hsec
  omega

theorem makes_reserved {α : Type} {ob : ObjectBuilder} {k : Unit → Build α} {P : Slot → Prop}
    {Q : α → Builder → Heap → Prop} (h : (ob.startPos, n) ∈ H.sections) (hk : Makes b H (k ()) P Q) :
    Makes b H (call (.reserveFixed ob n) >>= k) P Q := by
  have hsec := assembles_section hA h
  have hans : b.answer (.reserveFixed ob n) = .ok ((), b) := by
    simp only [Builder.answer, Builder.ensureField_of_le hsec.2.2]
  have hsame : Makes b H (call (.reserveFixed ob n)) (fun _ => False) fun _ b' H' => b' = b ∧ H' = H :=
    makes_call (.reserveFixed ob n) () hans hA (Nat.le_refl _) (.refl H _) ⟨rfl, rfl⟩
  refine hsame.bind (fun _ => False.elim) ?_
  rintro - b' H' - - - ⟨hb, hH⟩
  rw [hb, hH]
  exact hk

section Setters

variable {ob : ObjectBuilder} {off : Nat}

theorem makes_setUint {w : Width} {v : Nat} (hfree : H.Free ob.startPos off w.bytes) :
    Makes b H (call (.setUint w ob off v)) (Slot.At ob.startPos off w.bytes) fun _ b' H' =>
      b'.pos = b.pos ∧ ⟨ob.startPos, off, le w.bytes v⟩ ∈ H'.slots := by
  have hin := free_inside (assembles_rep hA) hfree
  obtain ⟨b', hb, hw⟩ := setUint_spec (w := w) v hin
  have hpos := written_overwrite_pos hw (by rw [le_length]; exact hin)
  refine makes_call (.setUint w ob off v) () ?_ (hA.setUint hfree hb) (Nat.le_of_eq hpos.symm)
    (H.adds_fill _ _ (le_length _ _)) ⟨hpos, List.mem_cons_self ..⟩
  simp only [Builder.answer, hb, go_bind_ok, go_pure]

variable {v : List UInt8} {target : Nat}

theorem makes_setBytesFixed (hv : v ≠ []) (hfree : H.Free ob.startPos off v.length) :
    Makes b H (call (.setBytesFixed ob off v)) (Slot.At ob.startPos off v.length) fun _ b' H' =>
      b'.pos = b.pos ∧ ⟨ob.startPos, off, v⟩ ∈ H'.slots := by
  have hin := free_inside (assembles_rep hA) hfree
  obtain ⟨b', hb, hw⟩ := setBytesFixed_spec hv hin
  have hpos := written_overwrite_pos hw hin
  refine makes_call (.setBytesFixed ob off v) () ?_ (hA.setBytesFixed hv hfree hb) (Nat.le_of_eq hpos.symm)
    (H.adds_fill _ _ rfl) ⟨hpos, List.mem_cons_self ..⟩
  simp only [Builder.answer, hb, go_bind_ok, go_pure]

theorem makes_setBytes (hfree : H.Free ob.startPos off 8) :
    Makes b H (call (.setBytes ob off v)) (Slot.At ob.startPos off 8) fun _ _ H' =>
      v = [] ∧ ⟨ob.startPos, off, nullPair⟩ ∈ H'.slots ∨
      v ≠ [] ∧ ∃ p, ob.startPos + off + 8 ≤ p ∧
        ⟨ob.startPos, off, pairWord p (ob.startPos + off) v.length⟩ ∈ H'.slots ∧ (p, v) ∈ H'.frozen := by
  have hin := free_inside (assembles_rep hA) hfree
  by_cases hv : v = []
  · subst hv
    obtain ⟨b', hb, hw⟩ := setBytes_nil_spec hin
    have hpos := written_overwrite_pos hw hin
    refine makes_call (.setBytes ob off []) () ?_ (hA.setBytesNull hfree hb) (Nat.le_of_eq hpos.symm)
      (H.adds_fill _ _ rfl) (.inl ⟨rfl, List.mem_cons_self ..⟩)
    simp only [Builder.answer, hb, go_bind_ok, go_pure]
  · obtain ⟨b', hb, hw⟩ := setBytes_spec hv hin
    have hpos : b'.pos = b.pos + v.length := by
      rw [← Builder.written_extend] at hw
      exact written_overwrite_pos hw (by rw [pairWord_length, Builder.extend_pos]; omega)
    refine makes_call (.setBytes ob off v) () ?_ (hA.setBytes hv hfree hb) (by omega)
      ((Heap.adds_freeze H _ _ _).trans (Heap.adds_fill _ _ _ (pairWord_length _ _ _)))
      (.inr ⟨hv, b.pos, hin, List.mem_cons_self .., List.mem_cons_self ..⟩)
    simp only [Builder.answer, hb, go_bind_ok, go_pure]

theorem makes_setObject (ht : target ≠ 0) (hfree : H.Free ob.startPos off 4) :
    Makes b H (call (.setObject ob off target)) (Slot.At ob.startPos off 4) fun _ _ H' =>
      ⟨ob.startPos, off, relWord target (ob.startPos + off)⟩ ∈ H'.slots := by
  have hin := free_inside (assembles_rep hA) hfree
  obtain ⟨b', hb, hw⟩ := setObject_spec ht hin
  have hpos := written_overwrite_pos hw (by rw [relWord_length]; exact hin)
  refine makes_call (.setObject ob off target) () ?_ (hA.setObject ht hfree hb) (Nat.le_of_eq hpos.symm)
    (H.adds_fill _ _ (relWord_length _ _)) (List.mem_cons_self ..)
  simp only [Builder.answer, hb, go_bind_ok, go_pure]

theorem makes_setList {count : Nat} (ht : target ≠ 0 ∨ count = 0) (hfree : H.Free ob.startPos off 8) :
    Makes b H (call (.setList ob off target count)) (Slot.At ob.startPos off 8) fun _ b' H' =>
      b'.pos = b.pos ∧ (count = 0 ∧ ⟨ob.startPos, off, nullPair⟩ ∈ H'.slots ∨
        count ≠ 0 ∧ ⟨ob.startPos, off, pairWord target (ob.startPos + off) count⟩ ∈ H'.slots) := by
  have hin := free_inside (assembles_rep hA) hfree
  by_cases hc : count = 0
  · subst hc
    obtain ⟨b', hb, hw⟩ := setList_null_spec hin
    have hpos := written_overwrite_pos hw hin
    have hb' : b.setList ob off target 0 = .ok b' := by
      rw [← hb, Builder.setList, Builder.setList, if_pos (.inr rfl), if_pos (.inr rfl)]
    refine makes_call (.setList ob off target 0) () ?_ (hA.setListNull hfree hb) (Nat.le_of_eq hpos.symm)
      (H.adds_fill _ _ rfl) ⟨hpos, .inl ⟨rfl, List.mem_cons_self ..⟩⟩
    simp only [Builder.answer, hb', go_bind_ok, go_pure]
  · have ht : target ≠ 0 := ht.resolve_right hc
    obtain ⟨b', hb, hw⟩ := setList_spec ht hc hin
    have hpos := written_overwrite_pos hw (by rw [pairWord_length]; exact hin)
    refine makes_call (.setList ob off target count) () ?_ (hA.setList ht hc hfree hb) (Nat.le_of_eq hpos.symm)
      (H.adds_fill _ _ (pairWord_length _ _ _)) ⟨hpos, .inr ⟨hc, List.mem_cons_self ..⟩⟩
    simp only [Builder.answer, hb, go_bind_ok, go_pure]

end Setters

theorem makes_scalarList (w : Width) (vs : List Nat) (P : Slot → Prop) :
    Makes b H (scalarList w vs) P fun x _ H' =>
      x.2 = vs.length ∧ b.pos ≤ x.1 ∧ (x.1, scalarArray w vs) ∈ H'.frozen := by
  obtain ⟨pad, b', hrun, hw⟩ := run_scalarList w vs b
  have hpos : b.pos ≤ b'.pos := by
    rw [← Builder.written_length b', hw, List.length_append, List.length_append, Builder.written_length]
    omega
  exact ⟨_, b', _, hrun, hA.scalarList hrun, hpos, H.adds_freeze P _ _, rfl, Nat.le_add_right _ _,
    List.mem_cons_self ..⟩

theorem makes_pointerList {ts : List Nat} (hts : ∀ t ∈ ts, t ≠ 0) (P : Slot → Prop) :
    Makes b H (pointerList ts) P fun x _ H' =>
      x.2 = ts.length ∧ b.pos ≤ x.1 ∧ (x.1, pointerArray x.1 ts) ∈ H'.frozen := by
  obtain ⟨pad, b', hrun, hw⟩ := run_pointerList ts hts b
  have hpos : b.pos ≤ b'.pos := by
    rw [← Builder.written_length b', hw, List.length_append, List.length_append, Builder.written_length]
    omega
  exact ⟨_, b', _, hrun, hA.pointerList hts hrun, hpos, H.adds_freeze P _ _, rfl, Nat.le_add_right _ _,
    List.mem_cons_self ..⟩

/-- An object is started, and its fields are written into it. Seen from outside, only slots behind the
cursor are filled. -/
theorem makes_buildObject (hn : 0 < n) {init : ObjectBuilder → Build Unit} {G : ObjectBuilder → Builder → Heap → Prop}
    (hinit : ∀ ob b1 H1, Started b H n ob b1 H1 →
      Makes b1 H1 (init ob) (fun x => x.Behind b1.pos ∨ x.base = ob.startPos) fun _ b2 H2 =>
        G ob b2 H2) :
    Makes b H (buildObject n init) (Slot.Behind b.pos) fun ob b2 H2 => b.pos ≤ ob.startPos ∧ G ob b2 H2 := by
  refine (makes_startObject hA hn fun _ => False).bind nofun ?_
  rintro ob b1 H1 - hpos - hstarted
  have hstart := hstarted.start
  refine (hinit ob b1 H1 hstarted).bind ?_ ?_
  · rintro x (hx | hx)
    · exact Nat.le_trans hpos hx
    · rw [Slot.Behind]
      omega
  · rintro - b2 H2 hA2 - - hG
    exact makes_pure hA2 ⟨by omega, hG⟩

/-- What an object behind the cursor fills leaves an older object's slot free. -/
theorem free_behind {base off : Nat} (hfree : H.Free base off n) (hadds : H.Adds (Slot.Behind b.pos) H') :
    H'.Free base off n := by
  refine hfree.adds hadds fun x hx hbase => ?_
  obtain ⟨⟨size, hsec, -⟩, -⟩ := hfree
  have := assembles_section hA hsec
  rw [Slot.Behind, hbase] at hx
  omega

end CallRules

end Zap.Wire
