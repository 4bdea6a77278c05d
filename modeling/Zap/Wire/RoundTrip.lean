/-
# Zap.Wire.RoundTrip — a tree written with the builder is the tree the reader sees.

Two writers of a `Tree`. The child-first one is how the builder is used by hand: the objects and lists a
field refers to are finished before the object that holds the field is started, and its setters are then
called in the order of the fields. The parent-first one is how the `v1` writers work: the object is
started, and each `WriteNested` and `WriteListNested` puts what belongs to the field behind it, in the order
of the fields.

The frame of `Makes` is what the two inductions live on: a
subtree fills no slot of an object that was there before it.
-/
import Zap.Wire.Setter
import Zap.Wire.Tree

namespace Zap.Wire

open Zap.Lib

/-! ## The parent-first writer -/

mutual

/-- Write the fields of the object that has been started for the tree. -/
def Tree.write : Tree → ObjectBuilder → Build Unit
  | .node size fields => fun ob => fields.write size ob

/-- One call or one `v1` writer per field, in order. -/
def Fields.write (size : Nat) : Fields → ObjectBuilder → Build Unit
  | .nil => fun _ => pure ()
  | .cons off f rest => fun ob => do
    f.write size ob off
    rest.write size ob

def Field.write (size : Nat) : Field → ObjectBuilder → Nat → Build Unit
  | .scalar w v => fun ob off => call (.setUint w ob off v)
  | .fixed bs => fun ob off => call (.setBytesFixed ob off bs)
  | .bytes bs => fun ob off => call (.setBytes ob off bs)
  | .object t => fun ob off => writeNested ob size t.size off t.write
  | .scalars w vs => fun ob off => do
    let l ← scalarList w vs
    call (.setList ob off l.1 l.2)
  | .objects ts => fun ob off => writeListNested ob size off ts.append

/-- One `NestedElemSetter.Append` per element. -/
def Trees.append : Trees → List Nat → Build (List Nat)
  | .nil => fun positions => pure positions
  | .cons t rest => fun positions => do
    let positions ← NestedElemSetter.append t.size t.write positions
    rest.append positions

end

/-- A whole message: the root is started first. -/
def Tree.parentFirst (t : Tree) : Build ObjectBuilder := do
  let ob ← buildObject t.size t.write
  call (.finishAsRoot ob)
  return ob

/-! ## The child-first writer -/

/-- Set a field to what has been prepared for it. -/
def Field.set (f : Field) (ob : ObjectBuilder) (off : Nat) (x : Nat × Nat) : Build Unit :=
  match f with
  | .scalar w v => call (.setUint w ob off v)
  | .fixed bs => call (.setBytesFixed ob off bs)
  | .bytes bs => call (.setBytes ob off bs)
  | .object _ => call (.setObject ob off x.1)
  | .scalars _ _ | .objects _ => call (.setList ob off x.1 x.2)

def Fields.set (ob : ObjectBuilder) : Fields → List (Nat × Nat) → Build Unit
  | .cons off f rest, x :: xs => do
    f.set ob off x
    rest.set ob xs
  | _, _ => pure ()

mutual

/-- Prepare the fields, start the object, set the fields. -/
def Tree.build : Tree → Build ObjectBuilder
  | .node size fields => do
    let xs ← fields.prepare
    buildObject size fun ob => fields.set ob xs

def Fields.prepare : Fields → Build (List (Nat × Nat))
  | .nil => pure []
  | .cons _ f rest => do
    let x ← f.prepare
    let xs ← rest.prepare
    return x :: xs

/-- The position, and for a list the length, of what the field refers to. -/
def Field.prepare : Field → Build (Nat × Nat)
  | .scalar _ _ | .fixed _ | .bytes _ => pure (0, 0)
  | .object t => do
    let ob ← t.build
    return (ob.startPos, 0)
  | .scalars w vs => scalarList w vs
  | .objects ts => do
    let ps ← ts.build
    pointerList ps

def Trees.build : Trees → Build (List Nat)
  | .nil => pure []
  | .cons t rest => do
    let ob ← t.build
    let ps ← rest.build
    return ob.startPos :: ps

end

/-- A whole message: the root is started last. -/
def Tree.childFirst (t : Tree) : Build ObjectBuilder := do
  let ob ← t.build
  call (.finishAsRoot ob)
  return ob

/-! ## Room for the fields -/

def Fields.Room (H : Heap) (base : Nat) : Fields → Prop
  | .nil => True
  | .cons off f rest => H.Free base off f.width ∧ rest.Room H base

theorem Fields.Room.adds {H H' : Heap} {P : Slot → Prop} {base off n : Nat}
    (hadds : H.Adds P H') (hP : ∀ x, P x → x.base = base → x.off = off ∧ x.bytes.length = n) :
    ∀ {fs : Fields}, fs.Clear off n → fs.Room H base → fs.Room H' base
  | .nil, _, _ => trivial
  | .cons off' f rest, ⟨hclear, hrest⟩, ⟨hfree, hroom⟩ => by
      refine ⟨hfree.adds hadds fun x hx hbase => ?_, Fields.Room.adds hadds hP hrest hroom⟩
      obtain ⟨rfl, rfl⟩ := hP x hx hbase
      exact hclear.symm

variable {H : Heap}

theorem Fields.room_of_free {base size : Nat}
    (hfree : ∀ off k, off + k ≤ size → H.Free base off k) :
    ∀ {fs : Fields}, fs.WF size → fs.Room H base
  | .nil, _ => trivial
  | .cons _ _ _, ⟨_, hoff, _, hrest⟩ => ⟨hfree _ _ hoff, Fields.room_of_free hfree hrest⟩

/-- The frame of one field of an object: slots of later objects, and its own. -/
def FieldFrame (pos base off n : Nat) (x : Slot) : Prop := x.Behind pos ∨ x.At base off n

/-- The frame of the fields of an object: slots of later objects, and those of the object. -/
def ObjectFrame (pos base : Nat) (x : Slot) : Prop := x.Behind pos ∨ x.base = base

variable {b : Builder} {ob : ObjectBuilder} {off p lim lim' : Nat} {t : Tree} {H K : Heap}

theorem makes_field_then {f : Field} {rest : Fields} {p q : Build Unit} (hbase : ob.startPos < b.pos)
    (hclear : rest.Clear off f.width) (hroom : rest.Room H ob.startPos)
    (hp : Makes b H p (FieldFrame b.pos ob.startPos off f.width) fun _ _ H' =>
      f.Holds H' ob.startPos off) (hq : ∀ b' H', Assembles H' b' → H.Le H' → rest.Room H' ob.startPos →
      Makes b' H' q (ObjectFrame b'.pos ob.startPos) fun _ _ H'' => rest.Holds H'' ob.startPos) :
    Makes b H (p >>= fun _ => q) (ObjectFrame b.pos ob.startPos) fun _ _ H' =>
      (Fields.cons off f rest).Holds H' ob.startPos := by
  refine hp.bind (fun x hx => hx.imp id fun h => h.1) ?_
  rintro - b1 H1 hA1 hpos hadds hf
  have hroom1 : rest.Room H1 ob.startPos := by
    refine Fields.Room.adds hadds (fun x hx hx' => ?_) hclear hroom
    rcases hx with hx | hx
    · rw [Slot.Behind, hx'] at hx
      omega
    · exact hx.2
  refine (hq b1 H1 hA1 hadds.1 hroom1).mono ?_ ?_
  · exact fun x hx => hx.imp (fun h => Nat.le_trans hpos h) id
  · exact fun _ _ H2 hle hr => ⟨Field.Holds.mono hle f hf, hr⟩

/-! ## The parent-first writer leaves the tree -/

theorem pos_ne_zero (b : Builder) (h : b.pos ≤ p) : p ≠ 0 := by
  have h16 : headerSize = 16 := rfl
  have := b.past_header
  omega

section Leaf

variable {b : Builder} {H : Heap} {ob : ObjectBuilder} {off : Nat} (hA : Assembles H b)

include hA

variable {w : Width} {bs : List UInt8}

theorem makes_scalar {v : Nat} (hfree : H.Free ob.startPos off w.bytes) :
    Makes b H (call (.setUint w ob off v)) (FieldFrame b.pos ob.startPos off w.bytes) fun _ _ H' =>
      (Field.scalar w v).Holds H' ob.startPos off :=
  (makes_setUint hA hfree).mono (fun _ hx => .inr hx) fun _ _ _ _ h => h.2

theorem makes_fixed (hbs : bs ≠ []) (hfree : H.Free ob.startPos off bs.length) :
    Makes b H (call (.setBytesFixed ob off bs)) (FieldFrame b.pos ob.startPos off bs.length)
      fun _ _ H' => (Field.fixed bs).Holds H' ob.startPos off :=
  (makes_setBytesFixed hA hbs hfree).mono (fun _ hx => .inr hx) fun _ _ _ _ h => h.2

theorem makes_bytes (hfree : H.Free ob.startPos off 8) :
    Makes b H (call (.setBytes ob off bs)) (FieldFrame b.pos ob.startPos off 8)
      fun _ _ H' => (Field.bytes bs).Holds H' ob.startPos off :=
  (makes_setBytes hA hfree).mono (fun _ hx => .inr hx) fun _ _ _ _ h => h

theorem makes_object (hne : p ≠ ob.startPos + off) (ht : t.Holds H p) (hfree : H.Free ob.startPos off 4) :
    Makes b H (call (.setObject ob off p)) (FieldFrame b.pos ob.startPos off 4)
      fun _ _ H' => (Field.object t).Holds H' ob.startPos off := by
  have hsec := assembles_section hA ht.section
  have h16 : headerSize = 16 := rfl
  exact (makes_setObject hA (by omega) hfree).mono (fun _ hx => .inr hx) fun _ _ _ hle h =>
    ⟨p, hne, h, Tree.Holds.mono hle t ht⟩

theorem makes_scalars {vs : List Nat} (hp : p ≠ 0) (hl : (p, scalarArray w vs) ∈ H.frozen)
    (hfree : H.Free ob.startPos off 8) :
    Makes b H (call (.setList ob off p vs.length)) (FieldFrame b.pos ob.startPos off 8)
      fun _ _ H' => (Field.scalars w vs).Holds H' ob.startPos off := by
  refine (makes_setList hA (.inl hp) hfree).mono (fun _ hx => .inr hx) ?_
  rintro - - H' hle ⟨-, ⟨h0, hs⟩ | ⟨h0, hs⟩⟩
  · exact .inl ⟨List.length_eq_zero_iff.mp h0, hs⟩
  · exact .inr ⟨fun h => h0 (List.length_eq_zero_iff.mpr h), p, hs, hle.2.2 hl⟩

theorem makes_objects {ts : Trees} {ps : List Nat} (hp : p ≠ 0 ∨ ts.length = 0) (ht : ts.Holds H ps)
    (hl : ts.length ≠ 0 → (p, pointerArray p ps) ∈ H.frozen) (hfree : H.Free ob.startPos off 8) :
    Makes b H (call (.setList ob off p ts.length)) (FieldFrame b.pos ob.startPos off 8)
      fun _ _ H' => (Field.objects ts).Holds H' ob.startPos off := by
  refine (makes_setList hA hp hfree).mono (fun _ hx => .inr hx) ?_
  rintro - - H' hle ⟨-, ⟨h0, hs⟩ | ⟨h0, hs⟩⟩
  · exact .inl ⟨h0, hs⟩
  · exact .inr ⟨h0, p, ps, hs, hle.2.2 (hl h0), Trees.Holds.mono hle ts ht⟩

theorem positions_ne_zero : ∀ {ts : Trees} {ps : List Nat}, ts.Holds H ps → ∀ p ∈ ps, p ≠ 0
  | .nil, _, rfl => nofun
  | .cons _ _, _, ⟨q, qs, hps, ht, hr⟩ => by
      have hsec := assembles_section hA ht.section
      have h16 : headerSize = 16 := rfl
      intro p hp
      rw [hps] at hp
      rcases List.mem_cons.mp hp with rfl | hp
      · omega
      · exact positions_ne_zero hr p hp

end Leaf

mutual

/-- **The parent-first writer leaves the tree in the record.** -/
theorem Tree.write_makes : ∀ (t : Tree), t.WF → ∀ {b b1 : Builder} {H H1 : Heap} {ob : ObjectBuilder},
    Started b H t.size ob b1 H1 →
    Makes b1 H1 (t.write ob) (ObjectFrame b1.pos ob.startPos) fun _ _ H' => t.Holds H' ob.startPos
  | .node _ fields, ⟨_, hwf⟩, _, _, _, _, _, hst => by
      have h := Fields.write_makes fields hwf hst.assembles hst.reserved
        (Fields.room_of_free hst.free hwf)
      exact h.mono (fun _ hx => hx) fun _ _ _ hle hf => ⟨hle.1 hst.reserved, hf⟩

theorem Fields.write_makes {size : Nat} : ∀ (fs : Fields), fs.WF size →
    ∀ {b : Builder} {H : Heap} {ob : ObjectBuilder}, Assembles H b →
    (ob.startPos, size) ∈ H.sections → fs.Room H ob.startPos →
    Makes b H (fs.write size ob) (ObjectFrame b.pos ob.startPos) fun _ _ H' => fs.Holds H' ob.startPos
  | .nil, _, _, _, _, hA, _, _ => makes_pure hA trivial
  | .cons off f rest, ⟨hf, _, hclear, hrest⟩, b, H, ob, hA, hsec, ⟨hfree, hroom⟩ => by
      have hin := assembles_section hA hsec
      refine makes_field_then (by omega) hclear hroom (Field.write_makes f hf hA hsec hfree) ?_
      intro b' H' hA' hle hroom'
      exact Fields.write_makes rest hrest hA' (hle.1 hsec) hroom'

theorem Field.write_makes {size : Nat} : ∀ (f : Field), f.WF →
    ∀ {b : Builder} {H : Heap} {ob : ObjectBuilder} {off : Nat}, Assembles H b →
    (ob.startPos, size) ∈ H.sections → H.Free ob.startPos off f.width →
    Makes b H (f.write size ob off) (FieldFrame b.pos ob.startPos off f.width) fun _ _ H' =>
      f.Holds H' ob.startPos off
  | .scalar _ _, _, _, _, _, _, hA, _, hfree => makes_scalar hA hfree
  | .fixed _, hwf, _, _, _, _, hA, _, hfree => makes_fixed hA hwf hfree
  | .bytes _, _, _, _, _, _, hA, _, hfree => makes_bytes hA hfree
  | .object t, hwf, b, H, ob, off, hA, hsec, hfree => by
      refine makes_reserved hA hsec ?_
      have hin := free_inside (assembles_rep hA) hfree
      simp only [Field.width] at hin
      have hchild := makes_buildObject hA hwf.size_pos fun _ _ _ hst => Tree.write_makes t hwf hst
      refine hchild.bind (fun _ hx => .inl hx) ?_
      rintro nob b1 H1 hA1 hpos hadds ⟨hge, ht⟩
      refine (makes_object hA1 (by omega) ht (free_behind hA hfree hadds)).mono ?_ fun _ _ _ _ h => h
      exact fun x hx => hx.imp (fun h => Nat.le_trans hpos h) id
  | .scalars w vs, hwf, b, H, ob, off, hA, hsec, hfree => by
      refine (makes_scalarList hA w vs fun _ => False).bind nofun ?_
      rintro x b1 H1 hA1 hpos hadds ⟨hlen, hge, hl⟩
      rw [hlen]
      refine (makes_scalars hA1 (pos_ne_zero b hge) hl (hfree.adds hadds nofun)).mono ?_ fun _ _ _ _ h => h
      exact fun x hx => hx.imp (fun h => Nat.le_trans hpos h) id
  | .objects ts, hwf, b, H, ob, off, hA, hsec, hfree => by
      refine makes_reserved hA hsec ?_
      refine (Trees.append_makes ts hwf [] hA).bind (fun _ hx => .inl hx) ?_
      rintro ps b1 H1 hA1 hpos hadds ⟨qs, hps, ht⟩
      obtain rfl : ps = qs := hps
      have hcount := Trees.Holds.length ts ht
      have hfree1 := free_behind hA hfree hadds
      have hframe : ∀ {b' : Builder}, b.pos ≤ b'.pos → ∀ x,
          FieldFrame b'.pos ob.startPos off 8 x → FieldFrame b.pos ob.startPos off 8 x :=
        fun hle x hx => hx.imp (fun h => Nat.le_trans hle h) id
      rw [hcount]
      by_cases h0 : ts.length = 0
      · have hset := makes_objects hA1 (p := 0) (.inr h0) ht (absurd h0) hfree1
        rw [h0] at hset
        rw [if_pos h0]
        exact hset.mono (hframe hpos) fun _ _ _ _ h => h
      · rw [if_neg h0]
        refine (makes_pointerList hA1 (positions_ne_zero hA1 ht) fun _ => False).bind nofun ?_
        rintro l b2 H2 hA2 hpos2 hadds2 ⟨hlen, hge, hl⟩
        rw [hlen, hcount]
        refine (makes_objects hA2 (.inl (pos_ne_zero b1 hge)) (Trees.Holds.mono hadds2.1 ts ht) (fun _ => hl)
          (hfree1.adds hadds2 nofun)).mono (hframe (by omega)) fun _ _ _ _ h => h

theorem Trees.append_makes : ∀ (ts : Trees), ts.WF → ∀ (ps : List Nat) {b : Builder} {H : Heap}, Assembles H b →
    Makes b H (ts.append ps) (Slot.Behind b.pos) fun r _ H' => ∃ qs, r = ps ++ qs ∧ ts.Holds H' qs
  | .nil, _, _, _, _, hA => makes_pure hA ⟨[], (List.append_nil _).symm, rfl⟩
  | .cons t rest, ⟨hwf, hrest⟩, ps, b, H, hA => by
      have hchild := makes_buildObject hA hwf.size_pos fun _ _ _ hst => Tree.write_makes t hwf hst
      have happend : Makes b H (NestedElemSetter.append t.size t.write ps) (Slot.Behind b.pos)
          fun r _ H' => ∃ p, r = ps ++ [p] ∧ t.Holds H' p := by
        refine hchild.bind (fun _ hx => hx) ?_
        rintro nob b1 H1 hA1 - - ⟨-, ht⟩
        exact makes_pure hA1 ⟨_, rfl, ht⟩
      refine happend.bind (fun _ hx => hx) ?_
      rintro - b1 H1 hA1 hpos - ⟨p, rfl, ht⟩
      refine (Trees.append_makes rest hrest (ps ++ [p]) hA1).mono (fun x hx => Nat.le_trans hpos hx) ?_
      rintro r - H2 hle ⟨qs, hr, hts⟩
      exact ⟨p :: qs, by rw [hr, List.append_assoc, List.singleton_append], p, qs, rfl,
        Tree.Holds.mono hle t ht, hts⟩

end

/-! ## Where the writer leaves the cursor -/

theorem run_call_bind {α : Type} {r : BuildReq} {k : r.Resp → Build α} {b b1 : Builder} {x : r.Resp}
    (h : b.answer r = .ok (x, b1)) : Builder.run (call r >>= k) b = Builder.run (k x) b1 := by
  have hcall : Builder.run (call r) b = b.answer r := Builder.run_request r b
  rw [Builder.run_bind, hcall, h, go_bind_ok]

/-- Scalars, inline arrays and byte strings only. -/
def Fields.Plain : Fields → Prop
  | .nil => True
  | .cons _ (.scalar _ _) rest => rest.Plain
  | .cons _ (.fixed _) rest => rest.Plain
  | .cons _ (.bytes _) rest => rest.Plain
  | .cons _ _ _ => False

def Fields.tail : Fields → Nat
  | .nil => 0
  | .cons _ (.bytes bs) rest => bs.length + rest.tail
  | .cons _ _ rest => rest.tail

theorem setBytes_pos (bs : List UInt8) (h : ob.startPos + off + 8 ≤ b.pos) :
    ∃ b', b.setBytes ob off bs = .ok b' ∧ b'.pos = b.pos + bs.length := by
  by_cases hbs : bs = []
  · subst hbs
    obtain ⟨b', hb, hw⟩ := setBytes_nil_spec h
    exact ⟨b', hb, written_overwrite_pos hw (by rw [nullPair_length]; omega)⟩
  obtain ⟨b', hb, hw⟩ := setBytes_spec hbs h
  have := congrArg List.length hw
  rw [overwrite_length (by rw [List.length_append, Builder.written_length, pairWord_length]; omega),
    List.length_append, Builder.written_length, Builder.written_length] at this
  exact ⟨b', hb, this⟩

/-- Setters of plain fields inside the section move the cursor by the byte strings alone. -/
theorem plain_write_pos {size : Nat} : ∀ {fs : Fields}, fs.Plain → fs.WF size →
    ∀ {b b' : Builder} {x : Unit}, ob.startPos + size ≤ b.pos →
    Builder.run (fs.write size ob) b = .ok (x, b') → b'.pos = b.pos + fs.tail
  | .nil, _, _, _, _, _, _, hrun => by
      obtain ⟨-, rfl⟩ := Prod.mk.inj (Except.ok.inj hrun)
      rfl
  | .cons off (.scalar w v) rest, hplain, ⟨_, hoff, _, hwf⟩, b, b', x, hpos, hrun => by
      simp only [Field.width] at hoff
      obtain ⟨b1, hb1, hw⟩ := setUint_spec (w := w) v (show ob.startPos + off + w.bytes ≤ b.pos by omega)
      have hpos1 := written_overwrite_pos hw (by rw [le_length]; omega)
      have hans : b.answer (.setUint w ob off v) = .ok ((), b1) := by
        simp only [Builder.answer, hb1, go_bind_ok, go_pure]
      have hplain : rest.Plain := hplain
      rw [plain_write_pos hplain hwf (by omega) ((run_call_bind hans).symm.trans hrun), hpos1]
      rfl
  | .cons off (.fixed bs) rest, hplain, ⟨hbs, hoff, _, hwf⟩, b, b', x, hpos, hrun => by
      simp only [Field.width] at hoff
      obtain ⟨b1, hb1, hw⟩ := setBytesFixed_spec hbs (show ob.startPos + off + bs.length ≤ b.pos by omega)
      have hpos1 := written_overwrite_pos hw (by omega)
      have hans : b.answer (.setBytesFixed ob off bs) = .ok ((), b1) := by
        simp only [Builder.answer, hb1, go_bind_ok, go_pure]
      have hplain : rest.Plain := hplain
      rw [plain_write_pos hplain hwf (by omega) ((run_call_bind hans).symm.trans hrun), hpos1]
      rfl
  | .cons off (.bytes bs) rest, hplain, ⟨_, hoff, _, hwf⟩, b, b', x, hpos, hrun => by
      simp only [Field.width] at hoff
      obtain ⟨b1, hb1, hpos1⟩ := setBytes_pos bs (show ob.startPos + off + 8 ≤ b.pos by omega)
      have hans : b.answer (.setBytes ob off bs) = .ok ((), b1) := by
        simp only [Builder.answer, hb1, go_bind_ok, go_pure]
      have hplain : rest.Plain := hplain
      rw [plain_write_pos hplain hwf (by omega) ((run_call_bind hans).symm.trans hrun), hpos1, Fields.tail,
        Nat.add_assoc]

/-! ## The child-first writer leaves the tree -/

/-- What has been prepared for a field: it is in the record, and an object starts before `lim`. -/
def Field.Prepared (H : Heap) (lim : Nat) (f : Field) (x : Nat × Nat) : Prop :=
  match f with
  | .object t => t.Holds H x.1 ∧ x.1 < lim
  | .scalars w vs => x.2 = vs.length ∧ x.1 ≠ 0 ∧ (x.1, scalarArray w vs) ∈ H.frozen
  | .objects ts => x.2 = ts.length ∧ x.1 ≠ 0 ∧ ∃ ps, ts.Holds H ps ∧ (x.1, pointerArray x.1 ps) ∈ H.frozen
  | _ => True

def Fields.Prepared (H : Heap) (lim : Nat) : Fields → List (Nat × Nat) → Prop
  | .nil, _ => True
  | .cons _ _ _, [] => False
  | .cons _ f rest, x :: xs => f.Prepared H lim x ∧ rest.Prepared H lim xs

theorem Field.Prepared.mono (h : H.Le K) (hlim : lim ≤ lim') :
    ∀ {f : Field} {x : Nat × Nat}, f.Prepared H lim x → f.Prepared K lim' x
  | .scalar _ _, _, _ => trivial
  | .fixed _, _, _ => trivial
  | .bytes _, _, _ => trivial
  | .object t, _, ⟨ht, hx⟩ => ⟨Tree.Holds.mono h t ht, Nat.lt_of_lt_of_le hx hlim⟩
  | .scalars _ _, _, ⟨hn, h0, hf⟩ => ⟨hn, h0, h.2.2 hf⟩
  | .objects ts, _, ⟨hn, h0, ps, ht, hf⟩ => ⟨hn, h0, ps, Trees.Holds.mono h ts ht, h.2.2 hf⟩

theorem Fields.Prepared.mono (h : H.Le K) (hlim : lim ≤ lim') :
    ∀ {fs : Fields} {xs : List (Nat × Nat)}, fs.Prepared H lim xs → fs.Prepared K lim' xs
  | .nil, _, _ => trivial
  | .cons _ _ _, _ :: _, ⟨hf, hr⟩ => ⟨hf.mono h hlim, hr.mono h hlim⟩

theorem Field.set_makes : ∀ (f : Field), f.WF → ∀ {b : Builder} {H : Heap} {ob : ObjectBuilder}
    {off : Nat} {x : Nat × Nat}, Assembles H b → f.Prepared H ob.startPos x →
    H.Free ob.startPos off f.width →
    Makes b H (f.set ob off x) (FieldFrame b.pos ob.startPos off f.width) fun _ _ H' =>
      f.Holds H' ob.startPos off
  | .scalar _ _, _, _, _, _, _, _, hA, _, hfree => makes_scalar hA hfree
  | .fixed _, hwf, _, _, _, _, _, hA, _, hfree => makes_fixed hA hwf hfree
  | .bytes _, _, _, _, _, _, _, hA, _, hfree => makes_bytes hA hfree
  | .object _, _, _, _, _, _, _, hA, ⟨ht, hlt⟩, hfree => makes_object hA (by omega) ht hfree
  | .scalars _ _, _, _, _, _, _, (_, _), hA, ⟨rfl, h0, hl⟩, hfree => makes_scalars hA h0 hl hfree
  | .objects _, _, _, _, _, _, (_, _), hA, ⟨rfl, h0, _, ht, hl⟩, hfree =>
    makes_objects hA (.inl h0) ht (fun _ => hl) hfree

theorem Fields.set_makes {size : Nat} : ∀ (fs : Fields), fs.WF size →
    ∀ {b : Builder} {H : Heap} {ob : ObjectBuilder} {xs : List (Nat × Nat)}, Assembles H b →
    (ob.startPos, size) ∈ H.sections → fs.Prepared H ob.startPos xs → fs.Room H ob.startPos →
    Makes b H (fs.set ob xs) (ObjectFrame b.pos ob.startPos) fun _ _ H' => fs.Holds H' ob.startPos
  | .nil, _, _, _, _, _, hA, _, _, _ => makes_pure hA trivial
  | .cons _ f rest, ⟨hf, _, hclear, hrest⟩, _, _, _, _ :: _, hA, hsec, ⟨hx, hxs⟩, ⟨hfree, hroom⟩ => by
      have hin := assembles_section hA hsec
      refine makes_field_then (by omega) hclear hroom (Field.set_makes f hf hA hx hfree) ?_
      intro b' H' hA' hle hroom'
      exact Fields.set_makes rest hrest hA' (hle.1 hsec) (hxs.mono hle (Nat.le_refl _)) hroom'

mutual

/-- **The child-first writer leaves the tree in the record.** -/
theorem Tree.build_makes : ∀ (t : Tree), t.WF → ∀ {b : Builder} {H : Heap}, Assembles H b →
    Makes b H t.build (Slot.Behind b.pos) fun ob _ H' => t.Holds H' ob.startPos
  | .node size fields, ⟨hsize, hwf⟩, b, H, hA => by
      refine (Fields.prepare_makes fields hwf hA).bind (fun _ hx => hx) ?_
      rintro xs b1 H1 hA1 hpos - hprep
      -- everything prepared lies before the cursor, and so before the object that is started now
      have hobject := makes_buildObject hA1 hsize fun ob b2 H2 hst =>
        Fields.set_makes fields hwf hst.assembles hst.reserved
          (hprep.mono hst.le (by have := hst.start; omega)) (Fields.room_of_free hst.free hwf)
          |>.mono (fun _ hx => hx) fun _ _ H3 hle hf =>
            (⟨hle.1 hst.reserved, hf⟩ : (Tree.node size fields).Holds H3 ob.startPos)
      exact hobject.mono (fun x hx => Nat.le_trans hpos hx) fun _ _ _ _ h => h.2

theorem Fields.prepare_makes {size : Nat} : ∀ (fs : Fields), fs.WF size →
    ∀ {b : Builder} {H : Heap}, Assembles H b →
    Makes b H fs.prepare (Slot.Behind b.pos) fun xs b' H' => fs.Prepared H' b'.pos xs
  | .nil, _, _, _, hA => makes_pure hA trivial
  | .cons _ f rest, ⟨hf, _, _, hrest⟩, b, H, hA => by
      refine (Field.prepare_makes f hf hA).bind (fun _ hx => hx) ?_
      rintro x b1 H1 hA1 hpos - hx
      refine (Fields.prepare_makes rest hrest hA1).bind (fun x hx => Nat.le_trans hpos hx) ?_
      rintro xs b2 H2 hA2 hpos2 hadds hxs
      exact makes_pure hA2 ⟨hx.mono hadds.1 hpos2, hxs⟩

theorem Field.prepare_makes : ∀ (f : Field), f.WF → ∀ {b : Builder} {H : Heap}, Assembles H b →
    Makes b H f.prepare (Slot.Behind b.pos) fun x b' H' => f.Prepared H' b'.pos x
  | .scalar _ _, _, _, _, hA => makes_pure hA trivial
  | .fixed _, _, _, _, hA => makes_pure hA trivial
  | .bytes _, _, _, _, hA => makes_pure hA trivial
  | .object t, hwf, b, H, hA => by
      refine (Tree.build_makes t hwf hA).bind (fun _ hx => hx) ?_
      rintro ob b1 H1 hA1 - - ht
      have hsec := assembles_section hA1 ht.section
      exact makes_pure hA1 ⟨ht, by omega⟩
  | .scalars w vs, _, b, _, hA =>
    (makes_scalarList hA w vs _).mono (fun _ hx => hx) fun _ _ _ _ ⟨hlen, hge, hl⟩ =>
      ⟨hlen, pos_ne_zero b hge, hl⟩
  | .objects ts, hwf, b, H, hA => by
      refine (Trees.build_makes ts hwf hA).bind (fun _ hx => hx) ?_
      rintro ps b1 H1 hA1 - - ht
      refine (makes_pointerList hA1 (positions_ne_zero hA1 ht) _).mono (fun _ hx => hx) ?_
      rintro x - H2 hle ⟨hlen, hge, hl⟩
      exact ⟨by rw [hlen, Trees.Holds.length ts ht], pos_ne_zero b1 hge, ps, Trees.Holds.mono hle ts ht, hl⟩

theorem Trees.build_makes : ∀ (ts : Trees), ts.WF → ∀ {b : Builder} {H : Heap}, Assembles H b →
    Makes b H ts.build (Slot.Behind b.pos) fun ps _ H' => ts.Holds H' ps
  | .nil, _, _, _, hA => makes_pure hA rfl
  | .cons t rest, ⟨hwf, hrest⟩, b, H, hA => by
      refine (Tree.build_makes t hwf hA).bind (fun _ hx => hx) ?_
      rintro ob b1 H1 hA1 hpos - ht
      refine (Trees.build_makes rest hrest hA1).bind (fun x hx => Nat.le_trans hpos hx) ?_
      rintro ps b2 H2 hA2 - hadds hps
      exact makes_pure hA2 ⟨_, ps, rfl, Tree.Holds.mono hadds.1 t ht, hps⟩

end

/-! ## The round trip -/

/-- The first byte of the section is a scalar field of its own: the discriminator of a schema. -/
def Fields.Kinded (k : UInt8) : Fields → Prop
  | .nil => False
  | .cons off f rest => off = 0 ∧ f = .scalar .w8 k.toNat ∨ rest.Kinded k

/-- `Parse` accepts the bytes, the tree is seen at the root, and `Wrap` opens the root as a view if it begins
with a kind byte. -/
def Tree.ReadsBack (t : Tree) (bytes : List UInt8) : Prop :=
  ∃ m, parse bytes = .ok m ∧ t.Reads m m.rootOffset ∧
    ∀ k name, t.fields.Kinded k → wrap ⟨k, t.size, name⟩ bytes = .ok (.ok (m.viewAt t.size m.rootOffset))

theorem kind_byte {m : Message} {a : Nat} {k : UInt8} (hrep : Rep H headerSize m.data) :
    ∀ {fs : Fields}, fs.Kinded k → fs.Holds H a → m.data[a]? = some k
  | .cons _ _ rest, .inl ⟨h0, hf⟩, ⟨hs, _⟩ => by
      subst h0 hf
      obtain ⟨-, hend, hw⟩ := slot_read hrep hs
      have hle : le Width.w8.bytes k.toNat = [k] := by
        simp [le, be, Width.bytes]
      rw [hle] at hend hw
      have := congrArg (fun l => l[0]?) hw
      simpa [window, List.getElem?_take] using this
  | .cons _ _ rest, .inr h, ⟨_, hr⟩ => kind_byte hrep h hr

theorem Tree.Holds.fields : ∀ {t : Tree} {a : Nat}, t.Holds H a → t.fields.Holds H a
  | .node _ _, _, h => h.2

/-- Whatever the order of the calls: if the record of an assembly holds the tree at the root, the finished
bytes read back as the tree. -/
theorem readsBack_of_holds (hwf : t.WF) (hA : Assembles H b) (ht : t.Holds H b.rootOffset) (hsize : b.pos < 2 ^ 31) :
    t.ReadsBack b.finish.1 := by
  obtain ⟨m, hparse, hlen, hroot, hrep⟩ := assembles_parses hA (by omega)
  have hsec := assembles_section hA ht.section
  rw [Nat.mod_eq_of_lt (by omega)] at hroot
  refine ⟨m, hparse, ?_, fun k name hk => ?_⟩
  · rw [hroot]
    exact t.reads_of_holds hrep (by omega) hwf ht
  · have hbyte := kind_byte hrep hk ht.fields
    rw [wrap_ok_iff (by simp only; omega)]
    exact ⟨m, hparse, by omega, by rw [hroot]; exact hbyte, by simp only; omega, rfl⟩

theorem makes_root {p : Build ObjectBuilder} {P : Slot → Prop}
    {Q : ObjectBuilder → Builder → Heap → Prop} (h : Makes b H p P Q) :
    ∃ ob b' H', Builder.run (p >>= fun ob => call (.finishAsRoot ob) >>= fun _ => pure ob) b =
      .ok (ob, b'.finishAsRoot ob) ∧ Assembles H' (b'.finishAsRoot ob) ∧ Q ob b' H' := by
  obtain ⟨ob, b', H', hrun, hA, -, -, hQ⟩ := h
  refine ⟨ob, b', H', ?_, hA.finishAsRoot ob, hQ⟩
  rw [Builder.run_bind, hrun, go_bind_ok]
  rfl

theorem Tree.parentFirst_makes (hwf : t.WF) (hA : Assembles H b) :
    Makes b H (buildObject t.size t.write) (Slot.Behind b.pos) fun ob _ H' => t.Holds H' ob.startPos :=
  (makes_buildObject hA hwf.size_pos fun _ _ _ hst => Tree.write_makes t hwf hst).mono
    (fun _ hx => hx) fun _ _ _ _ h => h.2

/-- **Builder and reader are inverse on trees.**  Any order of calls that never sets a slot twice will do, as
long as its record holds the tree; the child-first and the parent-first writer return on every
well-formed tree and are two such orders. The bound on the size is the one the signed 32-bit pointers and
offsets need. -/
theorem tree_round_trip (t : Tree) (hwf : t.WF) :
    (∀ H b, Assembles H b → t.Holds H b.rootOffset → b.pos < 2 ^ 31 → t.ReadsBack b.finish.1) ∧
    ∀ capacity version, version = version1 ∨ version = version2 →
      (∃ ob b, Builder.run t.childFirst (newBuilder capacity version) = .ok (ob, b) ∧
        (b.pos < 2 ^ 31 → t.ReadsBack b.finish.1)) ∧
      (∃ ob b, Builder.run t.parentFirst (newBuilder capacity version) = .ok (ob, b) ∧
        (b.pos < 2 ^ 31 → t.ReadsBack b.finish.1)) := by
  refine ⟨fun H b hA ht hsize => readsBack_of_holds hwf hA ht hsize, fun capacity version hv => ?_⟩
  have hnew : Assembles .empty (newBuilder capacity version) := .new capacity hv
  constructor
  · obtain ⟨ob, b, H, hrun, hA, ht⟩ := makes_root (t.build_makes hwf hnew)
    exact ⟨ob, _, hrun, fun hsize => readsBack_of_holds hwf hA ht hsize⟩
  · obtain ⟨ob, b, H, hrun, hA, ht⟩ := makes_root (t.parentFirst_makes hwf hnew)
    exact ⟨ob, _, hrun, fun hsize => readsBack_of_holds hwf hA ht hsize⟩

/-- An object of 25 bytes with a kind byte, a byte string, an object and a list of two objects. -/
def sampleTree : Tree :=
  .node 25 <| .cons 0 (.scalar .w8 3) <| .cons 13 (.bytes [1, 2]) <|
    .cons 1 (.object (.node 8 (.cons 0 (.scalars .w32 [5, 6]) .nil))) <|
    .cons 5 (.objects (.cons (.node 1 (.cons 0 (.fixed [9]) .nil)) (.cons (.node 2 .nil) .nil))) .nil

theorem sampleTree_wf : sampleTree.WF := by
  simp [sampleTree, Tree.WF, Fields.WF, Field.WF, Trees.WF, Fields.Clear, Field.width, Apart, Width.bytes]

theorem sampleTree_size :
    (Builder.run sampleTree.parentFirst (newBuilder 16 version2)).map (fun x => x.2.pos) = .ok 88 := by
  decide +kernel

theorem sampleTree_round_trip : sampleTree.WF ∧
    ∃ ob b, Builder.run sampleTree.parentFirst (newBuilder 16 version2) = .ok (ob, b) ∧
      sampleTree.ReadsBack b.finish.1 := by
  obtain ⟨ob, b, hrun, hread⟩ := ((tree_round_trip sampleTree sampleTree_wf).2 16 version2 (.inr rfl)).2
  have hpos : b.pos = 88 := by
    have := sampleTree_size
    rw [hrun] at this
    exact Except.ok.inj this
  exact ⟨sampleTree_wf, ob, b, hrun, hread (by omega)⟩

end Zap.Wire
