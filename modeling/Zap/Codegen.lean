/-
# Zap.Codegen — what `Emit` accepts, and what the functions it emits do.

`Emit` checks a schema description and writes a Go file for it. The file itself is text; what is modelled is the
check, and the meaning of the two kinds of functions a reader of messages calls: the `Wrap` function and the
accessor of each field. They read the description where the emitted text has constants.

The emitted `Wrap` is not the `Wrap` of the library. It never refuses a short root: the end of the payload is
cut to the end of the message, and `RawFromSlices` slices the payload out without a check. For a top-level
schema the kind byte stands between a root past the end and that slice, since `Object.Uint8` reads a zero there;
a schema of kind zero, or a list element, has nothing between them.
-/
import Zap.Wire.Chain
import Zap.Wire.Wrapping

namespace Zap.Codegen

open Zap.Lib Zap.Wire

/-! ## The description of a schema -/

/-- `Field`. `elem` is the marker of the element schema with the element's fields, `nested` the marker of the
nested schema. -/
structure Field where
  name : String
  type : String
  offset : UInt32
  elem : Option (Wire.Schema × List Field)
  nested : Option Wire.Schema

/-- `Schema`, without the names that only appear in the emitted text. -/
structure Schema where
  wireName : String
  kind : UInt8
  size : Nat
  fields : List Field
  element : Bool

def Schema.marker (s : Schema) : Wire.Schema := ⟨s.kind, s.size, s.wireName⟩

/-- The keys of `typeToSize`. -/
def scalarType : String → Option FieldKind
  | "bool" => some .bool
  | "int8" => some .int8
  | "uint8" => some .uint8
  | "int16" => some .int16
  | "uint16" => some .uint16
  | "int32" => some .int32
  | "uint32" => some .uint32
  | "float32" => some .float32
  | "int64" => some .int64
  | "uint64" => some .uint64
  | "float64" => some .float64
  | _ => none

/-- The loop of `IsBytes` over the digits; the sum is an `int`. -/
def digits : List Char → Int → Option Int
  | [], n => some n
  | c :: rest, n =>
    if c < '0' ∨ c > '9' then none else digits rest (int64 (n * 10 + (c.toNat - '0'.toNat)))

namespace Field

def isBytes (f : Field) : Option Nat :=
  let chars := f.type.toList
  if chars.length ≤ 5 ∨ chars.take 5 ≠ "bytes".toList then none
  else
    match digits (chars.drop 5) 0 with
    | none => none
    | some n => if n ≤ 0 then none else some n.toNat

def isVarString (f : Field) : Bool := f.type == "string"

def isVarBytes (f : Field) : Bool := f.type == "bytes"

def isVariable (f : Field) : Bool := f.isVarString || f.isVarBytes

end Field

def elemIsTailed (fields : List Field) : Bool := fields.any fun f => f.isVariable || f.elem.isSome || f.nested.isSome

inductive Form
  | list (e : Wire.Schema) (tailed : Bool)
  | nested (n : Wire.Schema)
  | fixed (n : Nat)
  | text
  | bytes
  | scalar (k : FieldKind)

/-- The cases of `fieldByteSize` and of the sorting in `Emit`: a list and a nested object ignore the type. -/
def Field.form (f : Field) : Option Form :=
  match f.elem, f.nested, f.isBytes with
  | some (e, fields), _, _ => some (.list e (elemIsTailed fields))
  | none, some n, _ => some (.nested n)
  | none, none, some n => some (.fixed n)
  | none, none, none =>
    if f.isVarString then some .text
    else if f.isVarBytes then some .bytes
    else (scalarType f.type).map .scalar

def Form.width : Form → Nat
  | .list .. | .text | .bytes => 8
  | .nested _ => 4
  | .fixed n => n
  | .scalar k => k.width

def fieldByteSize (f : Field) : Option Nat := f.form.map Form.width

/-! ## The check -/

inductive EmitError
  | unsupportedType (field type : String)
  | pastSize (field : String) (offset : UInt32) (width size : Nat)
  | overlaps (field : String) (position : Int) (owner : String)

/-- The first loop: the types, and the end of every field. -/
def checkEnds (size : Nat) : List Field → Except EmitError Unit
  | [] => .ok ()
  | f :: rest =>
    match fieldByteSize f with
    | none => .error (.unsupportedType f.name f.type)
    | some n =>
      if int64 (f.offset.toNat + n) > size then .error (.pastSize f.name f.offset n size)
      else checkEnds size rest

/-- The inner loop over the bytes of a field: `n` bytes from the `i`-th on. -/
def claimBytes (f : Field) : (n i : Nat) → List String → Go (Except EmitError (List String))
  | 0, _, owner => .ok (.ok owner)
  | n + 1, i, owner =>
    let p := int64 (f.offset.toNat + i)
    if 0 ≤ p then
      match owner[p.toNat]? with
      | none => .error .outOfRange
      | some name =>
        if name ≠ "" then .ok (.error (.overlaps f.name p name))
        else claimBytes f n (i + 1) (owner.set p.toNat f.name)
    else .error .outOfRange

/-- The second loop: every byte belongs to one field. -/
def claimFields : List Field → List String → Go (Except EmitError Unit)
  | [], _ => .ok (.ok ())
  | f :: rest, owner => do
    match ← claimBytes f ((fieldByteSize f).getD 0) 0 owner with
    | .error e => return .error e
    | .ok owner => claimFields rest owner

/-- The longest slice of strings `make` allocates: an allocation has at most `2 ^ 48` bytes, a string sixteen. -/
def maxStrings : Nat := 2 ^ 44

/-- The owners before the second loop: the kind byte is taken, unless the schema is an element. -/
def Schema.owners (s : Schema) : List String :=
  if s.element then List.replicate s.size "" else (List.replicate s.size "").set 0 "<kind>"

/-- `Emit`, as far as it can fail. -/
def emit (s : Schema) : Go (Except EmitError Unit) :=
  match checkEnds s.size s.fields with
  | .error e => .ok (.error e)
  | .ok () =>
    if 0 < s.size then
      if s.size ≤ maxStrings then claimFields s.fields s.owners else .error .outOfRange
    else .ok (.ok ())

/-! ## The emitted functions -/

def wrapFunction (s : Schema) (b : List UInt8) : Go (Except ViewError View) :=
  match parse b with
  | .error e => .ok (.error (.wire e))
  | .ok m => do
    let root := m.root
    if !s.element then
      let got ← root.uint8 0
      if got ≠ s.kind.toNat then
        return .error (.schema s.kind (UInt8.ofNat got) s.wireName)
    let rootOff := root.offset
    let stop := int64 (rootOff + s.size)
    let stop := if stop > m.data.length then (m.data.length : Int) else stop
    return .ok (← rawFromSlices m rootOff stop)

inductive Access
  | list (l : TypedList)
  | nested (v : View)
  | fixed (bytes : List UInt8)
  | tail (s : Option Span)
  | scalar (x : Scalar)

/-- `copy(out[:], slice)` into an array of `n` zeros, if the slice has its length. -/
def arrayOf (n : Nat) : Option Span → List UInt8
  | some s => if s.bytes.length = n then s.bytes else List.replicate n 0
  | none => List.replicate n 0

def Form.access (c : Form) (offset : Nat) (v : View) : Go Access :=
  match c with
  | .list _ true => do return .list (← listNestedAt v offset)
  | .list e false => do return .list (← listAt v e offset)
  | .nested n => do return .nested (← v.nestedAt n offset)
  | .fixed n => do return .fixed (arrayOf n (← v.asObject.bytesFixedSlice offset n))
  | .text => do return .tail (← v.asObject.text offset)
  | .bytes => do return .tail (← v.asObject.bytes offset)
  | .scalar k => do return .scalar (← v.readField k offset)

/-! ## What the check guarantees -/

section Check

theorem isBytes_pos {f : Field} {n : Nat} (h : f.isBytes = some n) : 0 < n := by
  simp only [Field.isBytes] at h
  split_ifs at h
  split at h
  · cases h
  · split_ifs at h
    cases h
    omega

theorem form_width_pos {f : Field} {c : Form} (h : f.form = some c) : 0 < c.width := by
  cases c with
  | list | nested | text | bytes => simp only [Form.width, Nat.succ_pos]
  | scalar k => exact k.width_bounds.1
  | fixed n =>
    unfold Field.form at h
    split at h
    · cases h
    · cases h
    · rename_i hb
      obtain rfl := Form.fixed.inj (Option.some.inj h)
      exact isBytes_pos hb
    · split_ifs at h
      · cases h
      · cases h
      · obtain ⟨k, -, hk⟩ := Option.map_eq_some_iff.mp h
        cases hk

/-- A field whose bytes were all claimed ends inside the section. No sum wraps: every byte before has been
found inside. -/
theorem claimBytes_ok {f : Field} : ∀ {n i : Nat} {owner owner' : List String},
    owner.length ≤ maxStrings → f.offset.toNat + i < 2 ^ 63 → claimBytes f n i owner = .ok (.ok owner') →
    owner'.length = owner.length ∧ (n ≠ 0 → f.offset.toNat + i + n ≤ owner.length)
  | 0, _, _, _, _, _, h => by
      cases Except.ok.inj h
      exact ⟨rfl, fun h => absurd rfl h⟩
  | n + 1, i, owner, owner', hlen, hpos, h => by
      have hmax : maxStrings = 2 ^ 44 := rfl
      simp (disch := omega) only [claimBytes, int64_add, Int.toNat_natCast] at h
      rw [if_pos (by omega)] at h
      split at h
      · cases h
      rename_i name hname
      obtain ⟨hin, -⟩ := List.getElem?_eq_some_iff.mp hname
      split_ifs at h with hfree
      · cases h
      obtain ⟨hlen', hend⟩ := claimBytes_ok (by rw [List.length_set]; exact hlen) (by omega) h
      rw [List.length_set] at hlen' hend
      refine ⟨hlen', fun _ => ?_⟩
      by_cases h0 : n = 0
      · omega
      · have := hend h0
        omega

theorem checkEnds_ok {size : Nat} : ∀ {fields : List Field}, checkEnds size fields = .ok () →
    ∀ f ∈ fields, ∃ c, f.form = some c
  | f :: rest, h, g, hg => by
      rw [checkEnds] at h
      split at h
      · cases h
      rename_i n hn
      split_ifs at h
      rcases List.mem_cons.mp hg with rfl | hg
      · obtain ⟨c, hc, -⟩ := Option.map_eq_some_iff.mp hn
        exact ⟨c, hc⟩
      · exact checkEnds_ok h g hg

theorem claimFields_ok : ∀ {fields : List Field} {owner : List String}, owner.length ≤ maxStrings →
    claimFields fields owner = .ok (.ok ()) →
    ∀ f ∈ fields, ∀ c, f.form = some c → f.offset.toNat + c.width ≤ owner.length
  | f :: rest, owner, hlen, h, g, hg, c, hc => by
      obtain ⟨r, hr, h⟩ := go_bind_eq_ok.mp h
      cases r with
      | error e => cases h
      | ok owner' =>
        have hoff := f.offset.toNat_lt
        obtain ⟨hlen', hend⟩ := claimBytes_ok hlen (by omega) hr
        rcases List.mem_cons.mp hg with rfl | hg
        · rw [fieldByteSize, hc, Option.map_some, Option.getD_some] at hend
          have := hend (form_width_pos hc).ne'
          omega
        · rw [← hlen']
          exact claimFields_ok (by rw [hlen']; exact hlen) h g hg c hc

/-- **Every field of an accepted schema has a form and lies inside the section**, and the section is no larger
than what was allocated for it. -/
theorem emit_ok {s : Schema} (hs : 1 ≤ s.size) (h : emit s = .ok (.ok ())) :
    s.size ≤ maxStrings ∧ ∀ f ∈ s.fields, ∃ c, f.form = some c ∧ f.offset.toNat + c.width ≤ s.size := by
  have hlen : s.owners.length = s.size := by
    unfold Schema.owners
    split_ifs <;> simp
  unfold emit at h
  split at h
  · cases h
  rename_i hends
  rw [if_pos (by omega)] at h
  split_ifs at h with hmax
  refine ⟨hmax, fun f hf => ?_⟩
  obtain ⟨c, hc⟩ := checkEnds_ok hends f hf
  have hend := claimFields_ok (by rw [hlen]; exact hmax) h f hf c hc
  exact ⟨c, hc, hlen ▸ hend⟩

end Check

/-! ## The emitted `Wrap` -/

/-- Nothing stands between a root past the end and the slice: the schema is an element, or its kind is the zero
that is read there. -/
def Schema.Unguarded (s : Schema) : Prop := s.element = true ∨ s.kind = 0

section Wrap

variable {s : Schema} {b : List UInt8} {m : Message}

/-- The view the emitted `Wrap` returns: the payload is cut at the end of the message. -/
def cutView (m : Message) (size : Nat) : View :=
  ⟨some m, ⟨m.rootOffset, window m.data m.rootOffset (min size (m.data.length - m.rootOffset))⟩, int32 m.rootOffset⟩

/-- The last lines: a payload that starts inside the message is sliced out, any other faults. -/
theorem rawFromSlices_cut (hs : s.size ≤ maxStrings) :
    rawFromSlices m m.rootOffset (if int64 (m.rootOffset + s.size) > m.data.length then
      (m.data.length : Int) else int64 (m.rootOffset + s.size)) =
      if m.rootOffset ≤ m.data.length then .ok (cutView m s.size) else .error .outOfRange := by
  have hmax : maxStrings = 2 ^ 44 := rfl
  have hroot := m.rootOffset_lt
  have hstop : (if ((m.rootOffset + s.size : Nat) : Int) > m.data.length then (m.data.length : Int)
      else ((m.rootOffset + s.size : Nat) : Int)) =
      ((min (m.rootOffset + s.size) m.data.length : Nat) : Int) := by
    split_ifs <;> omega
  rw [int64_add (by omega), hstop, rawFromSlices]
  split_ifs with hin
  · rw [slice_eval (by omega) (by omega), go_bind_ok, go_pure, cutView]
    have hcut : min (m.rootOffset + s.size) m.data.length - m.rootOffset =
        min s.size (m.data.length - m.rootOffset) := by omega
    rw [hcut]
  · rw [slice, if_neg (by omega), go_bind_error]

variable (hp : parse b = .ok m) (hs : s.size ≤ maxStrings)

include hp

theorem wrapFunction_refused (he : s.element = false) (hk : m.uintAt 1 m.rootOffset ≠ s.kind.toNat) :
    wrapFunction s b = .ok (.error (.schema s.kind (UInt8.ofNat (m.uintAt 1 m.rootOffset)) s.wireName)) := by
  have hroot := m.rootOffset_lt
  have hgot : m.root.uint8 (0 : Nat) = .ok (m.uintAt 1 (m.rootOffset + 0)) := Object.uint8_eval (by omega)
  rw [Nat.add_zero, Nat.cast_zero] at hgot
  simp only [wrapFunction, hp, he, Bool.not_false, if_true, hgot, go_bind_ok, if_pos hk, go_pure]

include hs

theorem wrapFunction_kind (hk : s.element = true ∨ m.uintAt 1 m.rootOffset = s.kind.toNat) :
    wrapFunction s b =
      if m.rootOffset ≤ m.data.length then .ok (.ok (cutView m s.size)) else .error .outOfRange := by
  have hcut := rawFromSlices_cut (m := m) hs
  have hroot := m.rootOffset_lt
  have hgot : m.root.uint8 (0 : Nat) = .ok (m.uintAt 1 (m.rootOffset + 0)) := Object.uint8_eval (by omega)
  rw [Nat.add_zero, Nat.cast_zero] at hgot
  have htail : (do return .ok (← rawFromSlices m m.rootOffset
      (if int64 (m.rootOffset + s.size) > m.data.length then (m.data.length : Int)
        else int64 (m.rootOffset + s.size))) : Go (Except ViewError View)) =
      if m.rootOffset ≤ m.data.length then .ok (.ok (cutView m s.size)) else .error .outOfRange := by
    rw [hcut]
    split_ifs <;> rfl
  rw [← htail]
  cases he : s.element with
  | true => simp only [wrapFunction, hp, he, Bool.not_true, Bool.false_eq_true, if_false]; rfl
  | false =>
    have hk : m.uintAt 1 m.rootOffset = s.kind.toNat := hk.resolve_left (by rw [he]; decide)
    simp only [wrapFunction, hp, he, Bool.not_false, if_true, hgot, go_bind_ok, hk, ne_eq, not_true, if_false]
    rfl

theorem wrapFunction_view {v : View} (h : wrapFunction s b = .ok (.ok v)) : v = cutView m s.size := by
  by_cases hk : s.element = true ∨ m.uintAt 1 m.rootOffset = s.kind.toNat
  · rw [wrapFunction_kind hp hs hk] at h
    split_ifs at h
    exact (Except.ok.inj (Except.ok.inj h)).symm
  · obtain ⟨he, hne⟩ := not_or.mp hk
    rw [wrapFunction_refused hp (by simpa using he) hne] at h
    cases h

theorem wrapFunction_returns_iff :
    (∃ r, wrapFunction s b = .ok r) ↔ (s.Unguarded → m.rootOffset ≤ m.data.length) := by
  -- past the end the byte under the root is read as zero
  have hpast : ¬m.rootOffset ≤ m.data.length → (m.uintAt 1 m.rootOffset = s.kind.toNat ↔ s.kind = 0) := by
    intro hout
    rw [Message.uintAt_of_gt (by omega), ← UInt8.toNat_inj, UInt8.toNat_zero, eq_comm]
  by_cases hk : s.element = true ∨ m.uintAt 1 m.rootOffset = s.kind.toNat
  · rw [wrapFunction_kind hp hs hk]
    split_ifs with hin
    · exact ⟨fun _ _ => hin, fun _ => ⟨_, rfl⟩⟩
    constructor
    · rintro ⟨r, hr⟩
      cases hr
    · intro h
      exact absurd (h (hk.imp_right (hpast hin).mp)) hin
  · obtain ⟨he, hne⟩ := not_or.mp hk
    have he : s.element = false := by simpa using he
    refine ⟨?_, fun _ => ⟨_, wrapFunction_refused hp he hne⟩⟩
    rintro - (htrue | hzero)
    · rw [he] at htrue
      cases htrue
    · by_contra hin
      exact hne ((hpast hin).mpr hzero)

end Wrap

/-! ## The accessors -/

theorem go_map_returns {α β : Type} {x : Go α} {f : α → β} :
    (∃ y, (x >>= fun a => pure (f a)) = .ok y) ↔ ∃ a, x = .ok a := by
  cases x with
  | error e => simp
  | ok a => simp

/-- The field at a position of the message, which may be before its start, can be read: only a slice that is
longer than the message and what is before it is refused there. -/
def Form.InReach (m : Message) (pos : Int) : Form → Prop
  | .scalar _ => True
  | .fixed n => 0 ≤ pos ∨ m.data.length < pos + n
  | _ => 0 ≤ pos

theorem Form.inReach_of_nonneg {c : Form} {m : Message} {pos : Int} (h : 0 ≤ pos) : c.InReach m pos := by
  cases c with
  | scalar k => trivial
  | fixed n => exact .inl h
  | list | nested | text | bytes => exact h

section Accessors

variable {m : Message} {v : View} {off a : Nat} (hv : v.data = some m)

include hv

/-- At a position inside the address space the accessors look at the message there. -/
theorem asObject_at (hr : v.rootOff + off = a) :
    v.asObject.bytes off = (m.objectAt a).bytes (0 : Nat) ∧
      v.asObject.text off = (m.objectAt a).text (0 : Nat) ∧
      ∀ n : Int, v.asObject.bytesFixedSlice off n = (m.objectAt a).bytesFixedSlice (0 : Nat) n := by
  have hsum : v.asObject.offset + (off : Int) = (m.objectAt a).offset + ((0 : Nat) : Int) := by
    simp only [View.asObject, Message.objectAt, hr, Nat.cast_zero, add_zero]
  have hmsg : v.asObject.msg = (m.objectAt a).msg := hv
  have hbytes : v.asObject.bytes off = (m.objectAt a).bytes (0 : Nat) := by
    rw [Object.bytes, Object.bytes, hsum, hmsg]
  refine ⟨hbytes, by rw [Object.text, Object.text, hbytes], fun n => ?_⟩
  rw [Object.bytesFixedSlice, Object.bytesFixedSlice, hsum, hmsg]

/-- Before its start nothing can be read; the length of a fixed slice may still have it refused. -/
theorem asObject_before (hmin : -2 ^ 31 ≤ v.rootOff) (hneg : v.rootOff + off < 0) :
    v.asObject.bytes off = .error .outOfRange ∧ v.asObject.text off = .error .outOfRange ∧
      ∀ n : Nat, 0 < n → n ≤ maxStrings → v.asObject.bytesFixedSlice off n =
        if m.data.length < v.rootOff + off + n then .ok none else .error .outOfRange := by
  have hh : 16 ≤ m.data.length := m.header
  have hmax : maxStrings = 2 ^ 44 := rfl
  have hmsg : v.asObject.msg = some m := hv
  have hpos : int64 (v.asObject.offset + off) = v.rootOff + off := by
    rw [View.asObject, int64_id] <;> simp only <;> omega
  have hbytes : v.asObject.bytes off = .error .outOfRange := by
    simp only [Object.bytes, hmsg, dataOf, go_bind_ok, hpos]
    rw [int64_id (by omega) (by omega), if_neg (by omega), readLE_outside (.inl hneg), go_bind_error]
  refine ⟨hbytes, by rw [Object.text, hbytes, go_bind_error], fun n hn hn' => ?_⟩
  simp only [Object.bytesFixedSlice, hmsg, dataOf, go_bind_ok, hpos]
  rw [if_neg (by omega), int64_id (by omega) (by omega)]
  split_ifs with hlong
  · rfl
  · rw [slice, if_neg (by omega), go_bind_error]

theorem access_iff {c : Form} (hlen : m.data.length < 2 ^ 32) (hmin : -2 ^ 31 ≤ v.rootOff)
    (hmax : v.rootOff < 2 ^ 31) (hc : 0 < c.width) (hoff : off + c.width ≤ maxStrings)
    (hnested : ∀ n, c = .nested n → n.size ≤ maxStrings) :
    (∃ x, c.access off v = .ok x) ↔ c.InReach m (v.rootOff + off) := by
  have h44 : maxStrings = 2 ^ 44 := rfl
  -- a scalar is read from the payload, wherever the view thinks it is
  by_cases hscalar : ∃ k, c = .scalar k
  · obtain ⟨k, rfl⟩ := hscalar
    refine ⟨fun _ => trivial, fun _ => ?_⟩
    rw [Form.access, go_map_returns, View.readField, go_map_returns]
    exact ⟨_, View.read_eval k.width_bounds.1 k.width_bounds.2 (by omega)⟩
  by_cases hpos : 0 ≤ v.rootOff + off
  · -- at a position in the message, or behind it, every accessor returns
    obtain ⟨a, ha⟩ : ∃ a : Nat, v.rootOff + off = a := ⟨_, (Int.toNat_of_nonneg hpos).symm⟩
    obtain ⟨hbytes, htext, hfixed⟩ := asObject_at hv ha
    have hlist : ∀ stride, ∃ l, listWith v stride off = .ok l := fun stride =>
      ⟨_, listWith_eval hv ha (by omega) (by omega)⟩
    refine iff_of_true ?_ (Form.inReach_of_nonneg hpos)
    cases c with
    | list e tailed => cases tailed <;> exact go_map_returns.mpr (hlist _)
    | nested n =>
      have hn := hnested n rfl
      exact go_map_returns.mpr ⟨_, View.nestedAt_eval hv ha (by omega) (by omega) (by omega)⟩
    | fixed n =>
      simp only [Form.width] at hoff hc
      rw [Form.access, go_map_returns, hfixed]
      exact ⟨_, Object.bytesFixedSlice_eval hc (by omega)⟩
    | text =>
      rw [Form.access, go_map_returns, htext]
      exact ⟨_, Object.text_eval (by omega) (by omega)⟩
    | bytes =>
      rw [Form.access, go_map_returns, hbytes]
      exact ⟨_, Object.bytes_eval (by omega) (by omega)⟩
    | scalar k => exact absurd ⟨k, rfl⟩ hscalar
  · -- before its start they slice at a negative position
    have hneg : v.rootOff + off < 0 := by omega
    obtain ⟨hbytes, htext, hfixed⟩ := asObject_before hv hmin hneg
    obtain ⟨hobject, hstride⟩ := Object.negative (o := v.asObject) hv hmin hneg
    have hlist : ∀ stride, ¬∃ l, listWith v stride off = .ok l := by
      rintro stride ⟨l, hl⟩
      simp only [listWith, hv, hstride, go_bind_error] at hl
      cases hl
    cases c with
    | list e tailed =>
      refine iff_of_false (fun h => ?_) hpos
      cases tailed <;> exact hlist _ (go_map_returns.mp h)
    | nested n =>
      refine iff_of_false (fun h => ?_) hpos
      obtain ⟨x, hx⟩ := go_map_returns.mp h
      simp only [View.nestedAt, hv, hobject, go_bind_error] at hx
      cases hx
    | fixed n =>
      simp only [Form.width] at hoff hc
      rw [Form.access, go_map_returns, hfixed n hc (by omega), Form.InReach]
      split_ifs with hlong
      · exact iff_of_true ⟨_, rfl⟩ (.inr hlong)
      · exact iff_of_false (by rintro ⟨_, ⟨⟩⟩) (not_or.mpr ⟨hpos, hlong⟩)
    | text =>
      refine iff_of_false ?_ hpos
      rw [Form.access, go_map_returns, htext]
      rintro ⟨_, ⟨⟩⟩
    | bytes =>
      refine iff_of_false ?_ hpos
      rw [Form.access, go_map_returns, hbytes]
      rintro ⟨_, ⟨⟩⟩
    | scalar k => exact absurd ⟨k, rfl⟩ hscalar

end Accessors

/-- **When the emitted functions are safe.**  For every schema `Emit` accepts and every byte string the emitted
`Wrap` returns exactly when the root is not past the end of the message, or a kind byte other than zero is asked
for; and on the view it returns the accessor of a field is safe exactly when the field, taken from the `int32` the
view keeps of the root, is not before the start of the message. The nested schemas are emitted too. -/
theorem generated_wrap_safe_iff {s : Schema} (hs : 1 ≤ s.size) (he : emit s = .ok (.ok ()))
    (hnested : ∀ f ∈ s.fields, ∀ n, f.form = some (.nested n) →
      ∃ t : Schema, 1 ≤ t.size ∧ emit t = .ok (.ok ()) ∧ n = t.marker) (b : List UInt8) :
    ((∃ r, wrapFunction s b = .ok r) ↔
      ∀ m, parse b = .ok m → s.Unguarded → m.rootOffset ≤ m.data.length) ∧
    ∀ m v, parse b = .ok m → wrapFunction s b = .ok (.ok v) → ∀ f ∈ s.fields, ∃ c, f.form = some c ∧
      ((∃ x, c.access f.offset.toNat v = .ok x) ↔ c.InReach m (int32 m.rootOffset + f.offset.toNat)) := by
  obtain ⟨hmax, hfields⟩ := emit_ok hs he
  constructor
  · cases hp : parse b with
    | error e =>
      refine ⟨fun _ m hm => ?_, fun _ => ⟨_, by rw [wrapFunction, hp]⟩⟩
      cases hm
    | ok m =>
      rw [wrapFunction_returns_iff hp hmax]
      refine ⟨fun h m' hm => ?_, fun h => h m rfl⟩
      cases hm
      exact h
  · intro m v hp hw f hf
    obtain ⟨c, hc, hend⟩ := hfields f hf
    refine ⟨c, hc, ?_⟩
    have hview : v = cutView m s.size := wrapFunction_view hp hmax hw
    have hb := int32_bounds (m.rootOffset : Int)
    subst hview
    refine access_iff rfl (parse_length_lt hp) hb.1 hb.2 (form_width_pos hc) (by omega) ?_
    rintro n rfl
    obtain ⟨t, ht, het, rfl⟩ := hnested f hf n hc
    exact (emit_ok ht het).1

def itemSchema : Schema := ⟨"Item", 1, 1, [], true⟩

def memoSchema : Schema := ⟨"Memo", 0, 9, [⟨"Memo", "bytes", 1, none, none⟩], false⟩

/-- A header alone, whose root is one past its end. -/
def rootPastEnd : List UInt8 := header version2 0 17 16

/-- `Emit` accepts both schemas. The emitted `Wrap` of either panics on sixteen bytes; and on a message of
`2 ^ 31 + 1` bytes whose root is the last one, it returns a view whose accessor panics. -/
theorem generated_wrap_panics :
    emit itemSchema = .ok (.ok ()) ∧ emit memoSchema = .ok (.ok ()) ∧
    wrapFunction itemSchema rootPastEnd = .error .outOfRange ∧
    wrapFunction memoSchema rootPastEnd = .error .outOfRange ∧
    ∃ v, wrapFunction memoSchema (farRoot (2 ^ 31 - 16)) = .ok (.ok v) ∧
      Form.bytes.access 1 v = .error .outOfRange := by
  have hmemo : memoSchema.size ≤ maxStrings := by decide
  refine ⟨rfl, rfl, rfl, rfl, ?_⟩
  obtain ⟨m, w, hp, hw, hstart⟩ := farRoot_wraps (n := 2 ^ 31 - 16) (by decide)
  obtain ⟨m', hp', hin, hk, hfit, rfl⟩ := (wrap_ok_iff (by decide)).mp hw
  cases hp.symm.trans hp'
  rw [(viewAt_fields hfit).2.2] at hstart
  have hroot : m.rootOffset = 2 ^ 31 := hstart
  have hbyte : m.uintAt 1 m.rootOffset = memoSchema.kind.toNat := by
    obtain ⟨hin, hget⟩ := List.getElem?_eq_some_iff.mp hk
    rw [Message.uintAt, if_pos (by omega), ofLE_window_one hin, hget]
    rfl
  refine ⟨_, by rw [wrapFunction_kind hp hmemo (.inr hbyte), if_pos hin.le], ?_⟩
  have hoff : (cutView m memoSchema.size).rootOff = -2 ^ 31 := by
    simp only [cutView, hroot]
    decide
  have hbytes : (cutView m memoSchema.size).asObject.bytes (1 : Nat) = .error .outOfRange :=
    (asObject_before rfl (by rw [hoff]) (by rw [hoff]; decide)).1
  rw [Form.access, hbytes, go_bind_error]

def emptyMemo : List UInt8 := header version2 0 headerSize 25 ++ List.replicate 9 0

set_option maxRecDepth 4000 in
theorem generated_wrap_safe_memo :
    (∃ r, wrapFunction memoSchema emptyMemo = .ok r) ∧
      ∃ v x, wrapFunction memoSchema emptyMemo = .ok (.ok v) ∧ Form.bytes.access 1 v = .ok x := by
  obtain ⟨hreturns, haccess⟩ := generated_wrap_safe_iff (s := memoSchema) (by decide) rfl (by
    intro f hf n hn
    obtain rfl := List.mem_singleton.mp hf
    cases hn) emptyMemo
  refine ⟨hreturns.mpr fun m hp _ => ?_, ?_⟩
  · cases hp
    decide
  · obtain ⟨c, hc, hiff⟩ := haccess _ _ rfl rfl _ (List.mem_singleton.mpr rfl)
    cases hc
    obtain ⟨x, hx⟩ := hiff.mpr (show (0 : Int) ≤ _ by decide)
    exact ⟨_, x, rfl, hx⟩

end Zap.Codegen
