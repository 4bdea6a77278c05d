/-
# Zap.Wire.Wrapping — the ways into a view: `Wrap`, `WrapRaw`, the unchecked wraps and the `Registry`.

Every entry point parses the header, looks at the byte under the root and checks that the fixed section fits,
but not in one order: `WrapRaw` checks the end of the section first, and lets that check stand for the root
being inside. `Raw` has the fields of `View` and `AsView` is a cast between the two, so a `Raw` is a `View` here.

A `Registry` is a map from kind bytes to entries. The lock around it is not modelled: `Register` and `Lookup`
are single steps under it.

`Read` loads the bits of the payload as they are, the accessors of `Object` convert, and a Go `bool` is kept as
its byte, since a load through `unsafe.Pointer` does not make it `true` or `false`.
-/
import Zap.Wire.View

namespace Zap.Wire

open Zap.Lib

/-! ## The entry points -/

def rawFromSlices (m : Message) (rootOff stop : Int) : Go View := do
  return ⟨some m, ← slice m.data rootOff stop, int32 rootOff⟩

/-- `WrapRaw` followed by `AsView` -/
def wrapRaw (b : List UInt8) (wantKind : UInt8) (size : Nat) (name : String) : Go (Except ViewError View) :=
  match parseHeader b with
  | .error e => .ok (.error (.wire e))
  | .ok (m, rootOff) => do
    let stop := int64 (rootOff + size)
    if stop > m.data.length then
      return .error (.wire .outOfBounds)
    let got ← index m.data rootOff
    if got ≠ wantKind then
      return .error (.schema wantKind got name)
    return .ok (← rawFromSlices m rootOff stop)

def parseUnchecked (b : List UInt8) (size : Nat) : Except ViewError (Message × Int × Int) :=
  match parseHeader b with
  | .error e => .error (.wire e)
  | .ok (m, rootOff) =>
    if rootOff ≥ m.data.length then .error (.wire .outOfBounds)
    else if int64 (rootOff + size) > m.data.length then .error (.wire .outOfBounds)
    else .ok (m, rootOff, int64 (rootOff + size))

/-- `WrapRawUnchecked` followed by `AsView`: the lines of `parseUnchecked`, and the view. -/
def wrapRawUnchecked (b : List UInt8) (size : Nat) : Go (Except ViewError View) :=
  match parseUnchecked b size with
  | .error e => .ok (.error e)
  | .ok (m, rootOff, stop) => do return .ok (← rawFromSlices m rootOff stop)

def wrapUnchecked (s : Schema) (b : List UInt8) : Go (Except ViewError View) := wrapRawUnchecked b s.size

def peekKind (b : List UInt8) : Go (Except ViewError UInt8) :=
  match parseHeader b with
  | .error e => .ok (.error (.wire e))
  | .ok (m, rootOff) =>
    if rootOff ≥ m.data.length then .ok (.error (.wire .outOfBounds))
    else do return .ok (← index m.data rootOff)

/-! ## The registry -/

structure Entry where
  kind : UInt8
  name : String
  wrap : List UInt8 → Go (Except ViewError (Message × Int))

/-- The closure `Register` makes. -/
def entryWrap (s : Schema) (b : List UInt8) : Go (Except ViewError (Message × Int)) :=
  match parseHeader b with
  | .error e => .ok (.error (.wire e))
  | .ok (m, rootOff) =>
    if rootOff ≥ m.data.length then .ok (.error (.wire .outOfBounds))
    else do
      let got ← index m.data rootOff
      if got ≠ s.kind then
        return .error (.schema s.kind got s.name)
      if int64 (rootOff + s.size) > m.data.length then
        return .error (.wire .outOfBounds)
      return .ok (m, rootOff)

def Schema.entry (s : Schema) : Entry := ⟨s.kind, s.name, entryWrap s⟩

structure Registry where
  entries : UInt8 → Option Entry

structure DuplicateKind where
  kind : UInt8
  existing : String
  name : String

variable {s : Schema} {k : UInt8}

namespace Registry

def new : Registry := ⟨fun _ => none⟩

def put (r : Registry) (s : Schema) : Registry := ⟨Function.update r.entries s.kind (some s.entry)⟩

/-- `Register`. A schema of the same kind and the same name takes the place of the earlier one. -/
def register (r : Registry) (s : Schema) : Except DuplicateKind Registry :=
  match r.entries s.kind with
  | none => .ok (r.put s)
  | some existing => if existing.name ≠ s.name then .error ⟨s.kind, existing.name, s.name⟩ else .ok (r.put s)

def lookup (r : Registry) (kind : UInt8) : Option Entry := r.entries kind

def registerAll : List Schema → Registry → Except DuplicateKind Registry
  | [], r => .ok r
  | s :: rest, r => do registerAll rest (← r.register s)

theorem register_ok {r r' : Registry} (h : r.register s = .ok r') : r' = r.put s := by
  unfold register at h
  split at h
  · exact (Except.ok.inj h).symm
  · split_ifs at h
    exact (Except.ok.inj h).symm

theorem lookup_put (r : Registry) (s : Schema) : (r.put s).lookup s.kind = some s.entry := Function.update_self ..

theorem lookup_put_of_ne {r : Registry} (h : s.kind ≠ k) : (r.put s).lookup k = r.lookup k :=
  Function.update_of_ne (Ne.symm h) ..

theorem lookup_registerAll : ∀ {ss : List Schema} {r r' : Registry},
    registerAll ss r = .ok r' → (∀ t ∈ ss, t.kind ≠ k) → r'.lookup k = r.lookup k
  | [], _, _, h, _ => by
      cases h
      rfl
  | s :: rest, r, r', h, hk => by
      cases hs : r.register s with
      | error e =>
        rw [registerAll, hs] at h
        cases h
      | ok r1 =>
        rw [registerAll, hs] at h
        obtain rfl := register_ok hs
        rw [lookup_registerAll h fun t ht => hk t (List.mem_cons_of_mem _ ht),
          lookup_put_of_ne (hk s List.mem_cons_self)]

/-- The schema registered last for its kind is the one `Lookup` finds. -/
theorem lookup_registered {after : List Schema} : ∀ {before : List Schema} {r r' : Registry},
    registerAll (before ++ s :: after) r = .ok r' → (∀ t ∈ after, t.kind ≠ s.kind) →
    r'.lookup s.kind = some s.entry
  | [], r, r', h, hk => by
      cases hs : r.register s with
      | error e =>
        rw [List.nil_append, registerAll, hs] at h
        cases h
      | ok r1 =>
        rw [List.nil_append, registerAll, hs] at h
        obtain rfl := register_ok hs
        rw [lookup_registerAll h hk, lookup_put]
  | t :: before, r, r', h, hk => by
      cases hs : r.register t with
      | error e =>
        rw [List.cons_append, registerAll, hs] at h
        cases h
      | ok r1 =>
        rw [List.cons_append, registerAll, hs] at h
        exact lookup_registered h hk

end Registry

/-! ## The types of a field -/

inductive FieldKind
  | bool
  | int8
  | int16
  | int32
  | int64
  | uint8
  | uint16
  | uint32
  | uint64
  | float32
  | float64

/-- A value of a field's type. A `bool` is the byte it is stored in, a float its bits. -/
inductive Scalar
  | bool (byte : Nat)
  | int (x : Int)
  | uint (n : Nat)
  | float (bits : Nat)

def signed (bits : Nat) (x : Int) : Int := (2 ^ (bits - 1) + x) % 2 ^ bits - 2 ^ (bits - 1)

def FieldKind.width : FieldKind → Nat
  | .bool | .int8 | .uint8 => 1
  | .int16 | .uint16 => 2
  | .int32 | .uint32 | .float32 => 4
  | .int64 | .uint64 | .float64 => 8

/-- `*(*T)(p)`: the bits at an address as a value of the type. -/
def FieldKind.load : FieldKind → Nat → Scalar
  | .bool, n => .bool n
  | .int8, n => .int (signed 8 n)
  | .int16, n => .int (signed 16 n)
  | .int32, n => .int (signed 32 n)
  | .int64, n => .int (signed 64 n)
  | .uint8, n | .uint16, n | .uint32, n | .uint64, n => .uint n
  | .float32, n | .float64, n => .float n

/-- `Read`: past the payload it is the zero value of the type. -/
def View.readField (v : View) (k : FieldKind) (offset : Nat) : Go Scalar := do
  return k.load (← v.read k.width offset)

namespace Object

def int8 (o : Object) (fieldOffset : Int) : Go Int := do return signed 8 (← o.uint8 fieldOffset)

def int16 (o : Object) (fieldOffset : Int) : Go Int := do return signed 16 (← o.uint16 fieldOffset)

def int32 (o : Object) (fieldOffset : Int) : Go Int := do return signed 32 (← o.uint32 fieldOffset)

def int64 (o : Object) (fieldOffset : Int) : Go Int := do return signed 64 (← o.uint64 fieldOffset)

def float32 (o : Object) (fieldOffset : Int) : Go Nat := o.uint32 fieldOffset

def float64 (o : Object) (fieldOffset : Int) : Go Nat := o.uint64 fieldOffset

/-- The accessor of a type. `Bool` compares the byte with zero, so its result is stored as 1 or 0. -/
def typed (o : Object) (fieldOffset : Int) : FieldKind → Go Scalar
  | .bool => do return .bool (if ← o.bool fieldOffset then 1 else 0)
  | .int8 => do return .int (← o.int8 fieldOffset)
  | .int16 => do return .int (← o.int16 fieldOffset)
  | .int32 => do return .int (← o.int32 fieldOffset)
  | .int64 => do return .int (← o.int64 fieldOffset)
  | .uint8 => do return .uint (← o.uint8 fieldOffset)
  | .uint16 => do return .uint (← o.uint16 fieldOffset)
  | .uint32 => do return .uint (← o.uint32 fieldOffset)
  | .uint64 => do return .uint (← o.uint64 fieldOffset)
  | .float32 => do return .float (← o.float32 fieldOffset)
  | .float64 => do return .float (← o.float64 fieldOffset)

end Object

/-! ## The entry points agree -/

/-- The three entry points return, accept or refuse together, and where they accept they give one view; the
entry of a registry gives the buffer and the root, of which the caller makes the view. -/
def EntryPointsAgree (s : Schema) (e : Entry) (b : List UInt8) : Prop :=
  ∃ x y z, wrap s b = .ok x ∧ wrapRaw b s.kind s.size s.name = .ok y ∧ e.wrap b = .ok z ∧
    (∀ v, x = .ok v ↔ y = .ok v) ∧ ((∃ v, x = .ok v) ↔ ∃ q, z = .ok q) ∧
    ∀ v, x = .ok v ↔ ∃ m rootOff, z = .ok (m, rootOff) ∧ rawFromSlices m rootOff (int64 (rootOff + s.size)) = .ok v

section Roots

variable {s : Schema} {b : List UInt8} {m : Message}

theorem agree_refused {x y : ViewError} {z : ViewError} (hx : wrap s b = .ok (.error x))
    (hy : wrapRaw b s.kind s.size s.name = .ok (.error y)) (hz : entryWrap s b = .ok (.error z)) :
    EntryPointsAgree s s.entry b := by
  refine ⟨_, _, _, hx, hy, hz, fun v => ?_, ?_, fun v => ?_⟩ <;> simp

theorem agree_unparsed {e : WireError} (hp : parse b = .error e) : EntryPointsAgree s s.entry b := by
  refine agree_refused (wrap_refused hp) (y := .wire e) ?_ (z := .wire e) ?_
  · simp only [wrapRaw, parseHeader_eq, hp, Except.map]
  · simp only [entryWrap, parseHeader_eq, hp, Except.map]

variable (hp : parse b = .ok m)

include hp

theorem entryWrap_outside (h : m.data.length ≤ m.rootOffset) :
    entryWrap s b = .ok (.error (.wire .outOfBounds)) := by
  simp only [entryWrap, parseHeader_eq, hp, Except.map, ge_iff_le, if_pos h]

theorem entryWrap_other (hk : m.data[m.rootOffset]? = some k) (hne : k ≠ s.kind) :
    entryWrap s b = .ok (.error (.schema s.kind k s.name)) := by
  obtain ⟨hin, rfl⟩ := List.getElem?_eq_some_iff.mp hk
  simp only [entryWrap, parseHeader_eq, hp, Except.map, ge_iff_le, Nat.not_le.mpr hin, if_false,
    index_eval hin, go_bind_ok, if_pos hne, go_pure]

theorem entryWrap_same (hk : m.data[m.rootOffset]? = some s.kind) :
    entryWrap s b = .ok (if int64 (m.rootOffset + s.size) > m.data.length then
      .error (.wire .outOfBounds) else .ok (m, m.rootOffset)) := by
  obtain ⟨hin, hk⟩ := List.getElem?_eq_some_iff.mp hk
  simp only [entryWrap, parseHeader_eq, hp, Except.map, ge_iff_le, Nat.not_le.mpr hin, if_false,
    index_eval hin, go_bind_ok, hk, ne_eq, not_true]
  split_ifs <;> rfl

theorem wrapRaw_short (h : int64 (m.rootOffset + s.size) > m.data.length) :
    wrapRaw b s.kind s.size s.name = .ok (.error (.wire .outOfBounds)) := by
  simp only [wrapRaw, parseHeader_eq, hp, Except.map, if_pos h, go_pure]

/-- A root past the end is caught by the end of the section, unless that has wrapped. -/
theorem wrapRaw_outside (h : m.data.length ≤ m.rootOffset)
    (hstop : ¬int64 (m.rootOffset + s.size) > m.data.length) :
    wrapRaw b s.kind s.size s.name = .error .outOfRange := by
  have hidx : index m.data m.rootOffset = .error .outOfRange := by
    rw [index, if_pos (by omega), Int.toNat_natCast, List.getElem?_eq_none h]
  simp only [wrapRaw, parseHeader_eq, hp, Except.map, if_neg hstop, hidx, go_bind_error]

theorem wrapRaw_other (hk : m.data[m.rootOffset]? = some k) (hne : k ≠ s.kind)
    (hstop : ¬int64 (m.rootOffset + s.size) > m.data.length) :
    wrapRaw b s.kind s.size s.name = .ok (.error (.schema s.kind k s.name)) := by
  obtain ⟨hin, rfl⟩ := List.getElem?_eq_some_iff.mp hk
  simp only [wrapRaw, parseHeader_eq, hp, Except.map, if_neg hstop, index_eval hin, go_bind_ok, if_pos hne, go_pure]

/-- With the schema's kind under the root, `WrapRaw` is `Wrap`. -/
theorem wrapRaw_same (hk : m.data[m.rootOffset]? = some s.kind) :
    wrapRaw b s.kind s.size s.name = wrap s b := by
  rw [wrap_same hp hk]
  obtain ⟨hin, hk⟩ := List.getElem?_eq_some_iff.mp hk
  simp only [wrapRaw, rawFromSlices, parseHeader_eq, hp, Except.map, index_eval hin, go_bind_ok, hk, ne_eq,
    not_true, if_false, bind_assoc]
  split_ifs <;> rfl

theorem agree_other (hk : m.data[m.rootOffset]? = some k) (hne : k ≠ s.kind) : EntryPointsAgree s s.entry b := by
  by_cases hstop : int64 (m.rootOffset + s.size) > m.data.length
  · exact agree_refused (wrap_other hp hk hne) (wrapRaw_short hp hstop) (entryWrap_other hp hk hne)
  · exact agree_refused (wrap_other hp hk hne) (wrapRaw_other hp hk hne hstop) (entryWrap_other hp hk hne)

theorem agree_of_lt (hs : 1 ≤ s.size) (hsum : m.rootOffset + s.size < 2 ^ 63) :
    EntryPointsAgree s s.entry b := by
  have hlen := parse_length_lt hp
  have h1 := int64_add hsum
  cases hk : m.data[m.rootOffset]? with
  | none =>
    have hout := List.getElem?_eq_none_iff.mp hk
    exact agree_refused (wrap_outside hp hout) (wrapRaw_short hp (by omega)) (entryWrap_outside hp hout)
  | some k =>
    by_cases hne : k ≠ s.kind
    · exact agree_other hp hk hne
    obtain rfl := not_not.mp hne
    have hentry := entryWrap_same hp hk
    by_cases hfit : m.rootOffset + s.size ≤ m.data.length
    · have hwrap := wrap_fits hp hk hfit (by omega)
      rw [if_neg (by omega)] at hentry
      refine ⟨_, _, _, hwrap, (wrapRaw_same hp hk).trans hwrap, hentry, fun v => Iff.rfl, by simp, fun v => ?_⟩
      have hview : rawFromSlices m m.rootOffset (int64 (m.rootOffset + s.size)) =
          .ok (m.viewAt s.size m.rootOffset) := by
        rw [rawFromSlices, h1, slice_eval (by omega) hfit, Nat.add_sub_cancel_left, go_bind_ok, go_pure,
          Message.viewAt_inside hfit]
      constructor
      · intro hv
        exact ⟨m, m.rootOffset, rfl, hview.trans (congrArg _ (Except.ok.inj hv))⟩
      · rintro ⟨m', rootOff, hq, hv⟩
        cases hq
        exact congrArg _ (Except.ok.inj (hview.symm.trans hv))
    · rw [if_pos (by omega)] at hentry
      exact agree_refused (wrap_short hp hk (by omega) hsum) (wrapRaw_short hp (by omega)) hentry

theorem agree_iff (hs : 1 ≤ s.size) (hs' : s.size < 2 ^ 63) :
    EntryPointsAgree s s.entry b ↔ m.rootOffset + s.size < 2 ^ 63 ∨
      ∃ k, m.data[m.rootOffset]? = some k ∧ k ≠ s.kind := by
  constructor
  · intro h
    by_contra hno
    obtain ⟨hsum, hkind⟩ := not_or.mp hno
    have hroot := m.rootOffset_lt
    have hstop : ¬int64 ((m.rootOffset : Int) + s.size) > m.data.length := by
      unfold int64
      omega
    obtain ⟨x, y, z, hx, hy, -⟩ := h
    cases hk : m.data[m.rootOffset]? with
    | none =>
      rw [wrapRaw_outside hp (List.getElem?_eq_none_iff.mp hk) hstop] at hy
      cases hy
    | some k =>
      obtain rfl : k = s.kind := by
        by_contra hne
        exact hkind ⟨k, hk, hne⟩
      rw [wrap_wraps hp hk (by omega) hs'] at hx
      cases hx
  · rintro (hsum | ⟨k, hk, hne⟩)
    · exact agree_of_lt hp hs hsum
    · exact agree_other hp hk hne

end Roots

/-- The unchecked wraps, behind a look at the kind, are `Wrap`. -/
theorem unchecked_eq_wrap {b : List UInt8} (h : peekKind b = .ok (.ok s.kind)) :
    wrapUnchecked s b = wrap s b ∧ wrapRawUnchecked b s.size = wrap s b := by
  suffices wrapRawUnchecked b s.size = wrap s b from ⟨this, this⟩
  cases hp : parse b with
  | error e =>
    simp only [peekKind, parseHeader_eq, hp, Except.map] at h
    cases h
  | ok m =>
    simp only [peekKind, parseHeader_eq, hp, Except.map] at h
    by_cases hout : m.rootOffset ≥ m.data.length
    · rw [if_pos hout] at h
      cases h
    have hin : m.rootOffset < m.data.length := Nat.not_le.mp hout
    rw [if_neg hout, index_eval hin, go_bind_ok] at h
    have hk : m.data[m.rootOffset]? = some s.kind := by
      rw [List.getElem?_eq_getElem hin, Except.ok.inj (Except.ok.inj h)]
    rw [wrap_same hp hk]
    simp only [wrapRawUnchecked, parseUnchecked, rawFromSlices, parseHeader_eq, hp, Except.map, if_neg hout]
    split_ifs
    · rfl
    · simp only [bind_assoc, pure_bind]

/-! ## The reads agree -/

section Reads

variable {m : Message} {s : Schema}

/-- A field inside the fixed section is read from the payload as from the root. -/
theorem read_root {w off : Nat} (hlen : m.data.length < 2 ^ 32)
    (hfit : m.rootOffset + s.size ≤ m.data.length) (hw : 0 < w) (hw' : w ≤ 8) (hoff : off + w ≤ s.size) :
    (m.viewAt s.size m.rootOffset).read w off = .ok (m.uintAt w (m.rootOffset + off)) ∧
      m.root.uint w off = .ok (m.uintAt w (m.rootOffset + off)) ∧
      (w = 1 → m.root.uint8 off = .ok (m.uintAt w (m.rootOffset + off))) := by
  refine ⟨Message.viewAt_read hfit hw hw' hoff hlen, Object.uint_eval hw' (by omega), ?_⟩
  rintro rfl
  exact Object.uint8_eval (by omega)

theorem FieldKind.width_bounds (k : FieldKind) : 0 < k.width ∧ k.width ≤ 8 := by
  cases k <;> decide

/-- What the accessor of a type makes of the word it reads: `Bool` keeps whether it is zero. -/
def FieldKind.convert : FieldKind → Nat → Scalar
  | .bool, n => .bool (if n = 0 then 0 else 1)
  | k, n => k.load n

theorem FieldKind.load_eq_convert {k : FieldKind} {n : Nat} : k.load n = k.convert n ↔ (k = .bool → n ≤ 1) := by
  cases k with
  | bool =>
    simp only [FieldKind.load, FieldKind.convert, Scalar.bool.injEq, forall_const]
    split_ifs <;> omega
  | _ => simp only [FieldKind.convert, reduceCtorEq, false_implies]

/-- **`Read` against the accessors of `Object`**, on the word under the field. -/
theorem readField_root {k : FieldKind} {off : Nat} (hlen : m.data.length < 2 ^ 32)
    (hfit : m.rootOffset + s.size ≤ m.data.length) (hoff : off + k.width ≤ s.size) :
    (m.viewAt s.size m.rootOffset).readField k off = .ok (k.load (m.uintAt k.width (m.rootOffset + off))) ∧
      m.root.typed off k = .ok (k.convert (m.uintAt k.width (m.rootOffset + off))) := by
  obtain ⟨hread, huint, huint8⟩ := read_root hlen hfit k.width_bounds.1 k.width_bounds.2 hoff
  refine ⟨by rw [View.readField, hread, go_bind_ok, go_pure], ?_⟩
  cases k with
  | bool =>
    rw [Object.typed, Object.bool, huint8 rfl]
    simp only [go_bind_ok, go_pure, FieldKind.convert, bne_iff_ne, ne_eq, ite_not]
  | int8 | uint8 =>
    simp only [Object.typed, Object.int8, huint8 rfl, go_bind_ok, go_pure]
    rfl
  | int16 | uint16 | int32 | uint32 | float32 | int64 | uint64 | float64 =>
    simp only [FieldKind.width] at huint
    simp only [Object.typed, Object.int16, Object.int32, Object.int64, Object.float32, Object.float64,
      Object.uint16, Object.uint32, Object.uint64, huint, go_bind_ok, go_pure]
    rfl

end Reads

/-- **When the ways into a view agree.**  A schema that is registered, and registered last for its kind, is found
by `Lookup`; `Wrap`, `WrapRaw` and the entry then agree on a buffer exactly when the end of the fixed section
does not wrap, or another kind is under the root. Behind `PeekKind` the unchecked wraps are `Wrap`. `Read` gives
what the accessor of `Object` gives at the root, unless the field is a `bool` whose byte is neither 0 nor 1. -/
theorem wrapping_agrees_iff {before after : List Schema} {s : Schema} {r : Registry}
    (hr : Registry.registerAll (before ++ s :: after) .new = .ok r)
    (hlast : ∀ t ∈ after, t.kind ≠ s.kind) (hs : 1 ≤ s.size) (hs' : s.size < 2 ^ 63) :
    ∃ e, r.lookup s.kind = some e ∧ e.kind = s.kind ∧ e.name = s.name ∧ ∀ b,
      (EntryPointsAgree s e b ↔ ∀ m, parse b = .ok m → m.rootOffset + s.size < 2 ^ 63 ∨
        ∃ k, m.data[m.rootOffset]? = some k ∧ k ≠ s.kind) ∧
      (peekKind b = .ok (.ok s.kind) → wrapUnchecked s b = wrap s b ∧ wrapRawUnchecked b s.size = wrap s b) ∧
      ∀ m v, parse b = .ok m → wrap s b = .ok (.ok v) → ∀ (k : FieldKind) (off : Nat),
        off + k.width ≤ s.size → ∃ x y, v.readField k off = .ok x ∧ m.root.typed off k = .ok y ∧
          (x = y ↔ (k = .bool → m.uintAt 1 (m.rootOffset + off) ≤ 1)) := by
  refine ⟨s.entry, Registry.lookup_registered hr hlast, rfl, rfl, fun b => ⟨?_, unchecked_eq_wrap, ?_⟩⟩
  · cases hp : parse b with
    | error e => exact ⟨fun _ m hm => (nomatch hm), fun _ => agree_unparsed hp⟩
    | ok m =>
      rw [agree_iff hp hs hs']
      exact ⟨fun h m' hm => Except.ok.inj hm ▸ h, fun h => h m rfl⟩
  · intro m v hp hw k off hoff
    obtain ⟨m', hp', -, -, hfit, rfl⟩ := (wrap_ok_iff hs').mp hw
    cases hp.symm.trans hp'
    obtain ⟨hread, htyped⟩ := readField_root (parse_length_lt hp) hfit hoff
    refine ⟨_, _, hread, htyped, FieldKind.load_eq_convert.trans ⟨?_, ?_⟩⟩ <;>
      · rintro h rfl
        exact h rfl

def flagSchema : Schema := ⟨1, 2, "flag"⟩

/-- A message of the schema whose flag is stored as the given byte. -/
def flagMessage (flag : UInt8) : List UInt8 := header version2 0 headerSize 18 ++ [1, flag]

set_option maxRecDepth 4000 in
/-- A flag stored as 2 is neither of the two values for `Read`, and true for `Object.Bool`; and a schema of size
`2 ^ 63 - 1` makes `Wrap` panic on a buffer its registry entry accepts. -/
theorem entry_points_differ :
    (∃ m v, parse (flagMessage 2) = .ok m ∧ wrap flagSchema (flagMessage 2) = .ok (.ok v) ∧
      v.readField .bool 1 = .ok (.bool 2) ∧ m.root.typed 1 .bool = .ok (.bool 1)) ∧
    wrap ⟨1, 2 ^ 63 - 1, "flag"⟩ (flagMessage 0) = .error .outOfRange ∧
    ∃ q, entryWrap ⟨1, 2 ^ 63 - 1, "flag"⟩ (flagMessage 0) = .ok (.ok q) := by
  have hp : parse (flagMessage 0) = .ok _ := rfl
  have hentry := entryWrap_same (s := ⟨1, 2 ^ 63 - 1, "flag"⟩) hp rfl
  rw [if_neg (by decide)] at hentry
  exact ⟨⟨_, _, rfl, rfl, rfl, rfl⟩, wrap_wraps hp rfl (by decide) (by decide), _, hentry⟩

set_option maxRecDepth 4000 in
/-- A registered schema on a message of it: the entry points agree, and so do the reads of a flag that is 1. -/
theorem wrapping_agrees_flag :
    ∃ r e, Registry.registerAll [⟨2, 1, "other"⟩, flagSchema] .new = .ok r ∧
      r.lookup flagSchema.kind = some e ∧ EntryPointsAgree flagSchema e (flagMessage 1) ∧
      ∃ m v x, parse (flagMessage 1) = .ok m ∧ wrap flagSchema (flagMessage 1) = .ok (.ok v) ∧
        v.readField .bool 1 = .ok x ∧ m.root.typed 1 .bool = .ok x := by
  have hreg : Registry.registerAll ([⟨2, 1, "other"⟩] ++ flagSchema :: []) .new =
      .ok ((Registry.new.put ⟨2, 1, "other"⟩).put flagSchema) := rfl
  obtain ⟨e, he, -, -, hall⟩ := wrapping_agrees_iff hreg (by simp) (by decide) (by decide)
  obtain ⟨hagree, -, -⟩ := hall (flagMessage 1)
  refine ⟨_, e, rfl, he, hagree.mpr fun m hp => .inl ?_, _, _, _, rfl, rfl, rfl, rfl⟩
  have := m.rootOffset_lt
  have hsize : flagSchema.size = 2 := rfl
  omega

end Zap.Wire
