/-
# Zap.Wire.Reuse — a builder that has been used before, against a new one.

`Reset` moves the cursor back and forgets the root, and nothing else: the buffer keeps the bytes of the
earlier message. Two builders are run side by side here, with one program: `SameBody` says that they
agree on the cursor, the root and every byte between the header and the cursor, and every call keeps it,
because a call only moves the cursor over bytes it has written. What `SameBody` leaves open is the first
half of the header. No call writes there (`answer_head`), `Finish` does not either, so what an earlier
`FinishWithFlags` or the constructor put there is what a later `Finish` sends.

`Used` is the history of a builder a constructor made, with the version it was made for and the flags it
was last finished with. `GetBuilder` resets whatever builder an owner has put into the pool, a `Builder{}`
that no constructor made included, so the comparison with a new builder (`reuse_eq_fresh`) is over every
buffer. Neither builder has to come to its end: `SetBytes` does not reserve its field, and whether the
field is in the buffer depends on how far earlier messages have grown it (`Fits`).
-/
import Zap.Wire.Builder

namespace Zap.Wire

open Zap.Lib

/-! ## Two builders, one program -/

/-- The builders agree on the cursor, on the root and on the bytes between the header and the cursor. -/
def SameBody (b c : Builder) : Prop :=
  b.pos = c.pos ∧ b.rootOffset = c.rootOffset ∧
    ∀ k, headerSize ≤ k → k < b.pos → b.buf[k]? = c.buf[k]?

def SameHead (b c : Builder) : Prop := ∀ k, k < 8 → b.buf[k]? = c.buf[k]?

variable {i v g : Nat} {α : Type} {p : Build α}

section Step

variable {b c b' c' : Builder}

theorem SameBody.extend (h : SameBody b c) (bs : List UInt8) : SameBody (b.extend bs) (c.extend bs) := by
  obtain ⟨hpos, hroot, hbytes⟩ := h
  refine ⟨by rw [Builder.extend_pos, Builder.extend_pos, hpos], hroot, fun k hlo hk => ?_⟩
  rw [Builder.extend_pos] at hk
  rw [Builder.extend_getElem? b bs hk, Builder.extend_getElem? c bs (by omega), hpos]
  -- before the old cursor they agree already, and behind it they have the same new bytes
  split_ifs with hlt
  · exact hbytes k hlo (by omega)
  · rfl

variable {bs : List UInt8}

theorem patch_inv (hb : b.patch i bs = .ok b') :
    i + bs.length ≤ b.buf.length ∧ b'.pos = b.pos ∧ b'.rootOffset = b.rootOffset ∧
      b'.buf = overwrite b.buf i bs := by
  unfold Builder.patch at hb
  split_ifs at hb with hfit
  cases hb
  exact ⟨hfit, rfl, rfl, rfl⟩

theorem SameBody.patch (h : SameBody b c) (hb : b.patch i bs = .ok b') (hc : c.patch i bs = .ok c') :
    SameBody b' c' := by
  obtain ⟨hpos, hroot, hbytes⟩ := h
  obtain ⟨hbfit, hbpos, hbroot, hbbuf⟩ := patch_inv hb
  obtain ⟨hcfit, hcpos, hcroot, hcbuf⟩ := patch_inv hc
  refine ⟨by rw [hbpos, hcpos, hpos], by rw [hbroot, hcroot, hroot], fun k hlo hk => ?_⟩
  rw [hbbuf, hcbuf, overwrite_getElem? hbfit, overwrite_getElem? hcfit]
  split_ifs with hin
  · rfl
  · exact hbytes k hlo (by omega)

theorem SameHead.trans {d : Builder} (h : SameHead b c) (h' : SameHead c d) : SameHead b d :=
  fun k hk => (h k hk).trans (h' k hk)

theorem Builder.room (b : Builder) : 16 ≤ b.buf.length := b.past_header.trans b.fits

theorem extend_head (b : Builder) (bs : List UInt8) : SameHead (b.extend bs) b := by
  have h16 : headerSize = 16 := rfl
  have := b.past_header
  intro k hk
  rw [Builder.extend_getElem? b bs (by omega), if_pos (by omega)]

theorem patch_head (hi : headerSize ≤ i) (hb : b.patch i bs = .ok b') : SameHead b' b := by
  have h16 : headerSize = 16 := rfl
  obtain ⟨hfit, -, -, hbuf⟩ := patch_inv hb
  intro k hk
  rw [hbuf, overwrite_getElem? hfit, if_neg (by omega)]

end Step

/-! ## Every call -/

/-- What a call does to a builder: it writes behind the cursor, writes over a position, or sets the root. -/
inductive Edit
  | extend (bs : List UInt8)
  | patch (i : Nat) (bs : List UInt8)
  | root (off : Nat)

def Edit.apply (b : Builder) : Edit → Go Builder
  | .extend bs => .ok (b.extend bs)
  | .patch i bs => b.patch i bs
  | .root off => .ok { b with rootOffset := off }

variable {es : List Edit}

/-- The edits of a call, at a cursor. -/
def BuildReq.edits (pos : Nat) : BuildReq → List Edit
  | .startObject n => [pad, .extend (List.replicate n 0)]
  | .setUint w ob f v => [reserve ob (f + w.bytes), .patch (ob.startPos + f) (le w.bytes v)]
  | .setBytesFixed ob f v => if v.length = 0 then [] else [reserve ob (f + v.length), .patch (ob.startPos + f) v]
  | .setBytes ob f v => .extend v ::
      words ob f (if v.length = 0 then le 4 0 else relWord pos (ob.startPos + f)) v.length
  | .setObject ob f off => [reserve ob (f + 4),
      .patch (ob.startPos + f) (if off = 0 then le 4 0 else relWord off (ob.startPos + f))]
  | .setList ob f off n => reserve ob (f + 8) ::
      if off = 0 ∨ n = 0 then words ob f (le 4 0) 0 else words ob f (relWord off (ob.startPos + f)) n
  | .reserveFixed ob n => [reserve ob n]
  | .finishAsRoot ob => [.root ob.startPos]
  | .writeBytes d => if d.length = 0 then [] else [pad, .extend d]
  | .startList => [pad]
  | .addUint w _ v => [.extend (le w.bytes v)]
  | .addBytes _ d => [.extend d]
  | .addObjectPtr _ t => [.extend (if t = 0 then le 4 0 else relWord t pos)]
where
  pad : Edit := .extend (List.replicate ((alignment - pos % alignment) % alignment) 0)
  reserve (ob : ObjectBuilder) (n : Nat) : Edit := .extend (List.replicate (ob.startPos + n - pos) 0)
  words (ob : ObjectBuilder) (f : Nat) (w : List UInt8) (n : Nat) : List Edit :=
    [.patch (ob.startPos + f) w, .patch (ob.startPos + f + 4) (le 4 n)]

def Builder.returns (b : Builder) : (r : BuildReq) → r.Resp
  | .startObject n => (b.startObject n).1
  | .writeBytes d => (b.writeBytes d).1
  | .startList => b.startList.1
  | .addUint w lb v => (b.addUint w lb v).1
  | .addBytes lb d => (b.addBytes lb d).1
  | .addObjectPtr lb t => (b.addObjectPtr lb t).1
  | .setUint .. | .setBytesFixed .. | .setBytes .. | .setObject .. | .setList .. | .reserveFixed ..
  | .finishAsRoot .. => ()

/-- A step of two builders side by side: they return the same answer, still agree on the body, and leave
their heads alone. -/
structure Together {α : Type} (b c : Builder) (x y : α × Builder) : Prop where
  answer : x.1 = y.1
  body : SameBody x.2 y.2
  left : SameHead x.2 b
  right : SameHead y.2 c

section Calls

variable {b c b' c' : Builder} {r : BuildReq}

theorem extend_nil (b : Builder) : b.extend [] = b := by
  have hgrow : b.grow 0 = b := if_pos b.fits
  cases b
  simp [Builder.extend, hgrow, overwrite]

theorem ensureField_eq (b : Builder) (ob : ObjectBuilder) (n : Nat) :
    b.ensureField ob n = b.extend (List.replicate (ob.startPos + n - b.pos) 0) := by
  unfold Builder.ensureField
  split_ifs with h
  · rfl
  · rw [Nat.sub_eq_zero_of_le (by omega), List.replicate_zero, extend_nil]

/-- **A call is its edits.** -/
theorem answer_eq (b : Builder) (r : BuildReq) :
    b.answer r = (do return (b.returns r, ← (r.edits b.pos).foldlM Edit.apply b)) := by
  -- a setter reserves its field and patches it; where the field is there already it reserves nothing
  cases r <;> simp only [Builder.answer, Builder.returns, BuildReq.edits, BuildReq.edits.pad, BuildReq.edits.reserve,
    BuildReq.edits.words, Builder.startObject, Builder.setUint, Builder.setBytesFixed, Builder.setBytes,
    Builder.setObject, Builder.setList, Builder.writeBytes, Builder.startList, Builder.addUint, Builder.addBytes,
    Builder.addObjectPtr, Builder.finishAsRoot, Builder.align, ensureField_eq]
  all_goals try split_ifs
  all_goals simp_all [Edit.apply, extend_nil, List.foldlM_cons]

variable {x : r.Resp × Builder}

theorem answer_edits (h : b.answer r = .ok x) : x.1 = b.returns r ∧ (r.edits b.pos).foldlM Edit.apply b = .ok x.2 := by
  rw [answer_eq] at h
  obtain ⟨d, hd, hx⟩ := go_bind_eq_ok.mp h
  cases hx
  exact ⟨rfl, hd⟩

theorem edits_past {pos : Nat} {bs : List UInt8} (h : .patch i bs ∈ r.edits pos) : headerSize ≤ i := by
  have hob : ∀ ob : ObjectBuilder, headerSize ≤ ob.startPos := ObjectBuilder.past_header
  cases r <;> simp only [BuildReq.edits, BuildReq.edits.pad, BuildReq.edits.reserve, BuildReq.edits.words] at h
  all_goals try split_ifs at h
  all_goals simp at h
  -- what is left is a field of an object, or the second word of one
  all_goals
    obtain ⟨rfl, -⟩ | ⟨rfl, -⟩ := h
    all_goals first
      | exact Nat.le_add_right_of_le (hob _)
      | exact Nat.le_add_right_of_le (Nat.le_add_right_of_le (hob _))

theorem edits_keep {P : Builder → Prop} (hstep : ∀ e ∈ es, ∀ d d', P d → e.apply d = .ok d' → P d') (hb : P b)
    (h : es.foldlM Edit.apply b = .ok b') : P b' := by
  induction es generalizing b with
  | nil =>
    cases h
    exact hb
  | cons e es ih =>
    rw [List.foldlM_cons] at h
    obtain ⟨d, hd, hrest⟩ := go_bind_eq_ok.mp h
    exact ih (fun e' he' => hstep e' (List.mem_cons_of_mem _ he')) (hstep e List.mem_cons_self b d hb hd) hrest

theorem answer_head (h : b.answer r = .ok x) : SameHead x.2 b := by
  refine edits_keep (P := (SameHead · b)) (fun e he d d' hd happly => SameHead.trans ?_ hd) (fun _ _ => rfl)
    (answer_edits h).2
  cases e with
  | extend bs =>
    cases happly
    exact extend_head d bs
  | patch i bs => exact patch_head (edits_past he) happly
  | root off =>
    cases happly
    exact fun _ _ => rfl

theorem answer_pos_le (h : b.answer r = .ok x) : b.pos ≤ x.2.pos := by
  refine edits_keep (P := (b.pos ≤ ·.pos)) (fun e _ d d' hd happly => hd.trans ?_) (Nat.le_refl _) (answer_edits h).2
  cases e with
  | extend bs =>
    cases happly
    exact Nat.le_add_right _ _
  | patch i bs => exact Nat.le_of_eq (patch_inv happly).2.1.symm
  | root off =>
    cases happly
    exact Nat.le_refl _

theorem SameBody.symm (h : SameBody b c) : SameBody c b :=
  ⟨h.1.symm, h.2.1.symm, fun k hlo hk => (h.2.2 k hlo (by rw [h.1]; exact hk)).symm⟩

theorem edits_together (h : SameBody b c) (hb : es.foldlM Edit.apply b = .ok b')
    (hc : es.foldlM Edit.apply c = .ok c') : SameBody b' c' := by
  induction es generalizing b c with
  | nil =>
    cases hb
    cases hc
    exact h
  | cons e es ih =>
    rw [List.foldlM_cons] at hb hc
    obtain ⟨b1, hb1, hb⟩ := go_bind_eq_ok.mp hb
    obtain ⟨c1, hc1, hc⟩ := go_bind_eq_ok.mp hc
    refine ih ?_ hb hc
    cases e with
    | extend bs =>
      cases hb1
      cases hc1
      exact h.extend bs
    | patch i bs => exact h.patch hb1 hc1
    | root off =>
      cases hb1
      cases hc1
      exact ⟨h.1, rfl, h.2.2⟩

theorem returns_congr (h : b.pos = c.pos) (r : BuildReq) : b.returns r = c.returns r := by
  cases r <;> simp [Builder.returns, Builder.startObject, Builder.writeBytes, Builder.startList, Builder.addUint,
    Builder.addBytes, Builder.addObjectPtr, Builder.align, h]
  split_ifs <;> rfl

/-- **One call of the same program on both builders.** -/
theorem answer_together {y : r.Resp × Builder} (h : SameBody b c) (hx : b.answer r = .ok x) (hy : c.answer r = .ok y) :
    Together b c x y := by
  obtain ⟨hx1, hx2⟩ := answer_edits hx
  obtain ⟨hy1, hy2⟩ := answer_edits hy
  rw [← h.1] at hy2
  exact ⟨by rw [hx1, hy1, returns_congr h.1], edits_together h hx2 hy2, answer_head hx, answer_head hy⟩

end Calls

variable {b c : Builder}

/-- **One program on both builders**: if both runs return, they return the same value. -/
theorem run_together {x y : α × Builder} (h : SameBody b c) (hx : Builder.run p b = .ok x)
    (hy : Builder.run p c = .ok y) : Together b c x y := by
  induction p generalizing b c with
  | ret a =>
    cases hx
    cases hy
    exact ⟨rfl, h, fun _ _ => rfl, fun _ _ => rfl⟩
  | ask r k ih =>
    obtain ⟨x1, hx1, hx2⟩ := go_bind_eq_ok.mp hx
    obtain ⟨y1, hy1, hy2⟩ := go_bind_eq_ok.mp hy
    have hstep := answer_together h hx1 hy1
    rw [← hstep.answer] at hy2
    have hrest := ih x1.1 hstep.body hx2 hy2
    exact ⟨hrest.answer, hrest.body, hrest.left.trans hstep.left, hrest.right.trans hstep.right⟩

variable {b : Builder}

theorem run_head {x : α × Builder} (hx : Builder.run p b = .ok x) : SameHead x.2 b :=
  (run_together ⟨rfl, rfl, fun _ _ _ => rfl⟩ hx hx).left

/-! ## The header -/

/-- What the first half of a header says: magic, version, flags. -/
def head (version flags : Nat) : List UInt8 := magic ++ (le 2 version ++ le 2 flags)

def Builder.Head (b : Builder) (version flags : Nat) : Prop := b.buf.take 8 = head version flags

theorem sameHead_iff : SameHead b c ↔ b.buf.take 8 = c.buf.take 8 := by
  constructor
  · intro h
    apply List.ext_getElem?
    intro k
    by_cases hk : k < 8
    · rw [List.getElem?_take_of_lt hk, List.getElem?_take_of_lt hk, h k hk]
    · rw [List.getElem?_take_eq_none (by omega), List.getElem?_take_eq_none (by omega)]
  · intro h k hk
    rw [← List.getElem?_take_of_lt hk, h, List.getElem?_take_of_lt hk]

theorem Builder.Head.of_same (hb : b.Head v g) (h : SameHead c b) : c.Head v g := by
  rw [Builder.Head, sameHead_iff.mp h, hb]

/-- The two heads are the same bytes exactly when they say the same. -/
theorem head_inj {v' g' : Nat} (hv : v < 2 ^ 16) (hg : g < 2 ^ 16) (hv' : v' < 2 ^ 16) (hg' : g' < 2 ^ 16) :
    head v g = head v' g' ↔ v = v' ∧ g = g' := by
  constructor
  · intro h
    have htail := (append_split rfl h).2
    obtain ⟨h1, h2⟩ := append_split (by rw [le_length, le_length]) htail
    have e1 : v % 256 ^ 2 = v' % 256 ^ 2 := by rw [← ofLE_le, h1, ofLE_le]
    have e2 : g % 256 ^ 2 = g' % 256 ^ 2 := by rw [← ofLE_le, h2, ofLE_le]
    omega
  · rintro ⟨rfl, rfl⟩
    rfl

theorem newBuilder_head (capacity version : Nat) : (newBuilder capacity version).Head version 0 := by
  have h16 : headerSize = 16 := rfl
  have hcap : ∀ n, headerSize ≤ n → (freshBuffer n version).take 8 = head version 0 := by
    intro n hn
    obtain ⟨k, rfl⟩ : ∃ k, n = 8 + k := ⟨n - 8, by omega⟩
    have hmagic : overwrite (List.replicate (8 + k) 0) 0 magic = magic ++ List.replicate (4 + k) 0 := by
      simp [overwrite, magic, show 8 + k - 4 = 4 + k by omega]
    have hver : overwrite (magic ++ List.replicate (4 + k) 0) 4 (le 2 version) =
        magic ++ (le 2 version ++ List.replicate (2 + k) 0) := by
      have ht : (magic ++ List.replicate (4 + k) (0 : UInt8)).take 4 = magic := List.take_left' rfl
      have hd : (magic ++ List.replicate (4 + k) (0 : UInt8)).drop 6 = List.replicate (2 + k) 0 := by
        simp [magic, show 4 + k - 2 = 2 + k by omega]
      rw [overwrite, ht, le_length, hd]
    rw [freshBuffer, hmagic, hver, head]
    have h8 : 8 = magic.length + ((le 2 version).length + 2) := by simp [magic]
    rw [h8, List.take_length_add_append, List.take_length_add_append, List.take_replicate]
    simp [le, be]
  simp only [Builder.Head, newBuilder]
  split_ifs
  · exact hcap 256 (by decide)
  · exact hcap capacity (by omega)

theorem Builder.Head.parts (h : b.Head v g) :
    b.buf.take 6 = magic ++ le 2 v ∧ (b.buf.drop 6).take 2 = le 2 g := by
  have hlen : (magic ++ le 2 v).length = 6 := by simp [magic]
  have hhead : b.buf.take 8 = (magic ++ le 2 v) ++ le 2 g := by rw [h, head, List.append_assoc]
  constructor
  · have := congrArg (List.take 6) hhead
    rwa [List.take_take, List.take_left' hlen] at this
  · rw [List.take_drop, hhead, List.drop_left' hlen]

/-- `FinishWithFlags` writes over the flags and keeps what is in front of them. -/
theorem putFlags_take (b : Builder) (flags : Nat) : (b.putFlags flags).buf.take 8 = b.buf.take 6 ++ le 2 flags := by
  have hroom := b.room
  have hlen : 8 = (b.buf.take 6).length + (le 2 flags).length := by
    rw [List.length_take, le_length]
    omega
  simp only [Builder.putFlags, overwrite]
  rw [hlen, List.take_length_add_append, List.take_left]

theorem putFlags_head (h : b.Head v g) (flags : Nat) : (b.putFlags flags).Head v flags := by
  rw [Builder.Head, putFlags_take, h.parts.1, head, List.append_assoc]

theorem SameBody.putFlags (h : SameBody b c) (flags : Nat) :
    SameBody (b.putFlags flags) (c.putFlags flags) := by
  have h16 : headerSize = 16 := rfl
  have hfits : ∀ d : Builder, 6 + (le 2 flags).length ≤ d.buf.length := by
    intro d
    have hroom := d.room
    rw [le_length]
    omega
  refine ⟨h.1, h.2.1, fun k hlo hk => ?_⟩
  simp only [Builder.putFlags]
  rw [overwrite_getElem? (hfits b), overwrite_getElem? (hfits c), le_length, if_neg (by omega), if_neg (by omega)]
  exact h.2.2 k hlo hk

theorem finishBuffer_getElem? (b : Builder) (k : Nat) :
    b.finishBuffer[k]? =
      if 12 ≤ k ∧ k < 16 then (le 4 b.pos)[k - 12]?
      else if 8 ≤ k ∧ k < 12 then (le 4 b.rootOffset)[k - 8]? else b.buf[k]? := by
  have hroom := b.room
  have hfit : 8 + (le 4 b.rootOffset).length ≤ b.buf.length := by
    rw [le_length]
    omega
  rw [Builder.finishBuffer, overwrite_getElem? (by rw [overwrite_length hfit, le_length]; omega),
    overwrite_getElem? hfit, le_length, le_length]

theorem finish_head (b : Builder) : SameHead b.finish.2 b := by
  intro k hk
  rw [Builder.finish, finishBuffer_getElem?, if_neg (by omega), if_neg (by omega)]

/-- Of two builders that agree on the body, the messages differ in their heads or not at all. -/
theorem finish_eq_iff (h : SameBody b c) : b.finish.1 = c.finish.1 ↔ SameHead b c := by
  have h16 : headerSize = 16 := rfl
  have hb := b.past_header
  obtain ⟨hpos, hroot, hbytes⟩ := h
  simp only [Builder.finish]
  constructor
  · intro heq k hk
    have : (b.finishBuffer.take b.pos)[k]? = (c.finishBuffer.take c.pos)[k]? := by rw [heq]
    rw [List.getElem?_take_of_lt (by omega), List.getElem?_take_of_lt (by omega),
      finishBuffer_getElem?, finishBuffer_getElem?, if_neg (by omega), if_neg (by omega),
      if_neg (by omega), if_neg (by omega)] at this
    exact this
  · intro hhead
    apply List.ext_getElem?
    intro k
    by_cases hk : k < b.pos
    · rw [List.getElem?_take_of_lt hk, List.getElem?_take_of_lt (by omega), finishBuffer_getElem?,
        finishBuffer_getElem?, hpos, hroot]
      -- `Finish` writes bytes 8 to 16 itself, from what the two agree on
      split_ifs with h1 h2
      · rfl
      · rfl
      · by_cases hlow : k < 8
        · exact hhead k hlow
        · exact hbytes k (by omega) hk
    · rw [List.getElem?_take_eq_none (by omega), List.getElem?_take_eq_none (by omega)]

/-! ## Histories -/

/-- The builder has been used: made for a version, then programs run on it, messages finished, and reset,
in any order. `flags` is what the last `FinishWithFlags` wrote, and zero if there was none. -/
inductive Used : (version flags : Nat) → Builder → Prop
  | new (capacity : Nat) {version : Nat} (h : version = version1 ∨ version = version2) :
      Used version 0 (newBuilder capacity version)
  | run {version flags : Nat} {b : Builder} {α : Type} {p : Build α} {x : α × Builder} :
      Used version flags b → Builder.run p b = .ok x → Used version flags x.2
  | finish {version flags : Nat} {b : Builder} : Used version flags b → Used version flags b.finish.2
  | finishWithFlags {version flags : Nat} {b : Builder} (f : Nat) (h : f < 2 ^ 16) :
      Used version flags b → Used version f (b.finishWithFlags f).2
  | reset {version flags : Nat} {b : Builder} : Used version flags b → Used version flags b.reset

/-- The head of a used builder is what its history left there. -/
theorem Used.head (h : Used v g b) : b.Head v g ∧ v < 2 ^ 16 ∧ g < 2 ^ 16 := by
  induction h with
  | new capacity hv => exact ⟨newBuilder_head _ _, by rcases hv with rfl | rfl <;> decide, by decide⟩
  | run _ hrun ih => exact ⟨ih.1.of_same (run_head hrun), ih.2⟩
  | finish _ ih => exact ⟨ih.1.of_same (finish_head _), ih.2⟩
  | finishWithFlags f hf _ ih =>
    exact ⟨(putFlags_head ih.1 f).of_same (finish_head _), ih.2.1, hf⟩
  | reset _ ih => exact ih

theorem Used.version (h : Used v g b) : v = version1 ∨ v = version2 := by
  induction h with
  | new _ hv => exact hv
  | run _ _ ih => exact ih
  | finish _ ih => exact ih
  | finishWithFlags _ _ _ ih => exact ih
  | reset _ ih => exact ih

/-! ## Whether a program comes to its end -/

def Edit.Fits : Nat → List Edit → Prop
  | _, [] => True
  | pos, .extend bs :: es => Edit.Fits (pos + bs.length) es
  | pos, .patch i bs :: es => i + bs.length ≤ pos ∧ Edit.Fits pos es
  | pos, .root _ :: es => Edit.Fits pos es

theorem Edit.Fits.returns (h : Edit.Fits b.pos es) : ∃ b', es.foldlM Edit.apply b = .ok b' := by
  induction es generalizing b with
  | nil => exact ⟨b, rfl⟩
  | cons e es ih =>
    cases e with
    | extend bs => exact ih (b := b.extend bs) h
    | patch i bs =>
      obtain ⟨d, hd, hpos, -⟩ := b.patch_ok i bs h.1
      rw [List.foldlM_cons, Edit.apply, hd]
      exact ih (b := d) (by rw [hpos]; exact h.2)
    | root off => exact ih (b := { b with rootOffset := off }) h

/-- Every call but `SetBytes` reserves what it writes over. -/
theorem answer_returns {r : BuildReq} (h : ∀ ob f v, r ≠ .setBytes ob f v) : ∃ x, b.answer r = .ok x := by
  have hfits : Edit.Fits b.pos (r.edits b.pos) := by
    cases r with
    | setBytes ob f v => exact absurd rfl (h ob f v)
    | _ =>
      simp only [BuildReq.edits, BuildReq.edits.pad, BuildReq.edits.reserve, BuildReq.edits.words]
      try split_ifs
      all_goals simp [Edit.Fits]
      all_goals omega
  obtain ⟨d, hd⟩ := hfits.returns
  exact ⟨_, by rw [answer_eq, hd, go_bind_ok, go_pure]⟩

/-- `SetBytes` finds its field in the buffer, as long as it is once the bytes are appended. -/
def BuildReq.FitsAt (b : Builder) : BuildReq → Prop
  | .setBytes ob f v => ob.startPos + f + 8 ≤ (b.extend v).buf.length
  | _ => True

/-- Every call of the program finds its field in the buffer. -/
def Fits {α : Type} : Build α → Builder → Prop
  | .ret _, _ => True
  | .ask r k, b => r.FitsAt b ∧ ∀ x, b.answer r = .ok x → Fits (k x.1) x.2

/-- The two words of a `SetBytes` field are written if there is room for both, and else one of them faults. -/
theorem words_fit (b : Builder) {w u : List UInt8} (hw : w.length = 4) (hu : u.length = 4) :
    (i + 8 ≤ b.buf.length → ∃ d, [Edit.patch i w, .patch (i + 4) u].foldlM Edit.apply b = .ok d) ∧
      (¬i + 8 ≤ b.buf.length → [Edit.patch i w, .patch (i + 4) u].foldlM Edit.apply b = .error .outOfRange) := by
  simp only [List.foldlM_cons, List.foldlM_nil, Edit.apply]
  by_cases hfst : i + w.length ≤ b.buf.length
  · have hlen : (overwrite b.buf i w).length = b.buf.length := overwrite_length hfst
    rw [Builder.patch, dif_pos hfst]
    simp only [go_bind_ok, Builder.patch, hlen, hu]
    by_cases hsnd : i + 4 + 4 ≤ b.buf.length
    · rw [dif_pos hsnd]
      exact ⟨fun _ => ⟨_, rfl⟩, fun h => absurd hsnd h⟩
    · rw [dif_neg hsnd]
      exact ⟨fun h => absurd h hsnd, fun _ => rfl⟩
  · rw [Builder.patch, dif_neg hfst]
    exact ⟨fun h => absurd (by omega) hfst, fun _ => rfl⟩

theorem answer_fits (b : Builder) (r : BuildReq) :
    (r.FitsAt b → ∃ x, b.answer r = .ok x) ∧ (¬r.FitsAt b → b.answer r = .error .outOfRange) := by
  cases r with
  | setBytes ob f v =>
    obtain ⟨hok, hbad⟩ := words_fit (b.extend v) (i := ob.startPos + f)
      (w := if v.length = 0 then le 4 0 else relWord b.pos (ob.startPos + f)) (u := le 4 v.length)
      (by split_ifs <;> simp) (le_length _ _)
    rw [answer_eq]
    constructor
    · intro h
      obtain ⟨d, hd⟩ := hok h
      exact ⟨((), d), congrArg (fun z : Go Builder => do return ((), ← z)) hd⟩
    · intro h
      exact congrArg (fun z : Go Builder => do return ((), ← z)) (hbad h)
  | _ => exact ⟨fun _ => answer_returns (by simp), fun h => absurd trivial h⟩

/-- **A program comes to its end, or faults, as its calls fit.** -/
theorem run_fits (p : Build α) (b : Builder) :
    (Fits p b → ∃ x, Builder.run p b = .ok x) ∧ (¬Fits p b → Builder.run p b = .error .outOfRange) := by
  induction p generalizing b with
  | ret a => exact ⟨fun _ => ⟨_, rfl⟩, fun h => absurd trivial h⟩
  | ask r k ih =>
    by_cases hr : r.FitsAt b
    · obtain ⟨x, hx⟩ := (answer_fits b r).1 hr
      -- behind a call that fits, the program fits as what it goes on with does
      have hrest : Fits (.ask r k) b ↔ Fits (k x.1) x.2 := by
        refine ⟨fun h => h.2 x hx, fun h => ⟨hr, fun y hy => ?_⟩⟩
        obtain rfl : x = y := Except.ok.inj (hx.symm.trans hy)
        exact h
      rw [hrest, Builder.run, hx, go_bind_ok]
      exact ih x.1 x.2
    · refine ⟨fun h => absurd h.1 hr, fun _ => ?_⟩
      rw [Builder.run, (answer_fits b r).2 hr]
      rfl

theorem fits_iff : Fits p b ↔ ∃ x, Builder.run p b = .ok x := by
  refine ⟨(run_fits p b).1, fun ⟨x, hx⟩ => ?_⟩
  by_contra h
  rw [(run_fits p b).2 h] at hx
  cases hx

/-! ## A builder out of the pool -/

/-- A build: run the program, then `FinishWithFlags` with the given flags, or `Finish`. -/
def build {α : Type} (p : Build α) (flags : Option Nat) (b : Builder) : Go (List UInt8) := do
  let x ← Builder.run p b
  match flags with
  | none => return x.2.finish.1
  | some f => return (x.2.finishWithFlags f).1

/-- `Reset`, by the buffer of the builder: everything else is set. -/
def Builder.ofBuffer (buf : List UInt8) (h : headerSize ≤ buf.length) : Builder where
  buf := buf
  pos := headerSize
  rootOffset := 0
  past_header := Nat.le_refl _
  fits := h

/-- A build on a builder out of the pool, by the buffer it came with. A buffer shorter than a header (a
`Builder{}` that nothing was built with) stays so, because `grow` slices `b.buf[:b.pos]` before it replaces
it; the `b.buf[12:16]` of `Finish` then faults, if no call before it has. -/
def buildPooled {α : Type} (p : Build α) (flags : Option Nat) (buf : List UInt8) : Go (List UInt8) :=
  if h : headerSize ≤ buf.length then build p flags (Builder.ofBuffer buf h) else .error .outOfRange

/-- The buffer begins with the magic and version 2, and holds no flags where the build writes none. -/
def CleanHead (flags : Option Nat) (buf : List UInt8) : Prop :=
  buf.take 6 = magic ++ le 2 version2 ∧ (flags.isSome ∨ (buf.drop 6).take 2 = le 2 0)

theorem cleanHead_none {buf : List UInt8} (h : headerSize ≤ buf.length) :
    buf.take 8 = head version2 0 ↔ CleanHead none buf := by
  have h16 : headerSize = 16 := rfl
  have hsplit : buf.take (6 + 2) = buf.take 6 ++ (buf.drop 6).take 2 := List.take_add
  have hlen : (buf.take 6).length = (magic ++ le 2 version2).length := by
    rw [List.length_take]
    simp only [List.length_append, le_length, magic, List.length_cons, List.length_nil]
    omega
  rw [show (8 : Nat) = 6 + 2 from rfl, hsplit, head, ← List.append_assoc, CleanHead]
  simp only [Option.isSome_none, Bool.false_eq_true, false_or]
  exact ⟨fun heq => append_split hlen heq, fun h => by rw [h.1, h.2]⟩

/-- The head of a builder a constructor made is clean by its version and the flags it was last given. -/
theorem Used.clean_iff (h : Used v g b) (flags : Option Nat) :
    CleanHead flags b.buf ↔ v = version2 ∧ (flags.isSome ∨ g = 0) := by
  obtain ⟨hhead, hv, hg⟩ := h.head
  have hver : magic ++ le 2 v = magic ++ le 2 version2 ↔ v = version2 := by
    have := head_inj hv (show 0 < 2 ^ 16 by decide) (show version2 < 2 ^ 16 by decide) (show 0 < 2 ^ 16 by decide)
    simpa [Wire.head] using this
  have hflags : le 2 g = le 2 0 ↔ g = 0 := by
    have := head_inj (show 0 < 2 ^ 16 by decide) hg (show 0 < 2 ^ 16 by decide) (show 0 < 2 ^ 16 by decide)
    simpa [Wire.head] using this
  rw [CleanHead, hhead.parts.1, hhead.parts.2, hver, hflags]

/-- Of two builds that agree on the body, one of them on a new builder: the messages are equal exactly
when the other's buffer was clean. -/
theorem build_eq_iff {capacity : Nat} {flags : Option Nat} {x y : α × Builder}
    (h : SameBody (newBuilder capacity version2) b)
    (hx : Builder.run p (newBuilder capacity version2) = .ok x) (hy : Builder.run p b = .ok y) :
    build p flags b = build p flags (newBuilder capacity version2) ↔ CleanHead flags b.buf := by
  have htog := run_together h hx hy
  have hfresh : x.2.Head version2 0 := (newBuilder_head _ _).of_same htog.left
  have hused : y.2.buf.take 8 = b.buf.take 8 := sameHead_iff.mp htog.right
  unfold build
  rw [hx, hy, go_bind_ok, go_bind_ok]
  cases flags with
  | none =>
    simp only [go_pure, Except.ok.injEq]
    rw [finish_eq_iff htog.body.symm, sameHead_iff, hused, hfresh, cleanHead_none b.room]
  | some f =>
    have hsix : y.2.buf.take 6 = b.buf.take 6 := by
      have := congrArg (List.take 6) hused
      rwa [List.take_take, List.take_take] at this
    simp only [go_pure, Except.ok.injEq]
    rw [Builder.finishWithFlags, Builder.finishWithFlags, finish_eq_iff (htog.body.symm.putFlags f), sameHead_iff,
      putFlags_take, putFlags_take, hsix, hfresh.parts.1, List.append_cancel_right_eq, CleanHead]
    simp

theorem build_fault {flags : Option Nat} (h : ¬Fits p b) : build p flags b = .error .outOfRange := by
  rw [build, (run_fits p b).2 h]
  rfl

theorem build_returns (flags : Option Nat) (h : Fits p b) : build p flags b ≠ .error .outOfRange := by
  obtain ⟨x, hx⟩ := (run_fits p b).1 h
  rw [build, hx, go_bind_ok]
  cases flags <;> simp

theorem sameBody_ofBuffer (capacity : Nat) {buf : List UInt8} (h : headerSize ≤ buf.length) :
    SameBody (newBuilder capacity version2) (Builder.ofBuffer buf h) :=
  ⟨rfl, rfl, fun _ hlo hk => absurd hk (Nat.not_lt.mpr hlo)⟩

/-- **A reused builder against a new one.**  Whatever buffer the builder brings along, its build ends as the
new builder's does, in the same bytes or in the same fault, exactly when the program fits both or neither,
and, where it fits, the head is clean: version 2, and no old flags unless new ones are written. -/
theorem reuse_eq_fresh {α : Type} (buf : List UInt8) (capacity : Nat) (p : Build α) (flags : Option Nat) :
    (buildPooled p flags buf = build p flags (newBuilder capacity version2) ↔
      ((∃ h, Fits p (Builder.ofBuffer buf h)) ↔ Fits p (newBuilder capacity version2)) ∧
        (Fits p (newBuilder capacity version2) → CleanHead flags buf)) ∧
    (∀ v g b, Used v g b → b.buf = buf → (CleanHead flags buf ↔ v = version2 ∧ (flags.isSome ∨ g = 0))) := by
  refine ⟨?_, ?_⟩
  · by_cases hnew : Fits p (newBuilder capacity version2)
    · simp only [hnew, iff_true, true_imp_iff]
      by_cases hold : ∃ h, Fits p (Builder.ofBuffer buf h)
      · -- both builds return, and only their heads can differ
        obtain ⟨h, hfits⟩ := hold
        obtain ⟨x, hx⟩ := (run_fits p _).1 hnew
        obtain ⟨y, hy⟩ := (run_fits p _).1 hfits
        rw [buildPooled, dif_pos h, build_eq_iff (sameBody_ofBuffer capacity h) hx hy]
        exact ⟨fun hclean => ⟨⟨h, hfits⟩, hclean⟩, And.right⟩
      · refine ⟨fun heq => absurd ?_ (build_returns flags hnew), fun hcond => absurd hcond.1 hold⟩
        rw [← heq, buildPooled]
        split_ifs with h
        · exact build_fault fun hfits => hold ⟨h, hfits⟩
        · rfl
    · -- the new builder faults, so the other one has to
      simp only [hnew, iff_false, false_imp_iff, and_true]
      rw [build_fault hnew, buildPooled]
      split_ifs with h
      · refine ⟨fun heq hold => absurd heq (build_returns _ hold.2), fun hold => ?_⟩
        exact build_fault fun hfits => hold ⟨h, hfits⟩
      · exact ⟨fun _ hold => h hold.1, fun _ => rfl⟩
  · rintro v g b hb rfl
    exact hb.clean_iff flags

def note (n : Nat) (text : List UInt8) : Build Unit := do
  let ob ← Prog.request (S := buildSig) (.startObject 16)
  Prog.request (S := buildSig) (.setUint .w32 ob 0 n)
  Prog.request (S := buildSig) (.setBytes ob 8 text)
  Prog.request (S := buildSig) (.finishAsRoot ob)

def loose : Build Unit := do
  let ob ← Prog.request (S := buildSig) (.startObject 0)
  Prog.request (S := buildSig) (.setBytes ob 0 [])

def flagged : Builder := ((newBuilder 16 version2).finishWithFlags 0x0100).2

/-- The builder of two messages, the first with flags. -/
def worn : Go Builder := do
  let x ← Builder.run (note 9 [1, 2, 3, 4, 5]) (newBuilder 16 version2)
  let y ← Builder.run (note 8 [6]) (x.2.finishWithFlags 0x0100).2.reset
  return (y.2.finishWithFlags 0).2

theorem worn_used : ∃ b, worn = .ok b ∧ Used version2 0 b ∧ b.pos = 33 :=
  ⟨_, rfl, .finishWithFlags 0 (by decide) (.run (p := note 8 [6]) (.reset (.finishWithFlags 0x0100 (by decide)
    (.run (p := note 9 [1, 2, 3, 4, 5]) (.new 16 (.inr rfl)) rfl))) rfl), rfl⟩

/-- The next message of the first, empty and finished without flags, still carries them; a builder made for version 1
that comes back from the pool makes a message of version 1; a `Builder{}` does not finish; and a program
whose field is in no section faults on a new builder and not on one that has grown. -/
theorem stale_head :
    Used version2 0x0100 flagged ∧
    build (pure ()) none (newBuilder 16 version2) =
      .ok [0x5A, 0x41, 0x50, 0, 2, 0, 0, 0, 0, 0, 0, 0, 16, 0, 0, 0] ∧
    build (pure ()) none flagged.reset =
      .ok [0x5A, 0x41, 0x50, 0, 2, 0, 0, 1, 0, 0, 0, 0, 16, 0, 0, 0] ∧
    Used version1 0 (newBuilder 16 version1) ∧
    build (pure ()) none (newBuilder 16 version1).reset =
      .ok [0x5A, 0x41, 0x50, 0, 1, 0, 0, 0, 0, 0, 0, 0, 16, 0, 0, 0] ∧
    buildPooled (pure ()) none [] = .error .outOfRange ∧
    build loose (some 0) (newBuilder 16 version2) = .error .outOfRange ∧
    ∃ b bytes, worn = .ok b ∧ build loose (some 0) b.reset = .ok bytes :=
  ⟨.finishWithFlags _ (by decide) (.new 16 (.inr rfl)), rfl, rfl, .new 16 (.inl rfl), rfl, rfl, rfl, _, _, rfl, rfl⟩

/-- A builder that has made two messages, the first of them flagged, makes the note a new one makes. -/
theorem reuse_sample :
    ∃ b bytes, worn = .ok b ∧ Used version2 0 b ∧ buildPooled (note 7 [1, 2, 3]) none b.buf = .ok bytes ∧
      build (note 7 [1, 2, 3]) none (newBuilder 16 version2) = .ok bytes := by
  obtain ⟨b, hworn, hused, -⟩ := worn_used
  obtain ⟨heq, hclean⟩ := reuse_eq_fresh b.buf 16 (note 7 [1, 2, 3]) none
  have hnew : Fits (note 7 [1, 2, 3]) (newBuilder 16 version2) := fits_iff.mpr ⟨_, rfl⟩
  have hold : ∃ h, Fits (note 7 [1, 2, 3]) (Builder.ofBuffer b.buf h) := by
    cases hworn
    exact ⟨by decide, fits_iff.mpr ⟨_, rfl⟩⟩
  refine ⟨b, _, hworn, hused, (heq.mpr ⟨iff_of_true hold hnew, fun _ => ?_⟩).trans rfl, rfl⟩
  exact (hclean _ _ b hused rfl).mpr ⟨rfl, .inr rfl⟩

end Zap.Wire
