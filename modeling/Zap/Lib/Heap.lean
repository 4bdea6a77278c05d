/-
# Zap.Lib.Heap — what has been written into a byte string that grows and is patched.

A serializer that reserves a section for an object, fills the slots of the section later and puts strings
and arrays behind it leaves three kinds of facts about its output: where the *sections* are, which *slots*
of them have been filled and with what, and which stretches are *frozen*, written once and never patched.
A `Heap` is a list of such facts and `Rep H lo d` says that the byte string `d` bears them out and that no
two of them compete for a byte.

The rules are one per kind of step: the string is appended to (`Rep.append`), a section is reserved
(`Rep.reserve`), a string is frozen (`Rep.freeze`), a free slot of a section is filled (`Rep.fill`). A
heap only gains facts (`Heap.Le`), so what is stated about a heap by membership stays true; `Heap.Adds` also
says where the new slots are, which is what keeps other ranges free.
-/
import Mathlib.Data.List.Pairwise
import Zap.Lib.Buffer

namespace Zap.Lib

/-- A filled slot: `bytes` at offset `off` of the section that starts at `base`. -/
structure Slot where
  base : Nat
  off : Nat
  bytes : List UInt8

def Slot.At (base off n : Nat) (x : Slot) : Prop := x.base = base ∧ x.off = off ∧ x.bytes.length = n

/-- The slots of objects that start at or behind a position. -/
def Slot.Behind (pos : Nat) (x : Slot) : Prop := pos ≤ x.base

/-- The facts about a byte string: sections by start and size, slots, and frozen strings by position. -/
structure Heap where
  sections : List (Nat × Nat)
  slots : List Slot
  frozen : List (Nat × List UInt8)

variable {bs : List UInt8} {n base off : Nat}

namespace Heap

def empty : Heap := ⟨[], [], []⟩

def reserve (H : Heap) (start size : Nat) : Heap := { H with sections := (start, size) :: H.sections }

def fill (H : Heap) (base off : Nat) (bytes : List UInt8) : Heap := { H with slots := ⟨base, off, bytes⟩ :: H.slots }

def freeze (H : Heap) (pos : Nat) (bytes : List UInt8) : Heap := { H with frozen := (pos, bytes) :: H.frozen }

/-- The range lies in a section and no slot of that section touches it. -/
def Free (H : Heap) (base off n : Nat) : Prop :=
  (∃ size, (base, size) ∈ H.sections ∧ off + n ≤ size) ∧
    ∀ x ∈ H.slots, x.base = base → Apart off n x.off x.bytes.length

/-- Every fact of the first heap is one of the second. -/
def Le (H K : Heap) : Prop := H.sections ⊆ K.sections ∧ H.slots ⊆ K.slots ∧ H.frozen ⊆ K.frozen

theorem Le.refl (H : Heap) : H.Le H := ⟨fun _ h => h, fun _ h => h, fun _ h => h⟩

variable {H K L : Heap} {P : Slot → Prop}

theorem Le.trans (h : H.Le K) (h' : K.Le L) : H.Le L :=
  ⟨fun _ x => h'.1 (h.1 x), fun _ x => h'.2.1 (h.2.1 x), fun _ x => h'.2.2 (h.2.2 x)⟩

theorem le_reserve (H : Heap) (start size : Nat) : H.Le (H.reserve start size) :=
  ⟨List.subset_cons_self _ _, fun _ h => h, fun _ h => h⟩

theorem le_fill (H : Heap) (base off : Nat) (bytes : List UInt8) : H.Le (H.fill base off bytes) :=
  ⟨fun _ h => h, List.subset_cons_self _ _, fun _ h => h⟩

theorem le_freeze (H : Heap) (pos : Nat) (bytes : List UInt8) : H.Le (H.freeze pos bytes) :=
  ⟨fun _ h => h, fun _ h => h, List.subset_cons_self _ _⟩

/-- The second heap has the facts of the first, and what it has more of slots satisfies `P`. -/
def Adds (H : Heap) (P : Slot → Prop) (K : Heap) : Prop := H.Le K ∧ ∀ x ∈ K.slots, x ∈ H.slots ∨ P x

theorem Adds.refl (H : Heap) (P : Slot → Prop) : H.Adds P H := ⟨Le.refl H, fun _ h => .inl h⟩

theorem Adds.trans (h : H.Adds P K) (h' : K.Adds P L) : H.Adds P L :=
  ⟨h.1.trans h'.1, fun x hx => (h'.2 x hx).elim (h.2 x) .inr⟩

theorem Adds.mono {Q : Slot → Prop} (h : H.Adds P K) (hpq : ∀ x, P x → Q x) : H.Adds Q K :=
  ⟨h.1, fun x hx => (h.2 x hx).imp id (hpq x)⟩

theorem adds_reserve (H : Heap) (P : Slot → Prop) (start size : Nat) : H.Adds P (H.reserve start size) :=
  ⟨H.le_reserve start size, fun _ h => .inl h⟩

theorem adds_freeze (H : Heap) (P : Slot → Prop) (pos : Nat) (bs : List UInt8) : H.Adds P (H.freeze pos bs) :=
  ⟨H.le_freeze pos bs, fun _ h => .inl h⟩

theorem adds_fill (H : Heap) (base off : Nat) (h : bs.length = n) :
    H.Adds (Slot.At base off n) (H.fill base off bs) := by
  refine ⟨H.le_fill base off bs, fun x hx => ?_⟩
  rcases List.mem_cons.mp hx with rfl | hx
  · exact .inr ⟨rfl, rfl, h⟩
  · exact .inl hx

theorem Free.adds (h : H.Free base off n) (hadds : H.Adds P K)
    (hp : ∀ x, P x → x.base = base → Apart off n x.off x.bytes.length) : K.Free base off n := by
  obtain ⟨⟨size, hsize, hle⟩, hfree⟩ := h
  refine ⟨⟨size, hadds.1.1 hsize, hle⟩, fun x hx hbase => ?_⟩
  rcases hadds.2 x hx with hold | hnew
  · exact hfree x hold hbase
  · exact hp x hnew hbase

end Heap

/-- The byte string bears out the facts: everything lies at or behind `lo` and inside the string, sections
are pairwise apart, slots lie in their sections, frozen strings in none. -/
structure Rep (H : Heap) (lo : Nat) (d : List UInt8) : Prop where
  section_in : ∀ s ∈ H.sections, lo ≤ s.1 ∧ 0 < s.2 ∧ s.1 + s.2 ≤ d.length
  section_apart : H.sections.Pairwise fun s t => Apart s.1 s.2 t.1 t.2
  slot_in : ∀ x ∈ H.slots, ∃ n, (x.base, n) ∈ H.sections ∧ x.off + x.bytes.length ≤ n
  slot_bytes : ∀ x ∈ H.slots, window d (x.base + x.off) x.bytes.length = x.bytes
  frozen_in : ∀ f ∈ H.frozen, lo ≤ f.1 ∧ f.1 + f.2.length ≤ d.length
  frozen_apart : ∀ f ∈ H.frozen, ∀ s ∈ H.sections, Apart f.1 f.2.length s.1 s.2
  frozen_bytes : ∀ f ∈ H.frozen, window d f.1 f.2.length = f.2

namespace Rep

variable {H : Heap} {lo : Nat} {d : List UInt8}

theorem empty (lo : Nat) (d : List UInt8) : Rep .empty lo d := ⟨nofun, .nil, nofun, nofun, nofun, nofun, nofun⟩

theorem section_eq_or_apart (h : Rep H lo d) {s t : Nat × Nat} (hs : s ∈ H.sections)
    (ht : t ∈ H.sections) : s = t ∨ Apart s.1 s.2 t.1 t.2 := by
  by_cases hne : s = t
  · exact .inl hne
  · have : Std.Symm fun s t : Nat × Nat => Apart s.1 s.2 t.1 t.2 := ⟨fun _ _ h => h.symm⟩
    exact .inr (h.section_apart.forall hs ht hne)

theorem slot_end (h : Rep H lo d) {x : Slot} (hx : x ∈ H.slots) :
    lo ≤ x.base ∧ x.base + x.off + x.bytes.length ≤ d.length := by
  obtain ⟨n, hn, hle⟩ := h.slot_in x hx
  have := h.section_in _ hn
  simp only at this
  omega

theorem append (h : Rep H lo d) (bs : List UInt8) : Rep H lo (d ++ bs) where
  section_in s hs := by
    have := h.section_in s hs
    rw [List.length_append]
    omega
  section_apart := h.section_apart
  slot_in := h.slot_in
  slot_bytes x hx := by
    have := h.slot_end hx
    rw [window_append_left (by omega), h.slot_bytes x hx]
  frozen_in f hf := by
    have := h.frozen_in f hf
    rw [List.length_append]
    omega
  frozen_apart := h.frozen_apart
  frozen_bytes f hf := by
    have := h.frozen_in f hf
    rw [window_append_left (by omega), h.frozen_bytes f hf]

theorem reserve (h : Rep H lo d) (hlo : lo ≤ d.length) (hn : 0 < n) :
    Rep (H.reserve d.length n) lo (d ++ List.replicate n 0) where
  section_in s hs := by
    rw [List.length_append, List.length_replicate]
    rcases List.mem_cons.mp hs with rfl | hs
    · exact ⟨hlo, hn, Nat.le_refl _⟩
    · have := h.section_in s hs
      omega
  section_apart := by
    refine List.pairwise_cons.mpr ⟨fun s hs => ?_, h.section_apart⟩
    exact .inr (h.section_in s hs).2.2
  slot_in x hx := by
    obtain ⟨m, hm, hle⟩ := h.slot_in x hx
    exact ⟨m, List.mem_cons_of_mem _ hm, hle⟩
  slot_bytes := (h.append _).slot_bytes
  frozen_in := (h.append _).frozen_in
  frozen_apart f hf s hs := by
    rcases List.mem_cons.mp hs with rfl | hs
    · exact .inl (h.frozen_in f hf).2
    · exact h.frozen_apart f hf s hs
  frozen_bytes := (h.append _).frozen_bytes

theorem freeze (h : Rep H lo d) (hlo : lo ≤ d.length) (bs : List UInt8) :
    Rep (H.freeze d.length bs) lo (d ++ bs) where
  section_in := (h.append _).section_in
  section_apart := h.section_apart
  slot_in := h.slot_in
  slot_bytes := (h.append _).slot_bytes
  frozen_in f hf := by
    rw [List.length_append]
    rcases List.mem_cons.mp hf with rfl | hf
    · exact ⟨hlo, Nat.le_refl _⟩
    · have := h.frozen_in f hf
      omega
  frozen_apart f hf s hs := by
    rcases List.mem_cons.mp hf with rfl | hf
    · exact .inr (h.section_in s hs).2.2
    · exact h.frozen_apart f hf s hs
  frozen_bytes f hf := by
    rcases List.mem_cons.mp hf with rfl | hf
    · rw [window_append_right rfl, List.take_length]
    · exact (h.append bs).frozen_bytes f hf

/-- **A free slot filled**: the write stays inside its section, so it meets neither a frozen string nor a
slot of another section, and it misses the slots of its own. -/
theorem fill (h : Rep H lo d) (hfree : H.Free base off bs.length) :
    Rep (H.fill base off bs) lo (overwrite d (base + off) bs) := by
  obtain ⟨⟨n, hn, hle⟩, hslots⟩ := hfree
  have hsec := h.section_in _ hn
  simp only at hsec
  have hfit : base + off + bs.length ≤ d.length := by omega
  refine ⟨fun s hs => ?_, h.section_apart, fun x hx => ?_, fun x hx => ?_, fun f hf => ?_,
    h.frozen_apart, fun f hf => ?_⟩
  · rw [overwrite_length hfit]
    exact h.section_in s hs
  · rcases List.mem_cons.mp hx with rfl | hx
    · exact ⟨n, hn, hle⟩
    · exact h.slot_in x hx
  · rcases List.mem_cons.mp hx with rfl | hx
    · exact window_overwrite_self hfit
    rw [window_overwrite_apart hfit, h.slot_bytes x hx]
    obtain ⟨m, hm, hxle⟩ := h.slot_in x hx
    rcases h.section_eq_or_apart hn hm with heq | hapart
    · have hbase : base = x.base := congrArg Prod.fst heq
      have := hslots x hx hbase.symm
      simp only [Apart] at this ⊢
      omega
    · simp only [Apart] at hapart ⊢
      omega
  · rw [overwrite_length hfit]
    exact h.frozen_in f hf
  · rw [window_overwrite_apart hfit, h.frozen_bytes f hf]
    have := h.frozen_apart f hf _ hn
    simp only [Apart] at this ⊢
    omega

theorem congr (h : Rep H lo d) {d' : List UInt8} (hlen : d'.length = d.length)
    (hw : ∀ p n, lo ≤ p → window d' p n = window d p n) : Rep H lo d' where
  section_in := by
    rw [hlen]
    exact h.section_in
  section_apart := h.section_apart
  slot_in := h.slot_in
  slot_bytes x hx := by
    rw [hw _ _ (Nat.le_trans (h.slot_end hx).1 (Nat.le_add_right _ _)), h.slot_bytes x hx]
  frozen_in := by
    rw [hlen]
    exact h.frozen_in
  frozen_apart := h.frozen_apart
  frozen_bytes f hf := by rw [hw _ _ (h.frozen_in f hf).1, h.frozen_bytes f hf]

end Rep

end Zap.Lib
