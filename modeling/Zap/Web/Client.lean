/-
# Zap.Web.Client — the browser client: `ZapWebClient` of `client.ts`.

A call takes the next number, registers its promise under the number as an id, and sends its frame; a frame that
comes in settles the promise under its id, and `onclose` those that are left. JavaScript runs one handler at a
time, so a run is a list of events.

Nothing looks at the state of the socket. A call that is made when `onclose` has fired registers a promise that
nothing is left to settle: its frame is dropped, and no frame comes in any more.
-/
import Mathlib.Data.List.Infix
import Zap.Wire.Message

namespace Zap.Web

open Zap.Lib Zap.Wire

/-! ## The client -/

inductive Event
  | call (procedure : List UInt8)
  | message (data : List UInt8)
  | close

/-- What a frame rejects a promise with. -/
inductive ReplyError
  | server (text : List UInt8)
  | unexpected (flag : Nat)
  | wire (e : WireError)

inductive Settlement
  | frame (data : List UInt8) (reply : Except ReplyError (Option Message))
  | closed

/-- A promise is named by the number of its call; its id is the number as a word. -/
structure State where
  reqID : Nat := 0
  /-- Promises that were rejected on the spot: `procedureOpcode` threw. -/
  refused : Nat := 0
  pending : List Nat := []
  settled : List (Nat × Settlement) := []

def reply (data : List UInt8) : Except ReplyError (Option Message) :=
  let flag := ofLE (window data 4 4)
  let payload := data.drop 8
  if flag = 3 then .error (.server payload)
  else if flag = 2 then
    if payload.length = 0 then .ok none else (parse payload).map some |>.mapError .wire
  else .error (.unexpected flag)

def State.step (σ : State) : Event → State
  | .call procedure =>
    if procedure = [] then { σ with refused := σ.refused + 1 }
    else
      { σ with
        reqID := σ.reqID + 1
        pending := σ.pending.filter (· % 2 ^ 32 ≠ (σ.reqID + 1) % 2 ^ 32) ++ [σ.reqID + 1] }
  | .message data =>
    if data.length < 8 then σ
    else
      match σ.pending.find? (· % 2 ^ 32 = ofLE (window data 0 4)) with
      | none => σ
      | some n =>
        { σ with
          pending := σ.pending.filter (· % 2 ^ 32 ≠ ofLE (window data 0 4))
          settled := σ.settled ++ [(n, .frame data (reply data))] }
  | .close => { σ with pending := [], settled := σ.settled ++ σ.pending.map (·, .closed) }

def run (evs : List Event) : State := evs.foldl State.step {}

/-- Promises are settled at most once, by a frame with their own id or by the close, and all of them once the
connection has closed. -/
structure State.Settles (σ : State) (closed : Prop) : Prop where
  none_refused : σ.refused = 0
  once : (σ.settled.map Prod.fst).Nodup
  own : ∀ n data r, (n, .frame data r) ∈ σ.settled → ofLE (window data 0 4) = n % 2 ^ 32
  all : closed → ∀ n, 1 ≤ n → n ≤ σ.reqID → n ∈ σ.settled.map Prod.fst

/-! ## Runs -/

/-- The numbers given out are those settled and those registered, each once. -/
structure State.Inv (σ : State) : Prop where
  numbers : (σ.settled.map Prod.fst ++ σ.pending).Perm (List.range' 1 σ.reqID)
  own : ∀ n data r, (n, .frame data r) ∈ σ.settled → ofLE (window data 0 4) = n % 2 ^ 32

theorem State.Inv.step {σ : State} (h : σ.Inv) (e : Event) (hlt : σ.reqID < 2 ^ 32)
    (hlt' : (σ.step e).reqID < 2 ^ 32) : (σ.step e).Inv := by
  have hle : ∀ n ∈ σ.pending, n ≤ σ.reqID := by
    intro n hn
    have := List.mem_range'_1.mp (h.numbers.subset (List.mem_append_right _ hn))
    omega
  cases e with
  | call procedure =>
    simp only [State.step] at hlt' ⊢
    split_ifs at hlt' ⊢
    · exact ⟨h.numbers, h.own⟩
    -- the number is new, so nothing is registered under its id
    change σ.reqID + 1 < 2 ^ 32 at hlt'
    refine ⟨?_, h.own⟩
    rw [List.filter_eq_self.mpr, ← List.append_assoc, List.range'_1_concat, Nat.add_comm 1]
    · exact h.numbers.append_right _
    · intro n hn
      have := hle n hn
      simp only [ne_eq, decide_not, Bool.not_eq_true', decide_eq_false_iff_not]
      omega
  | message data =>
    simp only [State.step]
    split_ifs
    · exact h
    cases hfind : σ.pending.find? (· % 2 ^ 32 = ofLE (window data 0 4)) with
    | none => exact h
    | some n =>
      have hn := List.mem_of_find?_eq_some hfind
      have hid : n % 2 ^ 32 = ofLE (window data 0 4) := by simpa using List.find?_some hfind
      have hnodup := (List.nodup_append.mp (h.numbers.nodup_iff.mpr List.nodup_range')).2.1
      have herase : σ.pending.filter (· % 2 ^ 32 ≠ ofLE (window data 0 4)) = σ.pending.erase n := by
        rw [hnodup.erase_eq_filter]
        refine List.filter_congr fun m hm => ?_
        have h1 := hle m hm
        have h2 := hle n hn
        rw [← hid, Nat.mod_eq_of_lt (show m < 2 ^ 32 by omega), Nat.mod_eq_of_lt (show n < 2 ^ 32 by omega)]
        simp only [ne_eq, decide_not, bne]
        rfl
      constructor
      · refine .trans ?_ h.numbers
        rw [herase, List.map_append, List.append_assoc]
        exact .append_left _ (List.perm_cons_erase hn).symm
      intro k d r hmem
      rcases List.mem_append.mp hmem with hold | hnew
      · exact h.own k d r hold
      · cases List.mem_singleton.mp hnew
        exact hid.symm
  | close =>
    constructor
    · simpa [State.step, Function.comp_def] using h.numbers
    · intro n data r hmem
      refine h.own n data r ((List.mem_append.mp hmem).resolve_right fun hnew => ?_)
      obtain ⟨p, -, hp⟩ := List.mem_map.mp hnew
      cases hp

/-- Whoever is registered is not settled. -/
theorem State.Inv.settles_iff {σ : State} (h : σ.Inv) (closed : Prop) :
    σ.Settles closed ↔ σ.refused = 0 ∧ (closed → σ.pending = []) := by
  have hnodup := List.nodup_append.mp (h.numbers.nodup_iff.mpr List.nodup_range')
  constructor
  · intro hs
    refine ⟨hs.none_refused, fun hc => List.eq_nil_iff_forall_not_mem.mpr fun n hn => ?_⟩
    have hin := List.mem_range'_1.mp (h.numbers.subset (List.mem_append_right _ hn))
    exact hnodup.2.2 n (hs.all hc n hin.1 (by omega)) n hn rfl
  · rintro ⟨hrefused, hpending⟩
    refine ⟨hrefused, hnodup.1, h.own, fun hc n h1 hn => ?_⟩
    have hmem := h.numbers.symm.subset (List.mem_range'_1.mpr ⟨h1, by omega⟩)
    rwa [hpending hc, List.append_nil] at hmem

theorem State.step_quiet_iff {σ : State} {closed : Prop} (h0 : σ.refused = 0) (hc : closed → σ.pending = [])
    (e : Event) :
    (σ.step e).refused = 0 ∧ (closed ∨ e = .close → (σ.step e).pending = []) ↔
      e ≠ .call [] ∧ (closed → ∀ p, e ≠ .call p) := by
  cases e with
  | call p => by_cases hp : p = [] <;> simp [State.step, hp, h0]
  | message data =>
    refine iff_of_true ⟨?_, ?_⟩ ⟨by simp, by simp⟩
    · simp only [State.step]
      split_ifs
      · exact h0
      · split <;> exact h0
    · rintro (h | h)
      · simp [State.step, hc h]
      · cases h
  | close => simp [State.step, h0]

/-- **When calls settle**, as long as there are fewer than `2 ^ 32` of them: exactly if each has a procedure and
none is made after the connection has closed. -/
theorem calls_settle_iff {evs : List Event} (hlt : ∀ pre, pre <+: evs → (run pre).reqID < 2 ^ 32) :
    (∀ pre, pre <+: evs → (run pre).Settles (.close ∈ pre)) ↔
      (∀ e ∈ evs, e ≠ .call []) ∧ evs.Pairwise fun a b => a = .close → ∀ p, b ≠ .call p := by
  -- together with the invariant, event by event
  suffices hind : (run evs).Inv ∧ ((∀ pre, pre <+: evs → (run pre).Settles (.close ∈ pre)) ↔
      (∀ e ∈ evs, e ≠ .call []) ∧ evs.Pairwise fun a b => a = .close → ∀ p, b ≠ .call p) from hind.2
  induction evs using List.reverseRecOn with
  | nil =>
    have hinv : (run []).Inv := ⟨.refl _, fun _ _ _ h => by cases h⟩
    refine ⟨hinv, iff_of_true (fun pre hpre => ?_) ⟨by simp, .nil⟩⟩
    rw [List.prefix_nil.mp hpre, hinv.settles_iff]
    exact ⟨rfl, fun _ => rfl⟩
  | append_singleton evs e ih =>
    obtain ⟨hinv, ih⟩ := ih fun pre hpre => hlt pre (hpre.trans (List.prefix_append ..))
    have hrun : run (evs ++ [e]) = (run evs).step e := List.foldl_append ..
    have hlt' := hlt _ (List.prefix_refl _)
    rw [hrun] at hlt'
    have hinv' := hinv.step e (hlt evs (List.prefix_append ..)) hlt'
    refine ⟨hrun ▸ hinv', ?_⟩
    calc (∀ pre, pre <+: evs ++ [e] → (run pre).Settles (.close ∈ pre))
        ↔ (∀ pre, pre <+: evs → (run pre).Settles (.close ∈ pre)) ∧
          (run (evs ++ [e])).Settles (.close ∈ evs ++ [e]) := by
          simp only [List.prefix_concat_iff, or_imp, forall_and, forall_eq, and_comm]
      _ ↔ (∀ pre, pre <+: evs → (run pre).Settles (.close ∈ pre)) ∧
          e ≠ .call [] ∧ (.close ∈ evs → ∀ p, e ≠ .call p) := by
          refine and_congr_right fun hold => ?_
          obtain ⟨h0, hc⟩ := (hinv.settles_iff _).mp (hold evs (List.prefix_refl _))
          rw [hrun, hinv'.settles_iff, List.mem_append, List.mem_singleton, eq_comm (a := Event.close),
            State.step_quiet_iff h0 hc]
      _ ↔ _ := by
          have hlate : (.close ∈ evs → ∀ p, e ≠ .call p) ↔ ∀ a ∈ evs, a = .close → ∀ p, e ≠ .call p :=
            ⟨fun h a ha hac => h (hac ▸ ha), fun h hc => h _ hc rfl⟩
          rw [ih, hlate, List.pairwise_append]
          simp [or_imp, forall_and]
          tauto

theorem calls_settle_before_close :
    (run [.call [97], .close]).Settles (.close ∈ [Event.call [97], .close]) := by
  refine (@calls_settle_iff [.call [97], .close] fun pre hpre => ?_).mpr ⟨by simp, by simp⟩ _ (List.prefix_refl _)
  have hmem : pre ∈ [[], [.call [97]], [.call [97], .close]] := (List.mem_inits _ _).mpr hpre
  simp only [List.mem_cons, List.not_mem_nil, or_false] at hmem
  rcases hmem with rfl | rfl | rfl <;> decide

theorem late_call_hangs : (run [.close, .call [97]]).pending = [1] ∧ ¬(run [.close, .call [97]]).Settles True := by
  refine ⟨rfl, fun h => ?_⟩
  exact absurd (h.all trivial 1 (by decide) (by decide)) (by decide)

end Zap.Web
