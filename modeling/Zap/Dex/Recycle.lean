/-
# Zap.Dex.Recycle — poll results after their reply is released (`watch.go`, `v4route.go`).

`Poll` decodes the reply and releases it on return, so whatever is made of the status is made after the reply's
slab went back to the pool. The slab may hold anything from then on. A status is copied out of it field by field
except for its reason, which still refers to the slab, so the question is only what the reason is used for.
-/
import Zap.Dex.V4

namespace Zap.Dex

open Zap.Lib Zap.Lib.Proc Zap.Wire

/-! ## A string over a recycled buffer -/

def TextView.textIn (mem : List UInt8) : TextView → Str
  | none => []
  | some s => window mem s.start s.bytes.length

/-- What `f` makes of the string is the same whatever `n` bytes its buffer holds later. -/
def TextView.Kept {β : Type} (t : TextView) (n : Nat) (f : Str → β) : Prop :=
  ∀ mem : List UInt8, mem.length = n → f (t.textIn mem) = f t.text

/-- The string is a part of `d`, and not an empty one. -/
def TextView.Over (t : TextView) (d : List UInt8) : Prop := ∀ s, t = some s → s.Inside d ∧ s.bytes ≠ []

variable {d : List UInt8}

theorem slice_inside {lo hi : Int} {s : Span} (h : slice d lo hi = .ok s) : s.Inside d := by
  simp only [slice] at h
  split_ifs at h with hc
  cases h
  exact span_inside (by omega)

theorem past_guard {c : Prop} [Decidable c] {x : Go (Option Span)} {s : Span}
    (h : (if c then .ok none else x) = .ok (some s)) : x = .ok (some s) := by
  split_ifs at h with hc
  · cases h
  · exact h

variable {m : Message}

theorem Object.bytes_inside {a : Nat} {off : Int} {s : Span}
    (h : (m.objectAt a).bytes off = .ok (some s)) : s.Inside m.data := by
  simp only [Object.bytes, Message.objectAt, dataOf, go_bind_ok, go_pure] at h
  obtain ⟨rel, -, h⟩ := go_bind_eq_ok.mp (past_guard h)
  obtain ⟨len, -, h⟩ := go_bind_eq_ok.mp (past_guard (past_guard h))
  obtain ⟨x, hx, h⟩ := go_bind_eq_ok.mp (past_guard (past_guard h))
  cases h
  exact slice_inside hx

theorem text_over {off : Int} {t : TextView} (h : m.root.text off = .ok t) : t.Over m.data := by
  rintro s rfl
  obtain ⟨b, hb, h⟩ := go_bind_eq_ok.mp h
  cases b with
  | none => cases h
  | some b =>
    simp only [go_pure] at h
    have hlen : b.bytes.length ≠ 0 := fun hlen => by
      rw [if_pos hlen] at h
      cases h
    obtain ⟨-, -, h⟩ := go_bind_eq_ok.mp (past_guard h)
    cases h
    exact ⟨Object.bytes_inside hb, fun h => hlen (by rw [h]; rfl)⟩

namespace TextView

variable {t : TextView} {d : List UInt8} {β : Type} {f : Str → β}

/-- A string that is there can come to read as another one. -/
theorem Over.other (ht : t.Over d) (hne : t.text ≠ []) :
    ∃ mem : List UInt8, mem.length = d.length ∧ t.textIn mem ≠ [] ∧ t.textIn mem ≠ t.text := by
  cases t with
  | none => exact absurd rfl hne
  | some s =>
    obtain ⟨⟨-, hbytes⟩, hs⟩ := ht s rfl
    refine ⟨d.map (· + 1), List.length_map _, ?_⟩
    have hwindow : textIn (d.map (· + 1)) (some s) = s.bytes.map (· + 1) := by
      simp only [textIn, window, ← List.map_drop, ← List.map_take]
      rw [← window, ← hbytes]
    rw [hwindow]
    refine ⟨fun h => hs (List.map_eq_nil_iff.mp h), fun h => ?_⟩
    obtain ⟨b, rest, hcons⟩ := List.exists_cons_of_ne_nil hs
    have hall : s.bytes.map (· + 1) = s.bytes := h
    rw [hcons, List.map_cons] at hall
    have hb : b + 1 = b := (List.cons.inj hall).1
    grind

theorem Over.textIn_of_empty (ht : t.Over d) (h : t.text = []) (mem : List UInt8) : t.textIn mem = t.text := by
  cases t with
  | none => rfl
  | some s => exact absurd h (ht s rfl).2

theorem Over.kept_iff (ht : t.Over d) (hf : ∀ x y, x ≠ [] → y ≠ [] → f x = f y → x = y) :
    t.Kept d.length f ↔ t.text = [] := by
  constructor
  · intro h
    by_contra hne
    obtain ⟨mem, hmem, hother, hdiff⟩ := ht.other hne
    exact hdiff (hf _ _ hother hne (h mem hmem))
  · intro h mem _
    rw [ht.textIn_of_empty h mem]

theorem Over.kept_if {p : Prop} (ht : t.Over d) (hshown : p → ∀ x y, x ≠ [] → y ≠ [] → f x = f y → x = y)
    (hhidden : ¬p → ∀ x y, f x = f y) : t.Kept d.length f ↔ (p → t.text = []) := by
  by_cases hp : p
  · rw [ht.kept_iff (hshown hp)]
    exact ⟨fun h _ => h, fun h => h hp⟩
  · exact ⟨fun _ h => absurd h hp, fun _ mem _ => hhidden hp _ _⟩

end TextView

/-! ## What the loops make of a reason -/

theorem orElse_inj {x y : Str} {default : String} (hx : x ≠ []) (hy : y ≠ [])
    (h : orElse x default = orElse y default) : x = y := by
  simpa only [orElse, if_neg hx, if_neg hy] using h

variable {st : IntentStatus TextView}

theorem committedNext_kept {id : ID} (ht : st.reason.Over d) :
    st.reason.Kept d.length (fun x => committedNext id { st with reason := x }) ↔
      (st.phase = phaseRejected → st.reason.text = []) := by
  refine ht.kept_if (fun hp x y hx hy h => ?_) fun hp x y => ?_
  · have hc : ¬phaseRejected = phaseCommitted := by decide
    simp only [committedNext, hp, if_neg hc, if_true, Option.some.injEq, Except.error.injEq,
      DexError.rejected.injEq, List.append_cancel_left_eq] at h
    exact orElse_inj hx hy h
  · simp only [committedNext, if_neg hp]

theorem V4SwapSession.events_kept {v : V4SwapSession} {imported : Bool}
    (ht : st.reason.Over d) :
    st.reason.Kept d.length (fun x => v.events imported { st with reason := x }) ↔
      (st.phase = phaseRejected → st.reason.text = []) := by
  refine ht.kept_if (fun hp x y hx hy h => ?_) fun hp x y => ?_
  · have hm : ¬phaseRejected = phaseMatching := by decide
    have hc : ¬phaseRejected = phaseCommitted := by decide
    simp only [V4SwapSession.events, hp, if_neg hm, if_neg hc, if_true, Prod.mk.injEq, List.cons.injEq,
      V4Event.mk.injEq, Reason.text.injEq, true_and, and_true] at h
    exact orElse_inj hx hy h
  · simp only [V4SwapSession.events, if_neg hp]

theorem RouteWatch.finalNext_kept {w : RouteWatch} {st : RouteStatus TextView}
    (ht : st.reason.Over d) : st.reason.Kept d.length (fun x => w.finalNext { st with reason := x }) ↔
      (st.phase = routeRejected → st.reason.text = []) := by
  refine ht.kept_if (fun hp x y hx hy h => ?_) fun hp x y => ?_
  · have hc : ¬(routeRejected = routeCommitted ∨ routeRejected = routeRefunded) := by decide
    simp only [RouteWatch.finalNext, hp, if_neg hc, if_true, Option.some.injEq, Except.error.injEq,
      DexError.rejected.injEq, List.append_cancel_left_eq] at h
    exact orElse_inj hx hy h
  · simp only [RouteWatch.finalNext, if_neg hp]

/-- A refund shows its reason too. -/
theorem V4RouteSession.events_kept {v : V4RouteSession} {lastHop : Option UInt32} {st : RouteStatus TextView}
    (ht : st.reason.Over d) :
    st.reason.Kept d.length (fun x => v.events lastHop { st with reason := x }) ↔
      (st.phase = routeRefunded ∨ st.phase = routeRejected → st.reason.text = []) := by
  refine ht.kept_if (fun hp x y hx hy h => ?_) fun hp x y => ?_
  · rcases hp with hp | hp
    · have hh : ¬routeRefunded = routeHopping := by decide
      have hc : ¬routeRefunded = routeCommitted := by decide
      simpa only [V4RouteSession.events, hp, if_neg hh, if_neg hc, if_true, Prod.mk.injEq, List.cons.injEq,
        V4Event.mk.injEq, Reason.text.injEq, true_and, and_true] using h
    · have hh : ¬routeRejected = routeHopping := by decide
      have hc : ¬routeRejected = routeCommitted := by decide
      have hr : ¬routeRejected = routeRefunded := by decide
      simp only [V4RouteSession.events, hp, if_neg hh, if_neg hc, if_neg hr, if_true, Prod.mk.injEq,
        List.cons.injEq, V4Event.mk.injEq, Reason.text.injEq, true_and, and_true] at h
      exact orElse_inj hx hy h
  · obtain ⟨hr, hj⟩ := not_or.mp hp
    simp only [V4RouteSession.events, if_neg hr, if_neg hj]

/-! ## Poll results -/

def Answered (tr : List (Ev dexSig)) (m : Message) : Prop :=
  ∃ msg bytes, ⟨DexReq.call msg, some bytes⟩ ∈ tr ∧ parse bytes = .ok m

theorem readIntentStatus_over (h : readIntentStatus m = .ok st) : st.reason.Over m.data := by
  -- the six fields in front of the reason
  iterate 6 obtain ⟨_, -, h⟩ := go_bind_eq_ok.mp h
  obtain ⟨t, ht, h⟩ := go_bind_eq_ok.mp h
  cases h
  exact text_over ht

theorem readRouteStatus_over {st : RouteStatus TextView} (h : readRouteStatus m = .ok st) :
    st.reason.Over m.data := by
  -- the nine fields in front of the reason
  iterate 9 obtain ⟨_, -, h⟩ := go_bind_eq_ok.mp h
  obtain ⟨t, ht, h⟩ := go_bind_eq_ok.mp h
  cases h
  exact text_over ht

theorem Session.poll_over {dex : Session} {w : IntentWatch} {tr : List (Ev dexSig)}
    (h : Yields (dex.poll w) tr st) : ∃ m, Answered tr m ∧ st.reason.Over m.data := by
  obtain ⟨-, msg, bytes, m, -, rfl, hp, hread⟩ := Session.yields_poll.mp h
  exact ⟨m, ⟨msg, bytes, List.mem_singleton_self _, hp⟩, readIntentStatus_over hread⟩

theorem RouteWatch.poll_over {sha256 : List UInt8 → ID} {w : RouteWatch} {tr : List (Ev dexSig)}
    {st : RouteStatus TextView} (h : Yields (w.poll sha256) tr st) :
    ∃ m, Answered tr m ∧ st.reason.Over m.data := by
  obtain ⟨tr1, tr2, u, rfl, -, h1⟩ := yields_bind.mp h
  obtain ⟨msg, bytes, m, tr', -, rfl, hp, h2⟩ := yields_exchange.mp h1
  obtain ⟨rfl, hread⟩ := yields_eval.mp h2
  exact ⟨m, ⟨msg, bytes, by simp, hp⟩, readRouteStatus_over hread⟩

/-- **A poll result outlives its reply only as far as it has no reason.**  For every result of either `Poll`, with
the reply's buffer holding anything of its length: the status is what the server sent iff it has no reason; the
outcome and the error text of a committed stream and the events of a swap stream are what they should be iff it
was not rejected with a reason; the same holds of a route, whose events also show the reason of a refund. -/
theorem poll_kept_iff (sha256 : List UInt8 → ID) :
    (∀ (dex : Session) (w : IntentWatch) (tr : List (Ev dexSig)) (st : IntentStatus TextView),
      Yields (dex.poll w) tr st → ∃ m, Answered tr m ∧
        (st.reason.Kept m.data.length (fun x => { st with reason := x }) ↔ st.reason.text = []) ∧
        (st.reason.Kept m.data.length (fun x => committedNext w.intentID { st with reason := x }) ↔
          (st.phase = phaseRejected → st.reason.text = [])) ∧
        ∀ (v : V4SwapSession) (imported : Bool),
          st.reason.Kept m.data.length (fun x => v.events imported { st with reason := x }) ↔
            (st.phase = phaseRejected → st.reason.text = [])) ∧
    ∀ (w : RouteWatch) (tr : List (Ev dexSig)) (st : RouteStatus TextView),
      Yields (w.poll sha256) tr st → ∃ m, Answered tr m ∧
        (st.reason.Kept m.data.length (fun x => { st with reason := x }) ↔ st.reason.text = []) ∧
        (st.reason.Kept m.data.length (fun x => w.finalNext { st with reason := x }) ↔
          (st.phase = routeRejected → st.reason.text = [])) ∧
        ∀ (v : V4RouteSession) (lastHop : Option UInt32),
          st.reason.Kept m.data.length (fun x => v.events lastHop { st with reason := x }) ↔
            (st.phase = routeRefunded ∨ st.phase = routeRejected → st.reason.text = []) := by
  constructor
  · intro dex w tr st h
    obtain ⟨m, hm, hover⟩ := Session.poll_over h
    refine ⟨m, hm, hover.kept_iff fun x y _ _ hxy => ?_, committedNext_kept hover, fun v imported => ?_⟩
    · exact congrArg IntentStatus.reason hxy
    · exact V4SwapSession.events_kept hover
  · intro w tr st h
    obtain ⟨m, hm, hover⟩ := RouteWatch.poll_over h
    refine ⟨m, hm, hover.kept_iff fun x y _ _ hxy => ?_, RouteWatch.finalNext_kept hover, fun v lastHop => ?_⟩
    · exact congrArg RouteStatus.reason hxy
    · exact V4RouteSession.events_kept hover

def observer : Session := ⟨authWatch, fun _ => none⟩

def rejection : IntentStatus Str := ⟨.zero 32, phaseRejected, .zero, [110], 0⟩

theorem rejection_polled : ∃ tr st, Yields (observer.poll ⟨.zero 32⟩) tr st ∧ st.map TextView.text = rejection := by
  obtain ⟨msg, hbuild, -⟩ := watchPollRequest_carries (.zero 32)
  obtain ⟨m, -, hp, -, hread⟩ := (intentStatus_carries_iff rejection).mpr (by decide)
  obtain ⟨st, hst, hsent⟩ := go_map_eq_ok.mp hread
  exact ⟨_, st, Session.yields_poll.mpr ⟨rfl, msg, m.data, m, hbuild, rfl, hp, hst⟩, hsent⟩

/-- Once the reply is released, the rejection's reason may be any other text. -/
theorem rejection_unkept : ∃ tr st m, Yields (observer.poll ⟨.zero 32⟩) tr st ∧
    st.map TextView.text = rejection ∧ Answered tr m ∧
    ¬st.reason.Kept m.data.length (fun x => committedNext (.zero 32) { st with reason := x }) := by
  obtain ⟨tr, st, h, hst⟩ := rejection_polled
  obtain ⟨m, hm, -, hnext, -⟩ := (poll_kept_iff fun _ => .zero 32).1 observer ⟨.zero 32⟩ tr st h
  refine ⟨tr, st, m, h, hst, hm, fun hkept => ?_⟩
  have hreason : st.reason.text = [110] := congrArg IntentStatus.reason hst
  have hphase : st.phase = phaseRejected := congrArg IntentStatus.phase hst
  rw [hnext.mp hkept hphase] at hreason
  cases hreason

/-- The status and the error text made of it are not what the server sent. -/
theorem rejection_rewritten : ∃ tr st m, ∃ mem : List UInt8, Yields (observer.poll ⟨.zero 32⟩) tr st ∧
    st.map TextView.text = rejection ∧ Answered tr m ∧ mem.length = m.data.length ∧
    st.map (TextView.textIn mem) ≠ rejection ∧
    committedNext (.zero 32) (st.map (TextView.textIn mem)) ≠ committedNext (.zero 32) rejection := by
  obtain ⟨tr, st, h, hst⟩ := rejection_polled
  obtain ⟨m, hm, hover⟩ := Session.poll_over h
  have hreason : st.reason.text = [110] := congrArg IntentStatus.reason hst
  have hphase : st.phase = phaseRejected := congrArg IntentStatus.phase hst
  have hunkept : ¬st.reason.Kept m.data.length fun x => committedNext (.zero 32) { st with reason := x } := by
    intro hkept
    rw [(committedNext_kept hover).mp hkept hphase] at hreason
    cases hreason
  obtain ⟨mem, hlen, hne⟩ : ∃ mem : List UInt8, mem.length = m.data.length ∧
      committedNext (.zero 32) (st.map (TextView.textIn mem)) ≠ committedNext (.zero 32) (st.map TextView.text) := by
    by_contra hall
    exact hunkept fun mem hlen => by_contra fun hne => hall ⟨mem, hlen, hne⟩
  rw [hst] at hne
  exact ⟨tr, st, m, mem, h, hst, hm, hlen, fun heq => hne (by rw [heq]), hne⟩

end Zap.Dex
