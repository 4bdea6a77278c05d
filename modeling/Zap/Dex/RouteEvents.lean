/-
# Zap.Dex.RouteEvents — what a route stream tells its reader (`streamRoute`).

The loop polls, and turns each status into at most two events. Phases and hop indexes are the server's: it
may jump ahead, fall back, or name a hop the path does not have, and the loop compares an index with nothing
but the last one it started.
-/
import Zap.Dex.Confine

namespace Zap.Dex

open Zap.Lib Zap.Lib.Proc Zap.Wire

/-! ## Lists judged entry by entry -/

section Throughout

variable {α : Type} {P : List α → α → Prop} {l : List α}

/-- `P` holds of every entry and what is before it. -/
def Throughout (P : List α → α → Prop) (l : List α) : Prop := ∀ pre x post, l = pre ++ x :: post → P pre x

theorem throughout_nil : Throughout P [] := fun pre x post h => by simp at h

theorem throughout_snoc {a : α} : Throughout P (l ++ [a]) ↔ Throughout P l ∧ P l a := by
  constructor
  · intro h
    refine ⟨fun pre x post hl => h pre x (post ++ [a]) (by simp [hl]), h l a [] rfl⟩
  rintro ⟨hl, ha⟩ pre x post heq
  rcases List.eq_nil_or_concat post with rfl | ⟨post, b, rfl⟩
  · obtain ⟨rfl, rfl⟩ := List.append_inj' heq rfl |>.imp_right List.singleton_inj.mp
    exact ha
  · rw [List.concat_eq_append, ← List.cons_append, ← List.append_assoc] at heq
    exact hl pre x post (List.append_inj' heq rfl).1

theorem Throughout.left {l' : List α} (h : Throughout P (l ++ l')) : Throughout P l :=
  fun pre x post hl => h pre x (post ++ l') (by simp [hl])

end Throughout

/-! ## The contract -/

def started (evs : List V4Event) : List UInt32 :=
  evs.filterMap fun ev => if ev.type = .routeHopStarted then some ev.hopIndex else none

def V4Event.Terminal (ev : V4Event) : Prop :=
  ev.type = .routeDExportReady ∨ ev.type = .routeRefundReady ∨ ev.type = .error

/-- An event may follow `pre` in the stream of a route of `hops` hops. -/
@[mk_iff]
structure MayFollow (hops : Nat) (pre : List V4Event) (ev : V4Event) : Prop where
  rising : ev.type = .routeHopStarted → (∀ i ∈ started pre, i < ev.hopIndex) ∧ ev.hopIndex.toNat < hops
  filled : ev.type = .routeHopFilled → ev.hopIndex ∈ started pre
  ref : ev.ref ≠ .zero → ev.type = .routeDExportReady ∨ ev.type = .routeRefundReady
  last : ∀ e ∈ pre, ¬e.Terminal

def WellFormed (hops : Nat) (evs : List V4Event) : Prop := Throughout (MayFollow hops) evs

/-- The indexes a server names for a route of `hops` hops are in order. -/
def Orderly (hops : Nat) (is : List UInt32) : Prop :=
  Throughout (fun pre i => i.toNat < hops ∧ (i ∈ pre ∨ ∀ j ∈ pre, j < i)) is

def RouteStatus.hop (st : RouteStatus Str) : Option UInt32 :=
  if st.phase = routeHopping then some st.hopIndex else none

/-! ## One status -/

/-- The loop has sent `evs` for statuses that named the hops `is`, and `lastHop` is its state. -/
structure Level (hops : Nat) (lastHop : Option UInt32) (evs : List V4Event) (is : List UInt32) : Prop where
  running : ∀ ev ∈ evs, ¬ev.Terminal
  later : ∀ i, (∀ h ∈ lastHop, h < i) ↔ ∀ j ∈ is, j < i
  exact : WellFormed hops evs ↔ Orderly hops is
  same : Orderly hops is → ∀ i, i ∈ started evs ↔ i ∈ is

section Step

variable {hops : Nat} {lastHop : Option UInt32} {evs : List V4Event} {is : List UInt32} {ev : V4Event} {i : UInt32}

theorem wellFormed_snoc : WellFormed hops (evs ++ [ev]) ↔ WellFormed hops evs ∧ MayFollow hops evs ev :=
  throughout_snoc

theorem orderly_snoc :
    Orderly hops (is ++ [i]) ↔ Orderly hops is ∧ i.toNat < hops ∧ (i ∈ is ∨ ∀ j ∈ is, j < i) := throughout_snoc

theorem Orderly.lt (h : Orderly hops is) (hi : i ∈ is) : i.toNat < hops := by
  obtain ⟨pre, post, rfl⟩ := List.append_of_mem hi
  exact (h pre i post rfl).1

theorem mem_started_snoc {j : UInt32} : j ∈ started (evs ++ [ev]) ↔
    j ∈ started evs ∨ ev.type = .routeHopStarted ∧ ev.hopIndex = j := by
  simp [started]

theorem Level.start (h : Level hops lastHop evs is) (hnew : ∀ j ∈ is, j < i) (ev : V4Event)
    (htype : ev.type = .routeHopStarted) (hindex : ev.hopIndex = i) (href : ev.ref = .zero) :
    Level hops (some i) (evs ++ [ev]) (is ++ [i]) := by
  obtain ⟨hrunning, hlater, hexact, hsame⟩ := h
  constructor
  · grind [V4Event.Terminal]
  · intro a
    simp only [Option.mem_def, Option.some.injEq, forall_eq', List.mem_append, List.mem_singleton, or_imp,
      forall_and, forall_eq]
    exact ⟨fun hlt => ⟨fun j hj => UInt32.lt_trans (hnew j hj) hlt, hlt⟩, fun hall => hall.2⟩
  · grind [wellFormed_snoc, orderly_snoc, mayFollow_iff]
  · grind [mem_started_snoc, orderly_snoc]

theorem Level.fill (h : Level hops lastHop evs is) (hold : ¬∀ j ∈ is, j < i) (ev : V4Event)
    (htype : ev.type = .routeHopFilled) (hindex : ev.hopIndex = i) (href : ev.ref = .zero) :
    Level hops lastHop (evs ++ [ev]) (is ++ [i]) := by
  obtain ⟨hrunning, hlater, hexact, hsame⟩ := h
  constructor
  · grind [V4Event.Terminal]
  · intro a
    rw [hlater]
    push Not at hold
    obtain ⟨j, hj, hle⟩ := hold
    simp only [List.mem_append, List.mem_singleton, or_imp, forall_and, forall_eq]
    exact ⟨fun hall => ⟨hall, UInt32.lt_of_le_of_lt (UInt32.not_lt.mp hle) (hall j hj)⟩, And.left⟩
  · grind [wellFormed_snoc, orderly_snoc, mayFollow_iff, Orderly.lt]
  · grind [mem_started_snoc, orderly_snoc]

theorem Level.once (h : Level hops lastHop evs (is ++ [i] ++ [i])) : Level hops lastHop evs (is ++ [i]) := by
  have horderly : Orderly hops (is ++ [i] ++ [i]) ↔ Orderly hops (is ++ [i]) := by
    grind [orderly_snoc]
  obtain ⟨hrunning, hlater, hexact, hsame⟩ := h
  exact ⟨hrunning, by simpa using hlater, hexact.trans horderly, fun ho => by simpa using hsame (horderly.mpr ho)⟩

theorem Level.wellFormed_terminal (h : Level hops lastHop evs is) (hend : ev.Terminal)
    (href : ev.type = .error → ev.ref = .zero) : WellFormed hops (evs ++ [ev]) ↔ Orderly hops is := by
  rw [← h.exact, wellFormed_snoc]
  have hrunning := h.running
  grind [mayFollow_iff, V4Event.Terminal]

/-- **One status**: what has been sent then is well formed iff the indexes named so far are in order. -/
theorem Level.next (h : Level hops lastHop evs is) (s : V4RouteSession) (st : RouteStatus Str) :
    (WellFormed hops (evs ++ (s.events lastHop st).1) ↔ Orderly hops (is ++ st.hop.toList)) ∧
    ∀ b, (s.events lastHop st).2 = some b → Level hops b (evs ++ (s.events lastHop st).1) (is ++ st.hop.toList) := by
  unfold V4RouteSession.events RouteStatus.hop
  dsimp only
  split_ifs with hhop hlater hcommitted hrefunded hrejected
  · have hnew : ∀ j ∈ is, j < st.hopIndex := (h.later _).mp (by cases lastHop <;> simp_all)
    have hold : ¬∀ j ∈ is ++ [st.hopIndex], j < st.hopIndex := by simp
    have hlevel := ((h.start hnew
      ⟨.routeHopStarted, s.cap.sessionID, s.intentID, 0, st.hopIndex, .zero, .none⟩ rfl rfl rfl).fill hold
      ⟨.routeHopFilled, s.cap.sessionID, s.intentID, st.hopAmountOut, st.hopIndex, .zero, .none⟩ rfl rfl
      rfl).once
    rw [List.append_assoc] at hlevel
    exact ⟨hlevel.exact, fun b hb => Option.some.inj hb ▸ hlevel⟩
  · have hold : ¬∀ j ∈ is, j < st.hopIndex := by
      rw [← h.later]
      cases lastHop <;> simp_all
    have hlevel := h.fill hold
      ⟨.routeHopFilled, s.cap.sessionID, s.intentID, st.hopAmountOut, st.hopIndex, .zero, .none⟩ rfl rfl rfl
    exact ⟨hlevel.exact, fun b hb => Option.some.inj hb ▸ hlevel⟩
  all_goals simp only [Option.toList_none, List.append_nil]
  · exact ⟨h.wellFormed_terminal (.inl rfl) nofun, nofun⟩
  · exact ⟨h.wellFormed_terminal (.inr (.inl rfl)) nofun, nofun⟩
  · exact ⟨h.wellFormed_terminal (.inr (.inr rfl)) fun _ => rfl, nofun⟩
  · exact ⟨h.exact, fun b hb => Option.some.inj hb ▸ h⟩

end Step

/-! ## The loop -/

def sentOf : Ev dexSig → Option V4Event
  | ⟨.emit ev, true⟩ => some ev
  | _ => none

def replied (answer : Option (List UInt8)) : Except DexError (RouteStatus TextView) := do
  let m ← callResult answer
  (readRouteStatus m).mapError .panicked

def hopOf : Ev dexSig → Option UInt32
  | ⟨.call _, answer⟩ => (replied answer).toOption.bind fun st => (st.map TextView.text).hop
  | _ => none

def sent (tr : List (Ev dexSig)) : List V4Event := tr.filterMap sentOf

def hopped (tr : List (Ev dexSig)) : List UInt32 := tr.filterMap hopOf

/-- The context has not ended while an event was to be sent. -/
def Unrefused (tr : List (Ev dexSig)) : Prop := ∀ ev, (⟨.emit ev, false⟩ : Ev dexSig) ∉ tr

/-- Behind `evs` and `is`, what a trace sends is well formed if what it names is in order, and only then if all
was sent. -/
def Exact (hops : Nat) (evs : List V4Event) (is : List UInt32) (tr : List (Ev dexSig)) : Prop :=
  (Orderly hops (is ++ hopped tr) → WellFormed hops (evs ++ sent tr)) ∧
    (Unrefused tr → WellFormed hops (evs ++ sent tr) → Orderly hops (is ++ hopped tr))

section Loop

variable {sha256 : List UInt8 → ID} {s : V4RouteSession} {w : RouteWatch} {tr tr₁ tr₂ : List (Ev dexSig)}
  {hops : Nat} {evs : List V4Event} {is : List UInt32}

theorem Exact.of_iff (h : WellFormed hops (evs ++ sent tr) ↔ Orderly hops (is ++ hopped tr)) :
    Exact hops evs is tr := ⟨h.mpr, fun _ => h.mp⟩

theorem Exact.append (h : Exact hops (evs ++ sent tr₁) (is ++ hopped tr₁) tr₂) : Exact hops evs is (tr₁ ++ tr₂) := by
  have hsent : sent (tr₁ ++ tr₂) = sent tr₁ ++ sent tr₂ := List.filterMap_append
  have hhopped : hopped (tr₁ ++ tr₂) = hopped tr₁ ++ hopped tr₂ := List.filterMap_append
  rw [Exact, hsent, hhopped, ← List.append_assoc, ← List.append_assoc]
  exact ⟨h.1, fun hd => h.2 fun ev hmem => hd ev (List.mem_append_right _ hmem)⟩

variable {lastHop : Option UInt32} {α : Type} {r : Except DexError α}

theorem Level.silent (h : Level hops lastHop evs is) (hsent : sent tr = []) (hhopped : hopped tr = []) :
    Exact hops evs is tr :=
  .of_iff (by rw [hsent, hhopped, List.append_nil, List.append_nil]; exact h.exact)

theorem runs_ask_bind {q : DexReq} {f : q.Resp → Op α} (h : Prog.Runs (ask q >>= f).run tr r) :
    ∃ x tr', tr = ⟨q, x⟩ :: tr' ∧ Prog.Runs (f x).run tr' r :=
  Prog.runs_ask.mp h

theorem filterMap_avoids {γ : Type} {p : Op α} (bad : DexReq → Prop) {g : Ev dexSig → Option γ}
    (hg : ∀ e, ¬bad e.req → g e = none) (hp : Avoids bad p) (h : Prog.Runs p.run tr r) : tr.filterMap g = [] :=
  List.filterMap_eq_nil_iff.mpr fun e he => hg e (hp.reach h e he)

theorem turn_runs {r : Except DexError (Option (RouteStatus TextView))}
    (h : Prog.Runs (unlessDone (w.poll sha256)).run tr r) : sent tr = [] ∧
      hopped tr = (r.toOption.join.bind fun st => (st.map TextView.text).hop).toList := by
  have hsent : ∀ e : Ev dexSig, ¬(∃ ev, e.req = .emit ev) → sentOf e = none := by
    rintro ⟨q, x⟩ hnot
    cases q with
    | emit ev => exact absurd ⟨ev, rfl⟩ hnot
    | _ => rfl
  have hhop : ∀ e : Ev dexSig, ¬(∃ msg, e.req = .call msg) → hopOf e = none := by
    rintro ⟨q, x⟩ hnot
    cases q with
    | call msg => exact absurd ⟨msg, rfl⟩ hnot
    | _ => rfl
  have hsilent : Avoids (fun q : DexReq => ∃ ev, q = .emit ev) (unlessDone (w.poll sha256)) :=
    Spares.avoids (spares_unlessDone nofun (spares_routePoll nofun nofun))
  refine ⟨filterMap_avoids _ hsent hsilent h, ?_⟩
  obtain ⟨done, tr, rfl, hturn⟩ := runs_ask_bind h
  cases done with
  | true =>
    obtain ⟨rfl, rfl⟩ := Prog.runs_ret.mp hturn
    rfl
  | false =>
    obtain ⟨tr₁, tr₂, r1, rfl, hpoll, hret⟩ := Prog.runs_bind.mp hturn
    obtain ⟨tr3, tr4, u, rfl, hauth, hcall⟩ := Prog.runs_bind.mp hpoll
    have hquiet : hopped tr3 = [] := filterMap_avoids (fun q => ∃ msg, q = .call msg) hhop
      (Spares.avoids (spares_authorizeSelf nofun)) hauth
    have hpolled : hopped tr4 = (r1.toOption.bind fun st => (st.map TextView.text).hop).toList := by
      rcases u with e | _
      · obtain ⟨rfl, rfl⟩ := Prog.runs_ret.mp hcall
        rfl
      rcases hbuilt : buildRouteWatchPoll w.intentID with f | e | msg <;> simp only [hbuilt] at hcall
      · obtain ⟨rfl, rfl⟩ := Prog.runs_ret.mp hcall
        rfl
      · obtain ⟨rfl, rfl⟩ := Prog.runs_ret.mp hcall
        rfl
      obtain ⟨answer, tr, rfl, hreply⟩ := Prog.runs_ask.mp hcall
      have hresult : tr = [] ∧ replied answer = r1 := by
        refine Prog.runs_ret.mp ?_
        rcases answer with _ | bytes
        · exact hreply
        simp only [replied, callResult]
        simp only [Prog.bind, Function.comp_apply, ExceptT.bindCont] at hreply
        generalize parse bytes = parsed at hreply ⊢
        rcases parsed with e | m
        · exact hreply
        · have hread : Prog.Runs (eval (readRouteStatus m)).run tr r1 := hreply
          show Prog.Runs (.ret ((readRouteStatus m).mapError .panicked)) tr r1
          generalize readRouteStatus m = read at hread ⊢
          rcases read with f | st <;> exact hread
      obtain ⟨rfl, rfl⟩ := hresult
      simp only [hopped, List.filterMap_cons, List.filterMap_nil, hopOf]
      cases (replied answer).toOption.bind fun st => (st.map TextView.text).hop <;> rfl
    have hwhole : hopped (tr3 ++ tr4) = hopped tr3 ++ hopped tr4 := List.filterMap_append
    rw [hquiet, hpolled] at hwhole
    rcases r1 with e | st <;> obtain ⟨rfl, rfl⟩ := Prog.runs_ret.mp hret <;> rw [List.append_nil] <;> exact hwhole

theorem emitAll_runs {events : List V4Event} {r : Except DexError Bool}
    (h : Prog.Runs (stream.emitAll events).run tr r) : hopped tr = [] ∧ ∃ post, events = sent tr ++ post ∧
      (r = .ok true ∧ post = [] ∨ r = .ok false ∧ ¬Unrefused tr) := by
  induction events generalizing tr with
  | nil =>
    obtain ⟨rfl, rfl⟩ := Prog.runs_ret.mp h
    exact ⟨rfl, [], rfl, .inl ⟨rfl, rfl⟩⟩
  | cons ev events ih =>
    obtain ⟨more, tr, rfl, hmore⟩ := runs_ask_bind h
    cases more with
    | false =>
      obtain ⟨rfl, rfl⟩ := Prog.runs_ret.mp hmore
      exact ⟨rfl, ev :: events, rfl, .inr ⟨rfl, fun hd => hd ev (List.mem_singleton_self _)⟩⟩
    | true =>
      obtain ⟨hhops, post, hevs, hend⟩ := ih hmore
      refine ⟨hhops, post, congrArg (ev :: ·) hevs, hend.imp_right (And.imp_right fun hnot hd => hnot ?_)⟩
      exact fun ev' hmem => hd ev' (List.mem_cons_of_mem _ hmem)

/-- **The loop** keeps the events exact. -/
theorem stream_exact (rounds : Nat) {r : Except DexError Unit} (hlevel : Level hops lastHop evs is)
    (h : Prog.Runs (stream (unlessDone (w.poll sha256)) s.errorEvent
      (fun lastHop st => s.events lastHop (st.map TextView.text)) rounds lastHop).run tr r) : Exact hops evs is tr := by
  induction rounds generalizing lastHop evs is tr with
  | zero =>
    obtain ⟨rfl, rfl⟩ := Prog.runs_ret.mp h
    exact hlevel.silent rfl rfl
  | succ n ih =>
    obtain ⟨tr₁, tr₂, x, rfl, hread, hrest⟩ := Prog.runs_bind.mp h
    obtain ⟨tr₁, tr0, r1, rfl, hr1, hret⟩ := Prog.runs_bind.mp hread
    obtain ⟨rfl, rfl⟩ := Prog.runs_ret.mp hret
    obtain ⟨hquiet, hhops⟩ := turn_runs hr1
    rw [List.append_nil]
    refine .append ?_
    rw [hquiet, hhops, List.append_nil]
    rcases r1 with e | _ | st
    · -- a fault ends the goroutine, another error is reported
      simp only [Except.toOption, Option.join_none, Option.bind_none, Option.toList_none, List.append_nil]
      cases e with
      | panicked f =>
        obtain ⟨rfl, rfl⟩ := Prog.runs_ret.mp hrest
        exact hlevel.silent rfl rfl
      | _ =>
        obtain ⟨arrived, tr, rfl, hend⟩ := runs_ask_bind hrest
        obtain ⟨rfl, rfl⟩ := Prog.runs_ret.mp hend
        cases arrived with
        | false => exact hlevel.silent rfl rfl
        | true =>
          refine .of_iff ?_
          rw [show hopped _ = [] from rfl, List.append_nil]
          exact hlevel.wellFormed_terminal (.inr (.inr rfl)) fun _ => rfl
    · obtain ⟨rfl, rfl⟩ := Prog.runs_ret.mp hrest
      simp only [Except.toOption, Option.join_some, Option.bind_none, Option.toList_none, List.append_nil]
      exact hlevel.silent rfl rfl
    · have hstep := hlevel.next s (st.map TextView.text)
      dsimp only [ExceptT.bindCont] at hrest
      generalize s.events lastHop (st.map TextView.text) = out at hrest hstep
      obtain ⟨hexact, hnext⟩ := hstep
      obtain ⟨tr3, tr4, more, rfl, hemit, hrest⟩ := Prog.runs_bind.mp hrest
      obtain ⟨hnone, post, hevs, ⟨rfl, rfl⟩ | ⟨rfl, hcut⟩⟩ := emitAll_runs hemit
      · rw [List.append_nil] at hevs
        rw [hevs] at hexact hnext
        refine .append ?_
        rw [hnone, List.append_nil]
        rcases out with ⟨events, _ | b⟩
        · obtain ⟨rfl, rfl⟩ := Prog.runs_ret.mp hrest
          refine .of_iff ?_
          rw [show sent [] = [] from rfl, show hopped [] = [] from rfl, List.append_nil, List.append_nil]
          exact hexact
        · obtain ⟨done, tr, rfl, hmore⟩ := runs_ask_bind hrest
          have hlevel' := hnext b rfl
          cases done with
          | true =>
            obtain ⟨rfl, rfl⟩ := Prog.runs_ret.mp hmore
            exact hlevel'.silent rfl rfl
          | false =>
            have hlater := ih hlevel' hmore
            exact ⟨hlater.1, fun hd => hlater.2 fun ev hmem => hd ev (List.mem_cons_of_mem _ hmem)⟩
      · -- the context has ended: what was sent is the beginning of what would have been
        obtain ⟨rfl, rfl⟩ := Prog.runs_ret.mp hrest
        rw [List.append_nil, Exact, hnone, List.append_nil]
        refine ⟨fun ho => ?_, fun hd => absurd hd hcut⟩
        have hwhole := hexact.mpr ho
        rw [hevs, ← List.append_assoc] at hwhole
        exact hwhole.left

end Loop

/-- **The events of a route** are well formed if the indexes the server names are in order, and, unless the
context ended in the middle, only then. -/
theorem route_events_iff (sha256 : List UInt8 → ID) (s : V4RouteSession) (w : RouteWatch) (rounds : Nat)
    (tr : List (Ev dexSig)) (r : Except DexError Unit) (h : Prog.Runs (s.streamRoute sha256 w rounds).run tr r) :
    (Orderly s.req.path.length (hopped tr) → WellFormed s.req.path.length (sent tr)) ∧
      (Unrefused tr → WellFormed s.req.path.length (sent tr) → Orderly s.req.path.length (hopped tr)) :=
  stream_exact rounds ⟨by simp, by simp, iff_of_true throughout_nil throughout_nil, by simp [started]⟩ h

/-! ## A route of one hop -/

def hopSession : V4RouteSession := ⟨(V4Request.route hop).cap lastByte (newV4PrecompileSession trader
  (deployment (.zero 32))) ⟨.zero 20, addr9999, 3000, 60, .zero 20⟩ (fill 2), hop, fill 1, .zero 32⟩

def hopEvents (i : UInt32) : List V4Event :=
  [⟨.routeHopStarted, hopSession.cap.sessionID, fill 1, 0, i, .zero, .none⟩,
    ⟨.routeHopFilled, hopSession.cap.sessionID, fill 1, 0, i, .zero, .none⟩]

/-- One poll: the server answers with a status, and the events are sent. -/
def polled (st : RouteStatus Str) (evs : List V4Event) : List (Ev dexSig) :=
  [⟨.cancelled, false⟩, ⟨.lookup (fill 2), some ⟨hopSession.cap.core.bits, false⟩⟩,
    ⟨.call (made (buildRouteWatchPoll (fill 1))), some (made (buildRouteStatus st)).data⟩] ++
    evs.map (fun ev => ⟨.emit ev, true⟩)

def hopTrace (i : UInt32) : List (Ev dexSig) :=
  polled ⟨fill 1, routeHopping, i, 1, 0, 0, .zero, []⟩ (hopEvents i)

def exportEvent : V4Event :=
  ⟨.routeDExportReady, hopSession.cap.sessionID, fill 1, 5, 0, ⟨fill 3, fill 4, 0, fill 1⟩, .none⟩

/-- The one hop of the route is reported, and then the export, with its ref. -/
theorem route_wellFormed : ∃ tr, Prog.Runs (hopSession.streamRoute lastByte ⟨hopSession, fill 1⟩ 2).run tr
    (.ok ()) ∧ sent tr = hopEvents 0 ++ [exportEvent] ∧ WellFormed hop.path.length (sent tr) := by
  let tr := hopTrace 0 ++ ⟨.cancelled, false⟩ ::
    polled ⟨fill 1, routeCommitted, 0, 1, 0, 5, ⟨fill 3, fill 4, 0, fill 1⟩, []⟩ [exportEvent]
  have hrun : Prog.Runs (hopSession.streamRoute lastByte ⟨hopSession, fill 1⟩ 2).run tr (.ok ()) :=
    Prog.runs_of_returned (by decide +kernel)
  have hhopped : hopped tr = [] ++ [0] := by decide +kernel
  refine ⟨tr, hrun, by decide, (route_events_iff lastByte hopSession ⟨hopSession, fill 1⟩ 2 _ _ hrun).1 ?_⟩
  rw [hhopped]
  exact orderly_snoc.mpr ⟨throughout_nil, by decide, .inr nofun⟩

/-- A hop that the path does not have is reported as started and filled. -/
theorem missing_hop_started : ∃ tr, Prog.Runs (hopSession.streamRoute lastByte ⟨hopSession, fill 1⟩ 1).run tr
    (.ok ()) ∧ sent tr = hopEvents 7 ∧ ¬WellFormed hop.path.length (sent tr) := by
  have hsent : sent (hopTrace 7 ++ [⟨.cancelled, true⟩]) = hopEvents 7 := by decide
  refine ⟨_, Prog.runs_of_returned (by decide +kernel), hsent, fun h => ?_⟩
  rw [hsent] at h
  exact absurd ((h [] _ _ rfl).rising rfl).2 (by decide)

end Zap.Dex
