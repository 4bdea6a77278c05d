/-
# Zap.Dex.Envelopes — every envelope of the session protocol comes back.

The other direction of `Codec` and `Watch`, for the values a client or a server only reads or only writes, and
for all of them at once. A layout without a tail is always read back. One with a tail is read back exactly
if the message stays below `2 ^ 32` bytes: the header's size word counts modulo that, and a message cut short
cannot hold the tail.
-/
import Zap.Dex.Watch

namespace Zap.Dex

open Zap.Lib Zap.Wire

/-! ## Layouts without a tail -/

theorem stateRequest_carries (r : StateRequest) :
    Carries (buildStateRequest r) msgGetState readStateRequest r := by
  refine envelope_carries r.wf trivial (by decide) (show 16 + 124 + 0 < 2 ^ 32 by decide) ?_
  rintro m ⟨hkind, hmarket, haccount, hasset, hintent, -⟩
  simp only [readStateRequest, Message.root, u8_of_reads hkind, array_of_reads hmarket, array_of_reads haccount,
    array_of_reads hasset, array_of_reads hintent, go_bind_ok, go_pure]

theorem stateResult_carries (r : StateResult) :
    Carries (buildStateResult r) msgGetState readStateResult r := by
  have hwf : (Wire.Tree.node 80 r.fields).WF := by
    simp [Wire.Tree.WF, StateResult.fields, Fields.WF, Fields.Clear, Field.width, Apart, Width.bytes]
  refine envelope_carries hwf trivial (by decide) (show 16 + 80 + 0 < 2 ^ 32 by decide) ?_
  rintro m ⟨hkind, hexists, hknown, havailable, hbase, hquote, -⟩
  simp only [readStateResult, Message.root, u8_of_reads hkind, bool_of_reads hexists, bool_of_reads hknown,
    u64_of_reads havailable, array_of_reads hbase, array_of_reads hquote, go_bind_ok, go_pure]

theorem swapIntentRequest_carries (r : SwapIntentRequest) :
    Carries (buildSwapIntentRequest r) msgPrepare readSwapIntentRequest r := by
  have hwf : (Wire.Tree.node 228 r.fields).WF := by
    simp [Wire.Tree.WF, SwapIntentRequest.fields, Fields.WF, Fields.Clear, Field.width, Apart, Width.bytes]
  refine envelope_carries hwf trivial (by decide) (show 16 + 228 + 0 < 2 ^ 32 by decide) ?_
  rintro m ⟨hnet, hin, hmin, hdeadline, hnonce, hc, hd, haccount, hasset, haddr, hmarket, hto, -⟩
  simp only [readSwapIntentRequest, Message.root, u32_of_reads hnet, u64_of_reads hin, u64_of_reads hmin,
    u64_of_reads hdeadline, u64_of_reads hnonce, array_of_reads hc, array_of_reads hd, array_of_reads haccount,
    array_of_reads hasset, array_of_reads haddr, array_of_reads hmarket, array_of_reads hto, go_bind_ok, go_pure]

/-! ## Layouts with a tail -/

theorem preparedIntent_carries (p : PreparedIntent) {type : Nat} (htype : type < 256)
    (hlen : p.calldata.length + p.hookData.length + 268 < 2 ^ 32) :
    Carries (buildPreparedIntent p type) type readPreparedIntent p := by
  refine envelope_carries p.wf trivial htype ?_ ?_
  · show 16 + 252 + (p.calldata.length + (p.hookData.length + 0)) < 2 ^ 32
    omega
  rintro m ⟨hto, hid, hquoted, hin, hd, hc, haccount, hrecipient, hasset, hmarket, hcall, hhook, -⟩
  simp only [readPreparedIntent, Message.root, array_of_reads hto, array_of_reads hid, u64_of_reads hquoted,
    u64_of_reads hin, array_of_reads hd, array_of_reads hc, array_of_reads haccount, array_of_reads hrecipient,
    array_of_reads hasset, array_of_reads hmarket, bytes_of_reads hcall, bytes_of_reads hhook, go_bind_ok,
    go_pure]

/-- Two tails: if the size wraps, both would have to lie in what is left behind their pointers. -/
theorem preparedIntent_carries_iff (p : PreparedIntent) {type : Nat} (htype : type < 256) :
    Carries (buildPreparedIntent p type) type readPreparedIntent p ↔
      p.calldata.length + p.hookData.length + 268 < 2 ^ 32 := by
  refine ⟨?_, preparedIntent_carries p htype⟩
  rintro ⟨m, hm, hp, -, hr⟩
  have hlen : m.data.length = (16 + 252 + (p.calldata.length + (p.hookData.length + 0))) % 2 ^ 32 :=
    (envelope_head p.wf trivial hm).2
  have hlt := parse_length_lt hp
  simp only [readPreparedIntent, go_bind_eq_ok] at hr
  obtain ⟨_, -, _, -, _, -, _, -, _, -, _, -, _, -, _, -, _, -, _, -, call, hcall, hook, hhook, hr⟩ := hr
  cases hr
  have hcall := bytes_le m (by decide) hlt hcall
  have hhook := bytes_le m (by decide) hlt hhook
  simp only at hlen ⊢
  omega

theorem routeStatus_carries_iff (s : RouteStatus Str) :
    Carries (buildRouteStatus s) msgRouteStatus (fun m => RouteStatus.map TextView.text <$> readRouteStatus m)
      s.bound ↔ s.reason.length + 152 < 2 ^ 32 := by
  have hwf : (Wire.Tree.node 136 s.fields).WF := by
    simp [Wire.Tree.WF, RouteStatus.fields, Fields.WF, Fields.Clear, Field.width, Apart, Width.bytes]
  refine (envelope_carries_iff hwf trivial (by decide) (by decide) ?_ ?_).trans ?_
  · rintro - m ⟨hphase, hindex, hcount, hout, hhop, hfinal, hid, hchain, htx, ⟨x, -, htext, hx⟩, -⟩
    have htext : (m.objectAt m.rootOffset).text 128 = .ok x := htext
    have hreason : TextView.text x = s.reason := hx
    simp only [readRouteStatus, Message.root, u8_of_reads hphase, u32_of_reads hindex, u32_of_reads hcount,
      u32_of_reads hout, u64_of_reads hhop, u64_of_reads hfinal, array_of_reads hid, array_of_reads hchain,
      array_of_reads htx, htext, go_bind_ok, go_pure]
    simp only [Functor.map, Except.map, RouteStatus.map, RouteStatus.bound, hreason]
  · intro m hlen h
    obtain ⟨st, hst, heq⟩ := go_map_eq_ok.mp h
    simp only [readRouteStatus, go_bind_eq_ok] at hst
    obtain ⟨_, -, _, -, _, -, _, -, _, -, _, -, _, -, _, -, _, -, x, hx, hs⟩ := hst
    cases hs
    have hreason : TextView.text x = s.reason := congrArg RouteStatus.reason heq
    show s.reason.length + 0 ≤ m.data.length
    rw [← hreason]
    exact text_le m (by decide) hlen hx
  · show 16 + 136 + (s.reason.length + 0) < 2 ^ 32 ↔ _
    omega

theorem path_length (path : List ID) : (path.flatMap Arr.bytes).length = path.length * 32 := by
  rw [List.length_flatMap, List.map_congr_left fun x _ => x.len, List.map_const', List.sum_replicate_nat]

theorem hops_path (path : List ID) : hops path.length (path.flatMap Arr.bytes) = path := by
  rw [hops, path_length, Nat.mul_div_cancel _ (by decide), Nat.min_self]
  induction path with
  | nil => rfl
  | cons x path ih =>
    rw [List.length_cons, List.range_succ_eq_map, List.map_cons, List.map_map, List.flatMap_cons]
    congr 1
    · rw [Nat.zero_mul, window, List.drop_zero, List.take_left' x.len, Arr.copy_self]
    · refine Eq.trans (List.map_congr_left fun i _ => ?_) ih
      have hdrop : (x.bytes ++ path.flatMap Arr.bytes).drop (i.succ * 32) = (path.flatMap Arr.bytes).drop (i * 32) := by
        rw [Nat.succ_mul, Nat.add_comm, ← List.drop_drop, List.drop_left' x.len]
      simp only [Function.comp, window, hdrop]

/-- **A route request is read no further than its path bytes**, and it is read whatever the message is. -/
theorem readRouteRequest_bounded {m : Message} (hlen : m.data.length < 2 ^ 32) :
    ∃ r path, readRouteRequest m = .ok r ∧ bytes m.root 196 = .ok path ∧ r.path.length ≤ path.length / 32 ∧
      path.length ≤ m.data.length := by
  obtain ⟨path, hpath, hle⟩ := bytes_total m (show 196 < 2 ^ 31 by decide) hlen
  obtain ⟨r, hr⟩ : ∃ r, readRouteRequest m = .ok r := by
    iterate 3 refine go_bind_total (u32_total m (by decide)) fun _ => ?_
    iterate 3 refine go_bind_total (u64_total m (by decide)) fun _ => ?_
    iterate 6 refine go_bind_total (array_total m (by decide) _ (by decide)) fun _ => ?_
    exact go_bind_total ⟨path, hpath⟩ fun _ => ⟨_, rfl⟩
  refine ⟨r, path, hr, hpath, ?_, hle⟩
  simp only [readRouteRequest, go_bind_eq_ok] at hr
  obtain ⟨_, -, _, -, _, -, _, -, _, -, _, -, _, -, _, -, _, -, _, -, _, -, _, -, path', hpath', hr⟩ := hr
  cases hpath.symm.trans hpath'
  cases hr
  simp only [hops, List.length_map, List.length_range]
  exact Nat.min_le_right ..

theorem routeRequest_carries_iff (r : RouteRequest) :
    Carries (buildRouteRequest r) msgRoutePrepare readRouteRequest r ↔ r.path.length * 32 + 220 < 2 ^ 32 := by
  have htail : r.fields.tail = r.path.length * 32 := (Nat.add_zero _).trans (path_length r.path)
  refine (envelope_carries_iff r.wf trivial (by decide) (by decide) ?_ ?_).trans ?_
  · rintro hsize m ⟨hnet, hindex, hcount, hin, hmin, hdeadline, hc, hd, haccount, hasset, haddr, hto, hpath, -⟩
    have hhops : (UInt32.ofNat r.path.length).toNat = r.path.length := by
      rw [htail] at hsize
      rw [UInt32.toNat_ofNat', Nat.mod_eq_of_lt (by omega)]
    simp only [readRouteRequest, Message.root, u32_of_reads hnet, u32_of_reads hindex, u32_of_reads hcount,
      u64_of_reads hin, u64_of_reads hmin, u64_of_reads hdeadline, array_of_reads hc, array_of_reads hd,
      array_of_reads haccount, array_of_reads hasset, array_of_reads haddr, array_of_reads hto,
      bytes_of_reads hpath, go_bind_ok, go_pure, hhops, hops_path]
  · intro m hlen h
    obtain ⟨r', path, hr', -, hle, hpath⟩ := readRouteRequest_bounded hlen
    cases h.symm.trans hr'
    rw [htail]
    omega
  · rw [htail]
    show 16 + 204 + _ < 2 ^ 32 ↔ _
    omega

/-! ## All of them -/

/-- **Every envelope comes back**, up to what a status keeps of its ref: always, if the value has no tail, and
otherwise exactly if the whole message is below `2 ^ 32` bytes. Whatever message was parsed, a route request
has no more hops than its path bytes hold. -/
theorem session_envelopes_round_trip (data : List UInt8) :
    ((∀ r, Carries (buildQuoteRequest r) msgQuote readQuoteRequest r) ∧
      (∀ r, Carries (buildQuoteResult r) msgQuote readQuoteResult r) ∧
      (∀ r, Carries (buildStateRequest r) msgGetState readStateRequest r) ∧
      (∀ r, Carries (buildStateResult r) msgGetState readStateResult r) ∧
      (∀ r, Carries (buildSwapIntentRequest r) msgPrepare readSwapIntentRequest r) ∧
      (∀ r, Carries (buildDExportRef r) msgImport readDExportRef r) ∧
      (∀ id, Carries (buildIntentWatchRef id) msgNotify readIntentID id) ∧
      (∀ id, Carries (buildWatchPollRequest id) msgWatchPoll readIntentID id) ∧
      ∀ id, Carries (buildRouteWatchPoll id) msgRouteStatus readIntentID id) ∧
    ((∀ p type, type < 256 → (Carries (buildPreparedIntent p type) type readPreparedIntent p ↔
        p.calldata.length + p.hookData.length + 268 < 2 ^ 32)) ∧
      (∀ s, Carries (buildSettlementResult s) msgImport readSettlementResult s ↔
        s.calldata.length + 116 < 2 ^ 32) ∧
      (∀ s, Carries (buildIntentStatus s) msgWatchPoll
        (fun m => IntentStatus.map TextView.text <$> readIntentStatus m) s.bound ↔ s.reason.length + 136 < 2 ^ 32) ∧
      (∀ r, Carries (buildRouteRequest r) msgRoutePrepare readRouteRequest r ↔
        r.path.length * 32 + 220 < 2 ^ 32) ∧
      ∀ s, Carries (buildRouteStatus s) msgRouteStatus
        (fun m => RouteStatus.map TextView.text <$> readRouteStatus m) s.bound ↔ s.reason.length + 152 < 2 ^ 32) ∧
    ∀ m, parse data = .ok m → ∃ r path, readRouteRequest m = .ok r ∧ bytes m.root 196 = .ok path ∧
      r.path.length ≤ path.length / 32 ∧ path.length ≤ m.data.length :=
  ⟨⟨quoteRequest_carries, quoteResult_carries, stateRequest_carries, stateResult_carries,
      swapIntentRequest_carries, dExportRef_carries, fun id => idEnvelope_carries id (by decide),
      watchPollRequest_carries, fun id => idEnvelope_carries id (by decide)⟩,
    ⟨fun p _ htype => preparedIntent_carries_iff p htype, settlementResult_carries_iff,
      intentStatus_carries_iff, routeRequest_carries_iff, routeStatus_carries_iff⟩,
    fun _ hp => readRouteRequest_bounded (parse_length_lt hp)⟩

/-- A route of `2 ^ 27` hops: its path alone takes `2 ^ 32` bytes. -/
def longRoute : RouteRequest :=
  ⟨0, .zero 32, .zero 32, .zero 20, .zero 32, .zero 20, 0, List.replicate (2 ^ 27) (.zero 32), 0, .zero 20, 0, 0⟩

theorem longRoute_lost : ¬Carries (buildRouteRequest longRoute) msgRoutePrepare readRouteRequest longRoute := by
  have hlen : longRoute.path.length = 2 ^ 27 := List.length_replicate
  rw [routeRequest_carries_iff, hlen]
  decide

end Zap.Dex
