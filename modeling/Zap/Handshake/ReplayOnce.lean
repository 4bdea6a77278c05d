/-
# Zap.Handshake.ReplayOnce — how often a HELLO passes the replay gate.

The gate is two steps that other connections may come between: `CheckTimestamp`, then `SeenOrAdd`. A key
added to the cache is held until two rotations have happened, more than one ttl later; the window in which a
timestamp passes is one ttl wide. Nothing in the code sees to it that `SeenOrAdd` takes its lock while the
window is still open: a connection that is held up between the two steps is let through a second time
(`replayed_hello`).
-/
import Zap.Handshake.Server

namespace Zap.Handshake

open Zap.Lib Zap.Lib.Proc

variable {C : Prims}

/-! ## The gate in a connection's trace -/

variable {ts : UInt64} {t : Int}

section Traces

variable {rs : Responder C} {evs tr : List (Event C)} {α : Type} {q : Prog (pkg C) (Except Err α)}

def Req.Seen : Req C → Prop
  | .seenOrAdd .. => True
  | _ => False

theorem special_seen : Special (Req.Seen (C := C)) := by
  constructor <;> simp [Req.Seen]

variable {key : M C ReplayKey} {f : Unit → M C α} {helloBody : Bytes}

/-- **The gate, once the cache was asked**: the timestamp passed before, and the reading is the one taken
last. -/
theorem replayGate_past (hkey : Avoids Req.Seen key) (hf : ∀ u, Avoids Req.Seen (f u))
    (hreach : Prog.Reach (replayGate ts key >>= f).run tr q) (hseen : ∃ e ∈ tr, e.req.Seen) :
    ∃ t tk k t' x rest, checkTimestampAt t ts = .ok () ∧ Yields key tk k ∧
      tr = clock t :: (tk ++ clock t' :: seenEv t' k x :: rest) ∧ ∀ e ∈ rest, ¬e.req.Seen := by
  have hq : Beyond Req.Seen tr q := .inl hseen
  unfold replayGate seenOrAdd at hreach
  simp only [bind_assoc] at hreach
  obtain ⟨_, _, u, rfl, ycheck, h1, hq1, k1⟩ :=
    reach_past hreach (orAlertWith_avoids special_seen (checkTimestamp_avoids special_seen _)) hq
  obtain ⟨tk, _, k, rfl, ykey, h2, hq2, k2⟩ := reach_past h1 hkey hq1
  obtain ⟨_, _, t', rfl, ynow, h3, -, k3⟩ := reach_past h2 (call_avoids special_seen.now) hq2
  obtain ⟨t, hwindow, rfl⟩ := checkTimestamp_yields.mp (orAlertWith_yields.mp ycheck)
  obtain rfl := call_yields.mp ynow
  rcases reach_request h3 with rfl | ⟨x, rest, rfl, h4⟩
  · obtain ⟨e, he, hs⟩ := hseen
    cases k3 e (k2 e (k1 e he hs) hs) hs
  · refine ⟨t, tk, k, t', x, rest, hwindow, ykey, rfl, ?_⟩
    exact ((refuseIf_avoids special_seen _ _).bind hf).reach h4

theorem checkReplay_past (hkey : Avoids Req.Seen key) (hf : ∀ u, Avoids Req.Seen (f u))
    (hreach : Prog.Reach (rs.checkReplay ts key >>= f).run tr q) (hseen : ∃ e ∈ tr, e.req.Seen) :
    ∃ t tk k t' x rest, checkTimestampAt t ts = .ok () ∧ Yields key tk k ∧
      tr = clock t :: (tk ++ clock t' :: seenEv t' k x :: rest) ∧ ∀ e ∈ rest, ¬e.req.Seen := by
  unfold Responder.checkReplay at hreach
  split at hreach
  · exact replayGate_past hkey hf hreach hseen
  · obtain ⟨e, he, hs⟩ := hseen
    exact absurd hs ((avoids_pure.bind hf).reach hreach e he)

variable {q : Prog (pkg C) (Except Err Session)}

theorem runFull_seen {me : Identity C} (hreach : Prog.Reach (rs.runFull me helloBody).run tr q)
    (hseen : ∃ e ∈ tr, e.req.Seen) :
    ∃ hello t t' x rest, decodeHello helloBody = .ok hello ∧ checkTimestampAt t hello.timestampNS = .ok () ∧
      tr = clock t :: clock t' :: seenEv t' ⟨hello.clientID, hello.clientRandom⟩ x :: rest ∧
      ∀ e ∈ rest, ¬e.req.Seen := by
  have hb := special_seen (C := C)
  have hq : Beyond Req.Seen tr q := .inl hseen
  unfold Responder.runFull Responder.admitHello at hreach
  simp only [bind_assoc] at hreach
  obtain ⟨_, _, hello, rfl, ydec, h1, hq1, k1⟩ := reach_past hreach (orAlert_avoids hb _) hq
  obtain ⟨_, _, u1, rfl, ysuite, hr, hq2, k2⟩ := reach_past h1 (refuseIf_avoids hb _ _) hq1
  obtain ⟨_, _, u2, rfl, ydown, h3, -, k3⟩ := reach_past hr (checkDowngrade_avoids hb _ _) hq2
  obtain ⟨rfl, hdec⟩ := orAlert_yields.mp ydec
  obtain ⟨rfl, -⟩ := refuseIf_yields.mp ysuite
  obtain ⟨rfl, -⟩ := checkDowngrade_yields.mp ydown
  obtain ⟨t, tk, k, t', x, rest, hwindow, ykey, rfl, hrest⟩ := checkReplay_past avoids_pure (fun _ => by
    refine (sum256_avoids hb _).bind fun _ => ?_
    refine (refuseIf_avoids hb _ _).bind fun _ => ?_
    refine (orAlert_avoids hb _).bind fun _ => ?_
    refine avoids_pure.bind fun caller => ?_
    refine (replyKEM_avoids hb _).bind fun r => ?_
    refine (fullTranscript_avoids hb ..).bind fun h2 => ?_
    exact authenticate_avoids hb (by simp [Req.Seen]) (by simp [Req.Seen]) (by simp [Req.Seen])) h3 hseen
  obtain ⟨rfl, rfl⟩ := yields_pure.mp ykey
  exact ⟨hello, t, t', x, rest, hdec, hwindow, rfl, hrest⟩

theorem runResume_seen (hreach : Prog.Reach (rs.runResume helloBody).run tr q) (hseen : ∃ e ∈ tr, e.req.Seen) :
    ∃ pre k t' x rest, tr = pre ++ clock t' :: seenEv t' k x :: rest ∧
      (∀ e ∈ pre, ¬e.req.Seen) ∧ ∀ e ∈ rest, ¬e.req.Seen := by
  have hb := special_seen (C := C)
  have hq : Beyond Req.Seen tr q := .inl hseen
  unfold Responder.runResume Responder.admitPSK at hreach
  simp only [bind_assoc] at hreach
  obtain ⟨_, _, hello, rfl, ydec, h1, hq1, k1⟩ := reach_past hreach (orAlert_avoids hb _) hq
  obtain ⟨_, _, u1, rfl, ysuite, h2, hq2, k2⟩ := reach_past h1 (refuseIf_avoids hb _ _) hq1
  obtain ⟨_, _, u2, rfl, ydown, h3, -, k3⟩ := reach_past h2 (checkDowngrade_avoids hb _ _) hq2
  obtain ⟨rfl, -⟩ := orAlert_yields.mp ydec
  obtain ⟨rfl, -⟩ := refuseIf_yields.mp ysuite
  obtain ⟨rfl, -⟩ := checkDowngrade_yields.mp ydown
  obtain ⟨t, tk, k, t', x, rest, -, ykey, rfl, hrest⟩ := checkReplay_past
    ((sum256_avoids hb _).bind fun _ => avoids_pure) (fun _ => by
      refine avoids_pure.bind fun hello => ?_
      refine (redeemPSK_avoids hb (by simp [Req.Seen])).bind fun entry => ?_
      exact finishResume_avoids hb _ _ _ (by simp [Req.Seen])) h3 hseen
  obtain ⟨rfl, rfl⟩ := pskReplayKey_yields.mp ykey
  exact ⟨[clock t, hashEv hello.pskID.bytes], _, t', x, rest, rfl, by simp [clock, hashEv, Req.Seen], hrest⟩

/-- **Every question to the cache carries the reading taken just before**, and a connection asks once. -/
theorem Responder.seen_shape (hreach : Prog.Reach rs.run.run evs q) (hseen : ∃ e ∈ evs, e.req.Seen) :
    ∃ pre k t' x rest, evs = pre ++ clock t' :: seenEv t' k x :: rest ∧
      (∀ e ∈ pre, ¬e.req.Seen) ∧ ∀ e ∈ rest, ¬e.req.Seen := by
  obtain ⟨me, T, body, tr, -, -, -, rfl, hkeep, hpath⟩ := Responder.run_past special_seen hreach (.inl hseen)
  obtain ⟨e, he, hs⟩ := hseen
  have hgreet : ∀ e ∈ (greetingEvs T body : List (Event C)), ¬e.req.Seen := by
    unfold greetingEvs
    rw [List.forall_mem_cons]
    refine ⟨nofun, fun e he => ?_⟩
    obtain ⟨n, x, rfl⟩ := frameReads_read he
    exact nofun
  rcases hpath with ⟨-, hfull⟩ | ⟨-, hresume⟩
  · obtain ⟨hello, t, t', x, rest, -, -, rfl, hrest⟩ := runFull_seen hfull ⟨e, hkeep e he hs, hs⟩
    refine ⟨greetingEvs T body ++ [clock t], ⟨hello.clientID, hello.clientRandom⟩, t', x, rest, by simp, ?_, hrest⟩
    rw [List.forall_mem_append]
    exact ⟨hgreet, by simp [clock, Req.Seen]⟩
  · obtain ⟨pre, k, t', x, rest, rfl, hpre, hrest⟩ := runResume_seen hresume ⟨e, hkeep e he hs, hs⟩
    refine ⟨greetingEvs T body ++ pre, k, t', x, rest, by simp, ?_, hrest⟩
    rw [List.forall_mem_append]
    exact ⟨hgreet, hpre⟩

end Traces

/-! ## The cache along the log -/

variable {ι : Type} [DecidableEq ι] {rss : ι → Responder C} {w₀ w : World} {log : Log ι C}

theorem seen_end {evs a rest : List (Event C)} {t' : Int} {k k' : ReplayKey} {x x' : Bool}
    (h : evs ++ [seenEv t k x] = a ++ seenEv t' k' x' :: rest) (hrest : ∀ e ∈ rest, ¬e.req.Seen) :
    evs = a ∧ t = t' ∧ k = k' := by
  rcases List.eq_nil_or_concat rest with rfl | ⟨rest', e, rfl⟩
  · obtain ⟨hevs, hlast⟩ := List.append_inj' h rfl
    simp only [seenEv, List.cons.injEq, Ev.mk.injEq, Req.seenOrAdd.injEq, and_true] at hlast
    exact ⟨hevs, hlast.1⟩
  have hsplit : a ++ seenEv t' k' x' :: (rest' ++ [e]) = (a ++ seenEv t' k' x' :: rest') ++ [e] := by simp
  rw [List.concat_eq_append, hsplit] at h
  obtain ⟨-, hlast⟩ := List.append_inj' h rfl
  rw [List.singleton_inj] at hlast
  have hnone := hrest e (by simp)
  rw [← hlast] at hnone
  exact absurd trivial hnone

theorem seen_last {rs : Responder C} {evs : List (Event C)} {q : Prog (pkg C) (Except Err Session)} {k : ReplayKey}
    {x : Bool} (hreach : Prog.Reach rs.run.run (evs ++ [seenEv t k x]) q) : ∃ pre, evs = pre ++ [clock t] := by
  obtain ⟨pre, k', t', x', rest, heq, -, hrest⟩ := Responder.seen_shape hreach ⟨seenEv t k x, by simp, trivial⟩
  have hsplit : pre ++ clock t' :: seenEv t' k' x' :: rest = (pre ++ [clock t']) ++ seenEv t' k' x' :: rest := by
    simp
  rw [hsplit] at heq
  obtain ⟨hevs, rfl, -⟩ := seen_end heq hrest
  exact ⟨pre, hevs⟩

/-- **The cache never runs ahead of the clock.** -/
theorem frozenAt_le (hrun : ServerRun rss w₀ log w) (h0 : w₀.cache.frozenAt ≤ w₀.clock) :
    w.cache.frozenAt ≤ w.clock := by
  induction hrun using PoolRun.induction with
  | init => exact h0
  | @snoc log w a w' hrun' hrun hstep ih =>
    cases a with
    | env ch =>
      cases (hstep : Moves w ch w') with
      | tick d => exact le_trans ih (Int.le_add_of_nonneg_right (Int.natCast_nonneg d))
      | sweepCache => exact ReplayCache.rotate_frozenAt_le ih le_rfl
      | sweepStore => exact ih
    | proc c e =>
      cases (hstep : Serves w e w') with
      | now => exact ih
      | issue => exact ih
      | redeem => exact ih
      | own => exact ih
      | seenOrAdd t k =>
        obtain ⟨q, hq⟩ := hrun'.procs c
        rw [traceOf_append, traceOf_proc_self, traceOf_nil] at hq
        obtain ⟨pre, hpre⟩ := seen_last hq
        have hread : t ≤ w.clock := (reading_bounds hrun.steps (c := c) (by rw [hpre]; simp)).2
        show (w.cache.seenOrAdd t k).2.frozenAt ≤ w.clock
        rw [ReplayCache.seenOrAdd_frozenAt]
        exact ReplayCache.rotate_frozenAt_le ih hread

section Steps

omit [DecidableEq ι]

variable {w' : World} {key : ReplayKey} {r : Int} {a : Line ι Chore (pkg C)}

theorem step_holds (hstep : ServerStep w a w') (httl : 0 < w.cache.ttl) (h : w.cache.Holds key r) :
    w'.cache.Holds key r := by
  cases a with
  | env ch =>
    cases (hstep : Moves w ch w') with
    | tick => exact h
    | sweepCache => exact h.rotate httl
    | sweepStore => exact h
  | proc c e =>
    cases (hstep : Serves w e w') with
    | now => exact h
    | issue => exact h
    | redeem => exact h
    | own => exact h
    | seenOrAdd t k => exact h.seenOrAdd httl k

theorem step_cacheTTL (hstep : ServerStep w a w') : w'.cache.ttl = w.cache.ttl := by
  cases a with
  | env ch =>
    cases (hstep : Moves w ch w') with
    | tick => rfl
    | sweepCache => exact w.cache.rotate_ttl _
    | sweepStore => rfl
  | proc c e =>
    cases (hstep : Serves w e w') with
    | seenOrAdd t k => exact w.cache.seenOrAdd_ttl t k
    | _ => rfl

theorem path_cacheTTL (hpath : Path ServerStep w log w') : w'.cache.ttl = w.cache.ttl :=
  hpath.invariant (I := fun u => u.cache.ttl = w.cache.ttl) (fun h hstep => (step_cacheTTL hstep).trans h) rfl

theorem path_holds (hpath : Path ServerStep w log w') (httl : 0 < w.cache.ttl) (h : w.cache.Holds key r) :
    w'.cache.Holds key r := by
  induction hpath with
  | nil => exact h
  | cons hstep _ ih => exact ih (by rwa [step_cacheTTL hstep]) (step_holds hstep httl h)

end Steps

/-! ## At most once -/

def HelloFrame.replayKey (hello : HelloFrame) : ReplayKey := ⟨hello.clientID, hello.clientRandom⟩

/-- Connection `c` passes both gates with `hello`: it read magic and HELLO, `CheckTimestamp` accepted the
timestamp at its reading, and at the line after `pre`, in the state `w₁`, the cache saw the key first. -/
def Passes (w₀ : World) (log : Log ι C) (c : ι) (hello : HelloFrame) (pre : Log ι C) (w₁ : World) : Prop :=
  ∃ body t t', decodeHello body = .ok hello ∧
    traceOf c pre = greetingEvs frameHello body ++ [clock t, clock t'] ∧
    checkTimestampAt t hello.timestampNS = .ok () ∧
    Path.Occurs ServerStep w₀ log pre (.proc c (seenEv t' hello.replayKey false)) w₁

/-- The second of two passes would come after the window has closed. -/
theorem no_second_pass (hrun : ServerRun rss w₀ log w) (httl : w₀.cache.ttl = replayCacheTTLSec * second)
    (hcache : w₀.cache.frozenAt ≤ w₀.clock) (hstart : 0 ≤ w₀.clock) (hend : w.clock + replayWindowNS < 2 ^ 63)
    {pre mid : Log ι C} {c c' : ι} {t1 t2 t3 t4 : Int} {key : ReplayKey} {w1 w2 : World} {greet greet' : List (Event C)}
    (htrace : traceOf c pre = greet ++ [clock t1, clock t2]) (hwindow : checkTimestampAt t1 ts = .ok ())
    (hocc : Path.Occurs ServerStep w₀ log pre (.proc c (seenEv t2 key false)) w1)
    (htrace' : traceOf c' (pre ++ .proc c (seenEv t2 key false) :: mid) = greet' ++ [clock t3, clock t4])
    (hocc' : Path.Occurs ServerStep w₀ log (pre ++ .proc c (seenEv t2 key false) :: mid)
      (.proc c' (seenEv t4 key false)) w2) (hopen : checkTimestampAt w2.clock ts = .ok ()) : False := by
  have httl_pos : 0 < replayCacheTTLSec * second := by decide
  have hwidth : replayCacheTTLSec * second = 2 * replayWindowNS := by decide
  obtain ⟨-, hpre⟩ := hocc
  obtain ⟨⟨post, rfl⟩, hpre'⟩ := hocc'
  obtain ⟨v, hfirst, hline⟩ := Path.append_iff.mp hpre'
  obtain rfl := path_det hpre hfirst
  obtain ⟨u, hadd, hmid⟩ := Path.cons_iff.mp hline
  obtain ⟨v, hupto, hrest⟩ := hrun.upto
  obtain rfl := path_det hpre' hupto.steps
  obtain ⟨u', hadd', hpost⟩ := Path.cons_iff.mp hrest
  -- the first pass puts the key into the cache, where it is still held at the second
  obtain ⟨hnew, rfl⟩ := serves_seen hadd
  have httl1 : w1.cache.ttl = replayCacheTTLSec * second := (path_cacheTTL hpre).trans httl
  have hheld := ReplayCache.holds_added hnew.symm (by rw [httl1]; exact httl_pos)
  have httl2 := (path_cacheTTL hpre').trans httl
  have hheld2 := path_holds hmid (by rw [ReplayCache.seenOrAdd_ttl, httl1]; exact httl_pos) hheld
  -- so the second pass comes more than a ttl after the first reading
  have hlate := hheld2.readmitted (by rw [httl2]; exact httl_pos) (serves_seen hadd').1.symm
  have hread : t4 ≤ w2.clock := (reading_bounds (c := c') hpre' (by rw [htrace']; simp)).2
  have hclock := ReplayCache.rotate_frozenAt_le (frozenAt_le hupto hcache) hread
  -- but its window is open, and opened no earlier than a ttl before
  have hle : t1 ≤ t2 := reading_order (c := c) hpre htrace (by simp)
  have hbounds := reading_bounds (c := c) hpre (t := t1) (by rw [htrace]; simp)
  have hw1 : w1.clock ≤ w2.clock := path_clock hline
  have hw2 : w2.clock ≤ w.clock := path_clock hrest
  have hspan := window_span hwindow hopen (le_trans hstart hbounds.1) (le_trans hbounds.2 hw1) (by omega)
  rw [httl2, hwidth] at hlate
  omega

/-- **A HELLO passes at most once while its window is open.**  If the lock of `SeenOrAdd` is taken while
`CheckTimestamp` would still accept the timestamp, two passes of a HELLO with the same timestamp, client id
and random are one and the same line of the log. -/
theorem replay_once (hrun : ServerRun rss w₀ log w) (httl : w₀.cache.ttl = replayCacheTTLSec * second)
    (hcache : w₀.cache.frozenAt ≤ w₀.clock) (hstart : 0 ≤ w₀.clock)
    (hend : w.clock + replayWindowNS < 2 ^ 63) {hello hello' : HelloFrame} {c c' : ι} {pre pre' : Log ι C}
    {w₁ w₂ : World} (hts : hello'.timestampNS = hello.timestampNS)
    (hkey : hello'.replayKey = hello.replayKey) (hpass : Passes w₀ log c hello pre w₁)
    (hpass' : Passes w₀ log c' hello' pre' w₂)
    (hopen : checkTimestampAt w₁.clock hello.timestampNS = .ok ())
    (hopen' : checkTimestampAt w₂.clock hello.timestampNS = .ok ()) : pre' = pre ∧ c' = c := by
  obtain ⟨body, t₁, t₂, -, htrace, hwindow, hocc⟩ := hpass
  obtain ⟨body', t₃, t₄, -, htrace', hwindow', hocc'⟩ := hpass'
  rw [hts] at hwindow'
  rw [hkey] at hocc'
  rcases hocc.trichotomy hocc' with ⟨hpre, hline⟩ | ⟨mid, rfl⟩ | ⟨mid, rfl⟩
  · exact ⟨hpre, (Line.proc.inj hline).1⟩
  · exact (no_second_pass hrun httl hcache hstart hend htrace hwindow hocc htrace' hocc' hopen').elim
  · exact (no_second_pass hrun httl hcache hstart hend htrace' hwindow' hocc' htrace hocc hopen).elim

/-! ### A HELLO that passes twice

The first connection passes at once. The second has its timestamp checked at the end of the window and is
then held up for ninety seconds, in which a sweep and its own call rotate the key out of the cache. -/

def admittingEvs (m : Meeting C) (t t' : Int) : List (Event C) :=
  greetingEvs frameHello m.hello.bytes ++
    ([clock t, clock t', seenEv t' m.hello.replayKey false] ++ [hashEv m.meI.publicBytes])

theorem admitting_reach (t' : Int) (hwindow : checkTimestampAt t sampleMeeting.hello.timestampNS = .ok ()) :
    ∃ q, Prog.Reach sampleMeeting.rs.run.run (admittingEvs sampleMeeting t t') q := by
  have hdone := Meeting.responder_completes (m := { sampleMeeting with checkAt := t, seenAt := t' })
    samplePrims_lawful { sampleMeeting_undisturbed with window := hwindow }
  unfold Meeting.responderEvs at hdone
  rw [← List.append_assoc] at hdone
  obtain ⟨q, hq, -⟩ := Prog.Reach.split hdone
  exact ⟨q, hq⟩

/-- The lines before the first pass, and those before the second. -/
def beforeFirst (m : Meeting C) : Log Bool C :=
  (greetingEvs frameHello m.hello.bytes ++ [clock 0, clock 0]).map (.proc false)

def beforeSecond (m : Meeting C) : Log Bool C :=
  beforeFirst m ++ (.proc false (seenEv 0 m.hello.replayKey false) ::
    .proc false (hashEv m.meI.publicBytes) :: .env (.tick 30000000000) ::
    ((greetingEvs frameHello m.hello.bytes ++ [clock 30000000000]).map (.proc true) ++
      [.env (.tick 30000000000), .env .sweepCache, .env (.tick 60000000000), .proc true (clock 120000000000)]))

def replayLog (m : Meeting C) : Log Bool C :=
  beforeSecond m ++ [.proc true (seenEv 120000000000 m.hello.replayKey false), .proc true (hashEv m.meI.publicBytes)]

theorem replayLog_false (m : Meeting C) : traceOf false (replayLog m) = admittingEvs m 0 0 := by
  rw [replayLog, beforeSecond, beforeFirst, traceOf_append, traceOf_append, traceOf_map_proc, traceOf_proc_self,
    traceOf_proc_self, traceOf_env, traceOf_append, traceOf_map_proc_ne (by decide), admittingEvs]
  simp [traceOf_proc_ne]

theorem beforeSecond_true (m : Meeting C) : traceOf true (beforeSecond m) =
    greetingEvs frameHello m.hello.bytes ++ [clock 30000000000, clock 120000000000] := by
  rw [beforeSecond, beforeFirst, traceOf_append, traceOf_map_proc_ne (by decide), traceOf_proc_ne (by decide),
    traceOf_proc_ne (by decide), traceOf_env, traceOf_append, traceOf_map_proc]
  simp

theorem replayLog_true (m : Meeting C) :
    traceOf true (replayLog m) = admittingEvs m 30000000000 120000000000 := by
  rw [replayLog, traceOf_append, beforeSecond_true, admittingEvs]
  simp

theorem sample_passes :
    (∃ w, ServerRun (fun _ : Bool => sampleMeeting.rs) sampleWorld (replayLog sampleMeeting) w ∧
      w.clock = 120000000000) ∧
    Passes sampleWorld (replayLog sampleMeeting) false sampleMeeting.hello (beforeFirst sampleMeeting) sampleWorld ∧
    ∃ w2, Passes sampleWorld (replayLog sampleMeeting) true sampleMeeting.hello (beforeSecond sampleMeeting) w2 := by
  obtain ⟨w, hw, hclock⟩ := Option.map_eq_some_iff.mp (by decide :
    ((replayLog sampleMeeting).foldlM World.line sampleWorld).map World.clock = some 120000000000)
  have hpath := path_of_lines hw
  obtain ⟨w2, hsecond, -⟩ := Path.append_iff.mp hpath
  have hdecode := Meeting.hello_decode sampleMeeting_undisturbed
  refine ⟨⟨w, ⟨hpath, fun c => ?_⟩, hclock⟩, ?_, w2, ?_⟩
  · cases c with
    | false =>
      rw [replayLog_false]
      exact admitting_reach 0 rfl
    | true =>
      rw [replayLog_true]
      exact admitting_reach _ rfl
  · exact ⟨_, 0, 0, hdecode, traceOf_map_proc .., rfl, ⟨_, List.append_assoc ..⟩, path_of_lines rfl⟩
  · exact ⟨_, 30000000000, 120000000000, hdecode, beforeSecond_true _, rfl, ⟨[_], rfl⟩, hsecond⟩

/-- **A HELLO is admitted twice.**  On a new server, two connections send the HELLO of the sample meeting and
both pass both gates. -/
theorem replayed_hello : ∃ log w pre w₁ pre' w₂, ServerRun (fun _ : Bool => sampleMeeting.rs) sampleWorld log w ∧
    Passes sampleWorld log false sampleMeeting.hello pre w₁ ∧
    Passes sampleWorld log true sampleMeeting.hello pre' w₂ := by
  obtain ⟨⟨w, hrun, -⟩, hfirst, w₂, hsecond⟩ := sample_passes
  exact ⟨_, w, _, _, _, w₂, hrun, hfirst, hsecond⟩

theorem replay_once_sample :
    Passes sampleWorld (replayLog sampleMeeting) false sampleMeeting.hello (beforeFirst sampleMeeting) sampleWorld ∧
    checkTimestampAt sampleWorld.clock sampleMeeting.hello.timestampNS = .ok () ∧
    ∀ c pre w₁, Passes sampleWorld (replayLog sampleMeeting) c sampleMeeting.hello pre w₁ →
      checkTimestampAt w₁.clock sampleMeeting.hello.timestampNS = .ok () →
      pre = beforeFirst sampleMeeting ∧ c = false := by
  obtain ⟨⟨w, hrun, hclock⟩, hfirst, -⟩ := sample_passes
  refine ⟨hfirst, rfl, ?_⟩
  intro c pre w₁ hpass hopen
  exact replay_once hrun rfl le_rfl le_rfl (by rw [hclock]; decide) rfl rfl hfirst hpass rfl hopen

end Zap.Handshake
