/-
# Zap.Handshake.SessionRuns — what each Session method can do.

For every method one relation lists its possible runs: the events it performs, the session it leaves and
the result it returns, each with the conditions under which that run happens (`DataRun`, `RekeyRun`,
`SendRun`, `RecvRun`). The `…_runs` theorems show that the relations miss nothing; all later arguments
about sessions are case splits over these relations and never look inside a method again.

`SessionStep` is one completed method call of a session, with its events.
-/
import Zap.Handshake.FrameRuns
import Zap.Handshake.Session

namespace Zap.Handshake

open Zap.Lib Zap.Lib.Prog

variable {C : Prims}

/-! ## The events of a session -/

def sealEv (s : Session) (payload ct : Bytes) : Event C :=
  ⟨.aeadSeal s.sendAEAD (buildNonce s.sendSalt s.sendCounter) payload
    (buildAAD frameData (Session.outerLen payload) s.sendDir s.sendEpoch).bytes, ct⟩

def openEv (s : Session) (d : DataFrame) (r : Option Bytes) : Event C :=
  ⟨.aeadOpen s.recvAEAD (buildNonce s.recvSalt d.nonceCounter) d.ciphertext
    (buildAAD frameData ((nonceCtrLen + 4 + d.ciphertext.length) % 2 ^ 32)
      s.recvDir s.recvEpoch).bytes, r⟩

/-- A frame type that spends or retires a nonce: DATA and REKEY. -/
def FrameType.moves (t : FrameType) : Bool := t = frameData || t = frameRekey

/-- An event that is no call of `Seal` and no write of a DATA or REKEY frame. -/
def IsQuiet (e : Event C) : Prop :=
  match e.req with
  | .aeadSeal .. => False
  | .write b => ∀ t ∈ b.head?, (FrameType.mk t).moves = false
  | _ => True

theorem IsRead.quiet {e : Event C} (h : IsRead e) : IsQuiet e := by
  obtain ⟨n, x, rfl⟩ := h
  trivial

variable {α : Type} {e : Err} {tr pre : List (Event C)} {r : Except Err α} {s s' : Session} {p ct body : Bytes}
  {x : Session × Except Err Bytes}

theorem writeAlertFor_runs (h : Runs (writeAlertFor e : M C α).run tr r) : (∀ ev ∈ tr, IsQuiet ev) ∧ r = .error e := by
  obtain ⟨tr1, tr2, w, rfl, hw, hrest⟩ := runs_bind.mp h
  obtain ⟨tr3, tr4, w', rfl, hw', hret⟩ := runs_bind.mp hw
  obtain ⟨rfl, rfl⟩ := runs_ret.mp hret
  obtain ⟨rfl, rfl⟩ := runs_ret.mp hrest
  refine ⟨?_, rfl⟩
  rcases writeFrame_runs hw' with ⟨-, rfl, -⟩ | ⟨-, w, rfl, -⟩
  · simp
  · simp [IsQuiet, wrote, envelope, FrameType.moves, frameAlert, frameData, frameRekey]

/-! ## The runs of `Send` -/

def dataBody (s : Session) (ct : Bytes) : Bytes := DataFrame.encode ⟨s.sendCounter, ct⟩

inductive DataRun (s : Session) (p : Bytes) :
    List (Event C) → Session → Except Err Unit → Prop
  /-- The size check refuses the payload. -/
  | tooLarge (hbig : maxFrameBody < Session.outerLen p) :
      DataRun s p [] s (.error (decodeErr s!"DATA payload too large {p.length}"))
  /-- Sealed, but the ciphertext or the frame has a length the code refuses. -/
  | refused (ct : Bytes) (e : Err) (hfit : Session.outerLen p ≤ maxFrameBody)
      (hbad : ct.length ≠ Session.ctLen p ∨ maxFrameBody < (dataBody s ct).length) :
      DataRun s p [sealEv s p ct] s (.error e)
  /-- Sealed and written, and the transport reported a failure. -/
  | failed (ct : Bytes) (e : String) (hfit : Session.outerLen p ≤ maxFrameBody)
      (hlen : ct.length = Session.ctLen p) (hbody : (dataBody s ct).length ≤ maxFrameBody) :
      DataRun s p [sealEv s p ct, wrote frameData (dataBody s ct) (some e)] s (.error (.other e))
  /-- Sealed and written. -/
  | sent (ct : Bytes) (hfit : Session.outerLen p ≤ maxFrameBody)
      (hlen : ct.length = Session.ctLen p) (hbody : (dataBody s ct).length ≤ maxFrameBody) :
      DataRun s p [sealEv s p ct, wrote frameData (dataBody s ct) none] (s.advance p) (.ok ())

variable {r : Except Err Unit}

theorem sendData_runs (h : Runs (s.sendData p) tr (s', r)) : DataRun s p tr s' r := by
  unfold Session.sendData at h
  split at h
  · rename_i hbig
    obtain ⟨rfl, ⟨⟩⟩ := runs_ret.mp h
    exact .tooLarge hbig
  rename_i hfit
  have hfit := Nat.le_of_not_lt hfit
  obtain ⟨ct, tr', rfl, hrest⟩ := runs_ask.mp h
  change Runs (ite _ _ _ : P C _) _ _ at hrest
  split at hrest
  · rename_i hlen
    obtain ⟨rfl, ⟨⟩⟩ := runs_ret.mp hrest
    exact .refused ct _ hfit (.inl hlen)
  rename_i hlen
  obtain ⟨tr1, tr2, w, rfl, hw, hret⟩ := runs_bind.mp hrest
  rcases writeFrame_runs hw with ⟨hlong, rfl, e, rfl⟩ | ⟨hbody, w, rfl, rfl⟩
  · obtain ⟨rfl, ⟨⟩⟩ := runs_ret.mp hret
    exact .refused ct e hfit (.inr hlong)
  cases w with
  | none =>
    obtain ⟨rfl, ⟨⟩⟩ := runs_ret.mp hret
    exact .sent ct hfit (not_not.mp hlen) hbody
  | some e =>
    obtain ⟨rfl, ⟨⟩⟩ := runs_ret.mp hret
    exact .failed ct e hfit (not_not.mp hlen) hbody

inductive RekeyRun (s : Session) : List (Event C) → Session → Except Err Unit → Prop
  | exhausted (hmax : s.sendEpoch = 0xFF) : RekeyRun s [] s (.error (.sentinel .epochExhausted))
  | failed (hmax : s.sendEpoch ≠ 0xFF) (e : String) :
      RekeyRun s [wrote frameRekey Session.rekeyBody (some e)] s (.error (.other e))
  | done (hmax : s.sendEpoch ≠ 0xFF) (base : Int) :
      RekeyRun s [wrote frameRekey Session.rekeyBody none, clock base] (s.ratchetSend C base) (.ok ())

theorem rekeyLocalLocked_runs (h : Runs s.rekeyLocalLocked tr (s', r)) : RekeyRun s tr s' r := by
  unfold Session.rekeyLocalLocked at h
  split at h
  · rename_i hmax
    obtain ⟨rfl, ⟨⟩⟩ := runs_ret.mp h
    exact .exhausted hmax
  rename_i hmax
  obtain ⟨tr1, tr2, w, rfl, hw, hrest⟩ := runs_bind.mp h
  rcases writeFrame_runs hw with ⟨hlong, -⟩ | ⟨-, w, rfl, rfl⟩
  · exact absurd hlong (by decide)
  cases w with
  | some e =>
    obtain ⟨rfl, ⟨⟩⟩ := runs_ret.mp hrest
    exact .failed hmax e
  | none =>
    obtain ⟨base, tr', rfl, hret⟩ := runs_ask.mp hrest
    obtain ⟨rfl, ⟨⟩⟩ := runs_ret.mp hret
    exact .done hmax base

/-- The runs of the threshold test: the clock is read when neither counter decides. -/
inductive DueRun (s : Session) (n : UInt64) : List (Event C) → Bool → Prop
  | counted (hcap : s.sendCounter + 1 ≥ s.sendFrameCap ∨ s.sendBytes + n ≥ s.sendBytesCap) : DueRun s n [] true
  | timed (t : Int) (hframes : ¬s.sendCounter + 1 ≥ s.sendFrameCap)
      (hbytes : ¬s.sendBytes + n ≥ s.sendBytesCap) :
      DueRun s n [clock t] (decide (t - s.sendBase ≥ s.sendTimeCap))

variable {s : Session}

theorem needsRekeyLocked_runs {n : UInt64} {b : Bool} (h : Runs (s.needsRekeyLocked n) tr b) : DueRun s n tr b := by
  unfold Session.needsRekeyLocked at h
  split at h
  · rename_i hframes
    obtain ⟨rfl, rfl⟩ := runs_ret.mp h
    exact .counted (.inl hframes)
  rename_i hframes
  split at h
  · rename_i hbytes
    obtain ⟨rfl, rfl⟩ := runs_ret.mp h
    exact .counted (.inr hbytes)
  · rename_i hbytes
    obtain ⟨t, tr', rfl, hret⟩ := runs_ask.mp h
    obtain ⟨rfl, rfl⟩ := runs_ret.mp hret
    exact .timed t hframes hbytes

inductive SendRun (s : Session) (p : Bytes) : List (Event C) → Session → Except Err Unit → Prop
  | closed (hclosed : s.closed = true) : SendRun s p [] s (.error (.sentinel .sessionClosed))
  /-- A rekey was due and did not happen. -/
  | stuck {pre tr : List (Event C)} {s' : Session} {e : Err} (hopen : s.closed = false)
      (hdue : DueRun s (UInt64.ofNat p.length) pre true) (hrekey : RekeyRun s tr s' (.error e)) :
      SendRun s p (pre ++ tr) s' (.error e)
  /-- A rekey was due and the payload went to the new epoch. -/
  | rekeyed {pre tr tr' : List (Event C)} {s₁ s' : Session} {r : Except Err Unit}
      (hopen : s.closed = false) (hdue : DueRun s (UInt64.ofNat p.length) pre true)
      (hrekey : RekeyRun s tr s₁ (.ok ())) (hdata : DataRun s₁ p tr' s' r) :
      SendRun s p (pre ++ tr ++ tr') s' r
  | direct {pre tr : List (Event C)} {s' : Session} {r : Except Err Unit}
      (hopen : s.closed = false) (hdue : DueRun s (UInt64.ofNat p.length) pre false)
      (hdata : DataRun s p tr s' r) : SendRun s p (pre ++ tr) s' r

theorem send_runs (h : Runs (s.send p) tr (s', r)) : SendRun s p tr s' r := by
  unfold Session.send at h
  split at h
  · rename_i hclosed
    obtain ⟨rfl, ⟨⟩⟩ := runs_ret.mp h
    exact .closed hclosed
  rename_i hopen
  have hopen : s.closed = false := by simpa using hopen
  obtain ⟨pre, tr', need, rfl, hneed, hrest⟩ := runs_bind.mp h
  have hdue := needsRekeyLocked_runs hneed
  cases need with
  | false => exact .direct hopen hdue (sendData_runs hrest)
  | true =>
    obtain ⟨tr1, tr2, ⟨s1, r1⟩, rfl, hrekey, hdata⟩ := runs_bind.mp hrest
    have hrekey := rekeyLocalLocked_runs hrekey
    cases r1 with
    | error e =>
      obtain ⟨rfl, ⟨⟩⟩ := runs_ret.mp hdata
      rw [List.append_nil]
      exact .stuck hopen hdue hrekey
    | ok _ =>
      rw [← List.append_assoc]
      exact .rekeyed hopen hdue hrekey (sendData_runs hdata)

theorem sendData_run (hfit : Session.outerLen p ≤ maxFrameBody) (hlen : ct.length = Session.ctLen p)
    (hbody : (dataBody s ct).length ≤ maxFrameBody) (w : Option String) :
    Runs (s.sendData p : P C _) [sealEv s p ct, wrote frameData (dataBody s ct) w]
      (if w = none then s.advance p else s, writeResult w) := by
  unfold Session.sendData
  rw [if_neg (Nat.not_lt.mpr hfit)]
  refine .step ?_
  change Reach (ite _ _ _ : P C _) _ _
  rw [if_neg (not_not.mpr hlen)]
  refine runs_bind.mpr ⟨[_], [], _, rfl, writeFrame_run hbody w, ?_⟩
  cases w <;> exact .here _

theorem send_run {t : Int} (hopen : s.closed = false) (hdue : s.rekeyDue (UInt64.ofNat p.length) t = false)
    (hfit : Session.outerLen p ≤ maxFrameBody) (hlen : ct.length = Session.ctLen p)
    (hbody : (dataBody s ct).length ≤ maxFrameBody) (w : Option String) :
    Runs (s.send p : P C _) [clock t, sealEv s p ct, wrote frameData (dataBody s ct) w]
      (if w = none then s.advance p else s, writeResult w) := by
  simp only [Session.rekeyDue, Bool.or_eq_false_iff, decide_eq_false_iff_not] at hdue
  obtain ⟨⟨hframes, hbytes⟩, htime⟩ := hdue
  unfold Session.send Session.needsRekeyLocked
  rw [if_neg (by simp [hopen]), if_neg hframes, if_neg hbytes]
  refine .step ?_
  change Reach (ite _ _ _ : P C _) _ _
  rw [if_neg (by simpa using htime)]
  exact sendData_run hfit hlen hbody w

theorem rekey_runs (h : Runs s.rekey tr (s', r)) :
    (s.closed = true ∧ tr = [] ∧ s' = s) ∨ (s.closed = false ∧ RekeyRun s tr s' r) := by
  unfold Session.rekey at h
  split at h
  · rename_i hclosed
    obtain ⟨rfl, ⟨⟩⟩ := runs_ret.mp h
    exact .inl ⟨hclosed, rfl, rfl⟩
  · rename_i hopen
    exact .inr ⟨by simpa using hopen, rekeyLocalLocked_runs h⟩

/-! ## The runs of `Recv` -/

/-- The runs of the receive loop. A run that fails leaves the state of the last REKEY it absorbed. -/
inductive RecvRun : Session → List (Event C) → Session → Except Err Bytes → Prop
  | fail {s : Session} {tr : List (Event C)} {e : Err} (hquiet : ∀ ev ∈ tr, IsQuiet ev) : RecvRun s tr s (.error e)
  /-- A DATA frame whose counter passed both checks and whose ciphertext opened. -/
  | data {s : Session} {pre : List (Event C)} {body plain : Bytes} {d : DataFrame}
      (hread : ∀ ev ∈ pre, IsRead ev) (hbytes : pre.flatMap readBytes = envelope frameData body)
      (hdec : decodeData body = .ok d)
      (hfresh : ¬(s.recvHave = true ∧ d.nonceCounter ≤ s.recvCounter))
      (hcap : ¬d.nonceCounter ≥ rekeyFrameCap) :
      RecvRun s (pre ++ [openEv s d (some plain)]) (s.accept d.nonceCounter) (.ok plain)
  /-- A REKEY frame, then the rest of the loop. -/
  | rekey {s s' : Session} {pre tr : List (Event C)} {body : Bytes} {r : Except Err Bytes}
      (hread : ∀ ev ∈ pre, IsRead ev) (hbytes : pre.flatMap readBytes = envelope frameRekey body)
      (hmax : s.recvEpoch ≠ 0xFF) (hrest : RecvRun (s.ratchetRecv C) tr s' r) :
      RecvRun s (pre ++ tr) s' r

theorem failWith_runs {r : Except Err α} (h : Runs (s.failWith e) tr (s', r)) :
    (∀ ev ∈ tr, IsQuiet ev) ∧ s' = s ∧ r = .error e := by
  obtain ⟨tr1, tr2, w, rfl, hw, hret⟩ := runs_bind.mp h
  obtain ⟨rfl, ⟨⟩⟩ := runs_ret.mp hret
  refine ⟨?_, rfl, rfl⟩
  rw [List.append_nil]
  exact (writeAlertFor_runs hw).1

variable {r : Except Err Bytes}

theorem RecvRun.ofFailWith (hpre : ∀ ev ∈ pre, IsQuiet ev) (h : Runs (s.failWith e) tr (s', r)) :
    RecvRun s (pre ++ tr) s' r := by
  obtain ⟨hquiet, rfl, rfl⟩ := failWith_runs h
  refine .fail fun ev hev => ?_
  rcases List.mem_append.mp hev with hev | hev
  · exact hpre ev hev
  · exact hquiet ev hev

theorem handleDataLocked_runs (hread : ∀ ev ∈ pre, IsRead ev) (hbytes : pre.flatMap readBytes = envelope frameData body)
    (h : Runs (s.handleDataLocked body) tr (s', r)) : RecvRun s (pre ++ tr) s' r := by
  have hpre : ∀ ev ∈ pre, IsQuiet ev := fun ev hev => (hread ev hev).quiet
  unfold Session.handleDataLocked at h
  split at h
  · exact .ofFailWith hpre h
  rename_i d hdec
  split at h
  · exact .ofFailWith hpre h
  rename_i hfresh
  split at h
  · exact .ofFailWith hpre h
  rename_i hcap
  obtain ⟨x, tr', rfl, hrest⟩ := runs_ask.mp h
  cases x with
  | none =>
    rw [List.append_cons]
    refine .ofFailWith (fun ev hev => ?_) hrest
    rcases List.mem_append.mp hev with hev | hev
    · exact hpre ev hev
    · rw [List.mem_singleton.mp hev]
      trivial
  | some plain =>
    obtain ⟨rfl, ⟨⟩⟩ := runs_ret.mp hrest
    exact .data hread hbytes hdec hfresh hcap

theorem recvLoop_runs {s s' : Session} {tr : List (Event C)} (h : Runs s.recvLoop tr (s', r)) : RecvRun s tr s' r := by
  rw [Session.recvLoop] at h
  obtain ⟨pre, tr', f, rfl, hframe, hrest⟩ := runs_bind.mp h
  obtain ⟨hread, hbytes⟩ := readFrame_runs hframe
  have hpre : ∀ ev ∈ pre, IsQuiet ev := fun ev hev => (hread ev hev).quiet
  cases f with
  | error e =>
    obtain ⟨rfl, ⟨⟩⟩ := runs_ret.mp hrest
    rw [List.append_nil]
    exact .fail hpre
  | ok f =>
    obtain ⟨t, body⟩ := f
    have hbytes := (hbytes t body rfl).1
    change Runs (ite _ _ _ : P C _) _ _ at hrest
    split at hrest
    · subst t
      exact handleDataLocked_runs hread hbytes hrest
    split at hrest
    · subst t
      split at hrest
      · exact .ofFailWith hpre hrest
      split at hrest
      · exact .ofFailWith hpre hrest
      · rename_i hmax
        -- the recursion of the loop: one epoch further
        have hlt := Session.ratchetRecv_epoch_lt (C := C) hmax
        exact .rekey hread hbytes hmax (recvLoop_runs hrest)
    · split at hrest
      · obtain ⟨rfl, ⟨⟩⟩ := runs_ret.mp hrest
        rw [List.append_nil]
        exact .fail hpre
      · exact .ofFailWith hpre hrest
termination_by 255 - s.recvEpoch.toNat

theorem recv_runs (h : Runs s.recv tr (s', r)) :
    (s.closed = true ∧ tr = [] ∧ s' = s ∧ ∃ e, r = .error e) ∨
      (s.closed = false ∧ RecvRun s tr s' r) := by
  unfold Session.recv at h
  split at h
  · rename_i hclosed
    obtain ⟨rfl, ⟨⟩⟩ := runs_ret.mp h
    exact .inl ⟨hclosed, rfl, rfl, _, rfl⟩
  · rename_i hopen
    exact .inr ⟨by simpa using hopen, recvLoop_runs h⟩

theorem recvLoop_data {plain : Bytes} {d : DataFrame} (hfit : body.length ≤ maxFrameBody)
    (hdec : decodeData body = .ok d) (hfresh : ¬(s.recvHave = true ∧ d.nonceCounter ≤ s.recvCounter))
    (hcap : ¬d.nonceCounter ≥ rekeyFrameCap) :
    Runs (s.recvLoop : P C _) (frameReads frameData body ++ [openEv s d (some plain)])
      (s.accept d.nonceCounter, .ok plain) := by
  rw [Session.recvLoop]
  refine runs_bind.mpr ⟨_, _, _, rfl, readFrame_run hfit, ?_⟩
  change Runs (s.handleDataLocked body) _ _
  simp only [Session.handleDataLocked, hdec]
  rw [if_neg hfresh, if_neg hcap]
  exact .step (.here _)

theorem recvLoop_rekey {b : UInt8} (hmax : s.recvEpoch ≠ 0xFF) (h : Runs (s.ratchetRecv C).recvLoop tr x) :
    Runs s.recvLoop (frameReads frameRekey [b] ++ tr) x := by
  rw [Session.recvLoop]
  have hfit : [b].length ≤ maxFrameBody := by simp [maxFrameBody]
  refine runs_bind.mpr ⟨_, _, _, rfl, readFrame_run hfit, ?_⟩
  change Runs (dite _ _ _ : P C _) _ _
  rw [dif_neg hmax]
  exact h

theorem recv_open (hopen : s.closed = false) (h : Runs s.recvLoop tr x) : Runs s.recv tr x := by
  unfold Session.recv
  rw [if_neg (by simp [hopen])]
  exact h

/-! ## Completed calls -/

inductive Act
  | send (payload : Bytes) (r : Except Err Unit)
  | rekey (r : Except Err Unit)
  | recv (r : Except Err Bytes)
  | close

structure Call (C : Prims) where
  act : Act
  evs : List (Event C)

/-- One completed call, in any environment. -/
inductive SessionStep : Session → Call C → Session → Prop
  | send {s s' : Session} {p : Bytes} {r : Except Err Unit} {tr : List (Event C)} :
      Runs (s.send p) tr (s', r) → SessionStep s ⟨.send p r, tr⟩ s'
  | rekey {s s' : Session} {r : Except Err Unit} {tr : List (Event C)} :
      Runs s.rekey tr (s', r) → SessionStep s ⟨.rekey r, tr⟩ s'
  | recv {s s' : Session} {r : Except Err Bytes} {tr : List (Event C)} :
      Runs s.recv tr (s', r) → SessionStep s ⟨.recv r, tr⟩ s'
  | close {s : Session} : SessionStep s ⟨.close, []⟩ s.close

theorem SessionStep.det {t t' : Session} {c : Call C} (h : SessionStep s c t) (h' : SessionStep s c t') : t = t' := by
  cases h with
  | send h => cases h' with | send h' => exact congrArg Prod.fst (h.det h')
  | rekey h => cases h' with | rekey h' => exact congrArg Prod.fst (h.det h')
  | recv h => cases h' with | recv h' => exact congrArg Prod.fst (h.det h')
  | close => cases h' with | close => rfl

def events (calls : List (Call C)) : List (Event C) := calls.flatMap Call.evs

theorem events_concat (calls : List (Call C)) (c : Call C) : events (calls ++ [c]) = events calls ++ c.evs := by
  simp [events]

/-! ## Fresh sessions -/

/-- `s` is what `newSession` returns for a role and session keys. -/
def IsNew (C : Prims) (role : AuthRole) (keys : SessionKeys) (s : Session) : Prop :=
  ∃ peerID suite now tr, Runs (newSession role peerID suite keys now : M C Session).run tr (.ok s)

/-- A new session is one end of the channel: the initiator's or, mirrored, the responder's. -/
theorem IsNew.cases {role : AuthRole} {keys : SessionKeys} (h : IsNew C role keys s) :
    ∃ peerID suite now,
      (role = roleInitiator ∧ ∃ psk, s = .keyed role peerID suite now
        keys.kInitToResp keys.saltInitToResp roleInitiator
        keys.kRespToInit keys.saltRespToInit roleResponder psk) ∨
      (role = roleResponder ∧ ∃ psk, s = .keyed role peerID suite now
        keys.kRespToInit keys.saltRespToInit roleResponder
        keys.kInitToResp keys.saltInitToResp roleInitiator psk) := by
  obtain ⟨peerID, suite, now, tr, h⟩ := h
  refine ⟨peerID, suite, now, ?_⟩
  unfold newSession at h
  split at h
  · rename_i hrole
    obtain ⟨tr1, tr2, r, rfl, -, hret⟩ := runs_bind.mp h
    cases r with
    | error e =>
      obtain ⟨-, hret⟩ := runs_ret.mp hret
      cases hret
    | ok psk =>
      obtain ⟨-, hret⟩ := runs_ret.mp hret
      cases hret
      exact .inl ⟨hrole, some psk, rfl⟩
  · split at h
    · rename_i hrole
      obtain ⟨-, hret⟩ := runs_ret.mp h
      cases hret
      exact .inr ⟨hrole, none, rfl⟩
    · obtain ⟨-, hret⟩ := runs_ret.mp h
      cases hret

end Zap.Handshake
