/-
# Zap.Handshake.SessionNonce — which nonces a session's `Send` spends.

`Send` seals under the key of the current epoch with the nonce `salt ∥ counter`, and advances the counter
only after the DATA frame was written. A slot is a position `(epoch, counter)` on the ratchet chain; the
slots a session seals at, with the payloads sealed there, form a ledger (`Zap.Lib.Ledger`), and `Tracks`
says that a ledger is the record of a session's run. `track_step` moves the ledger along with any
completed call of a method.

The counter stays where it is when `Send` fails after sealing, so the run is free of nonce reuse exactly
when no such payload is followed, at the same counter, by a different one (`CleanRun`).
-/
import Mathlib.Data.List.Forall2
import Zap.Lib.Ledger
import Zap.Handshake.SessionRuns

namespace Zap.Handshake

open Zap.Lib Zap.Lib.Prog

variable {C : Prims}

/-! ## Slots -/

/-- The number of the slot `(epoch, counter)`; later slots have larger numbers. -/
def slotOf (epoch : Nat) (ctr : UInt64) : Nat := epoch * 2 ^ 64 + ctr.toNat

theorem slotOf_inj {e e' : Nat} {c c' : UInt64} (h : slotOf e c = slotOf e' c') : e = e' ∧ c = c' := by
  have hc := c.toNat_lt
  have hc' := c'.toNat_lt
  simp only [slotOf] at h
  exact ⟨by omega, UInt64.toNat_inj.mp (by omega)⟩

def Session.sendSlot (s : Session) : Nat := slotOf s.sendEpoch.toNat s.sendCounter

/-- A call of `Seal` on the chain from `(k, salt)`, at slot `x.1` and with payload `x.2`. -/
def SealsAt (C : Prims) (k : Arr aeadKeyLen) (salt : Arr nonceSaltLen) (ev : Event C)
    (x : Nat × Bytes) : Prop :=
  ∃ epoch ≤ 255, ∃ (ctr : UInt64) (aad ct : Bytes), x.1 = slotOf epoch ctr ∧
    ev = ⟨.aeadSeal (.gcm (keyAt C k epoch)) (buildNonce (saltAt C k salt epoch) ctr) x.2 aad, ct⟩

theorem buildNonce_inj {salt : Arr nonceSaltLen} {c c' : UInt64}
    (h : buildNonce salt c = buildNonce salt c') : c = c' := by
  have hbytes : salt.bytes ++ be64 c = salt.bytes ++ be64 c' := congrArg Arr.bytes h
  exact be64_injective (List.append_cancel_left hbytes)

def IsSeal (ev : Event C) : Bool :=
  match ev.req with
  | .aeadSeal .. => true
  | _ => false

def seals (evs : List (Event C)) : List (Event C) := evs.filter IsSeal

/-! ## The unsent payload -/

/-- The payload sealed last, until a DATA or REKEY frame is written successfully. -/
def noteSend (u : Option Bytes) (ev : Event C) : Option Bytes :=
  match ev with
  | ⟨.aeadSeal _ _ p _, _⟩ => some p
  | ⟨.write b, none⟩ => if b.head?.any fun t => (FrameType.mk t).moves then none else u
  | _ => u

/-- The payload that was sealed and whose frame is not known to be out, after some events. -/
def unsent (evs : List (Event C)) : Option Bytes := evs.foldl noteSend none

theorem unsent_append (evs evs' : List (Event C)) :
    unsent (evs ++ evs') = evs'.foldl noteSend (unsent evs) := List.foldl_append

theorem IsQuiet.noteSend {ev : Event C} (h : IsQuiet ev) (u : Option Bytes) : noteSend u ev = u := by
  obtain ⟨req, resp⟩ := ev
  cases req with
  | aeadSeal => exact h.elim
  | write b =>
    cases resp with
    | some e => rfl
    | none =>
      have hb : b.head?.any (fun t => (FrameType.mk t).moves) = false := by
        cases hd : b.head? with
        | none => rfl
        | some t => exact h t hd
      simp [Handshake.noteSend, hb]
  | _ => rfl

theorem IsQuiet.not_seal {ev : Event C} (h : IsQuiet ev) : IsSeal ev = false := by
  obtain ⟨req, resp⟩ := ev
  cases req with
  | aeadSeal => exact h.elim
  | _ => rfl

theorem quiet_records (evs : List (Event C)) {evs' : List (Event C)} (h : ∀ ev ∈ evs', IsQuiet ev) :
    seals (evs ++ evs') = seals evs ∧ unsent (evs ++ evs') = unsent evs := by
  constructor
  · have hnone : evs'.filter IsSeal = [] :=
      List.filter_eq_nil_iff.mpr fun ev hev => by simp [(h ev hev).not_seal]
    rw [seals, List.filter_append, hnone, List.append_nil, seals]
  rw [unsent_append]
  generalize unsent evs = u
  induction evs' with
  | nil => rfl
  | cons ev evs' ih =>
    rw [List.foldl_cons, (h ev (List.mem_cons_self ..)).noteSend]
    exact ih fun ev hev => h ev (List.mem_cons_of_mem _ hev)

/-! ## The ledger of a run -/

/-- The send half is at its place on the ratchet chain from `(k, salt)`. -/
structure SendKeyed (C : Prims) (k : Arr aeadKeyLen) (salt : Arr nonceSaltLen) (s : Session) :
    Prop where
  counter : s.sendCounter.toNat < 2 ^ 31
  cap : s.sendFrameCap = rekeyFrameCap
  aead : s.closed = false → s.sendAEAD = .gcm (keyAt C k s.sendEpoch.toNat)
  key : s.closed = false → s.sendKey = keyAt C k s.sendEpoch.toNat
  salt : s.closed = false → s.sendSalt = saltAt C k salt s.sendEpoch.toNat

/-- `l` is the record of the seals among `evs`, which left the session at `s`. -/
structure Tracks (C : Prims) (k : Arr aeadKeyLen) (salt : Arr nonceSaltLen) (s : Session)
    (evs : List (Event C)) (l : Ledger Bytes) : Prop where
  keyed : SendKeyed C k salt s
  slot : l.slot = s.sendSlot
  unsent : l.unsent = unsent evs
  used : List.Forall₂ (SealsAt C k salt) (seals evs) l.used

section Track

variable {k : Arr aeadKeyLen} {salt : Arr nonceSaltLen} {s s' : Session}
  {evs tr : List (Event C)} {l : Ledger Bytes} {p : Bytes} {r : Except Err Unit}

theorem Tracks.quiet (ht : Tracks C k salt s evs l) (hkeyed : SendKeyed C k salt s')
    (hslot : s'.sendSlot = s.sendSlot) (hquiet : ∀ ev ∈ tr, IsQuiet ev) :
    Tracks C k salt s' (evs ++ tr) l := by
  obtain ⟨hseals, hunsent⟩ := quiet_records evs hquiet
  exact ⟨hkeyed, ht.slot.trans hslot.symm, by rw [hunsent, ht.unsent], by rw [hseals]; exact ht.used⟩

theorem clock_quiet (t : Int) : IsQuiet (clock t : Event C) := trivial

theorem wrote_moves (u : Option Bytes) {t : FrameType} (body : Bytes) (ht : t.moves = true) :
    noteSend u (wrote t body none : Event C) = none := by
  simp [noteSend, wrote, envelope, ht]

theorem DueRun.quiet {n : UInt64} {b : Bool} (h : DueRun s n tr b) : ∀ ev ∈ tr, IsQuiet ev := by
  cases h with
  | counted => simp
  | timed t => simp [clock_quiet]

theorem SendKeyed.sealsAt (hk : SendKeyed C k salt s) (hopen : s.closed = false) (p ct : Bytes) :
    SealsAt C k salt (sealEv s p ct) (s.sendSlot, p) := by
  refine ⟨s.sendEpoch.toNat, Nat.le_of_lt_succ s.sendEpoch.toNat_lt, s.sendCounter,
    (buildAAD frameData (Session.outerLen p) s.sendDir s.sendEpoch).bytes, ct, rfl, ?_⟩
  rw [sealEv, hk.aead hopen, hk.salt hopen]

theorem Tracks.seal (ht : Tracks C k salt s evs l) (hopen : s.closed = false) (p ct : Bytes) :
    Tracks C k salt s (evs ++ [sealEv s p ct]) (l.spend p) := by
  refine ⟨ht.keyed, ht.slot, ?_, ?_⟩
  · rw [unsent_append]
    rfl
  have hseals : seals (evs ++ [sealEv s p ct]) = seals evs ++ [sealEv s p ct] := List.filter_append ..
  rw [hseals]
  refine List.rel_append ht.used (.cons ?_ .nil)
  rw [ht.slot]
  exact ht.keyed.sealsAt hopen p ct

theorem Tracks.writeFailed (ht : Tracks C k salt s evs l) (t : FrameType) (body : Bytes)
    (e : String) : Tracks C k salt s (evs ++ [wrote t body (some e)]) l := by
  refine ⟨ht.keyed, ht.slot, ?_, ?_⟩
  · rw [unsent_append]
    exact ht.unsent
  · have hseals : seals (evs ++ [wrote t body (some e)]) = seals evs := by
      simp [seals, IsSeal, wrote]
    rw [hseals]
    exact ht.used

theorem Tracks.sent (ht : Tracks C k salt s evs l) (hroom : s.sendCounter.toNat + 1 < 2 ^ 31)
    (p body : Bytes) :
    Tracks C k salt (s.advance p) (evs ++ [wrote frameData body none]) l.commit := by
  have hnext : (s.sendCounter + 1).toNat = s.sendCounter.toNat + 1 := by
    rw [UInt64.toNat_add, UInt64.toNat_one, Nat.mod_eq_of_lt (by omega)]
  refine ⟨⟨?_, ht.keyed.cap, ht.keyed.aead, ht.keyed.key, ht.keyed.salt⟩, ?_, ?_, ?_⟩
  · rw [Session.advance, hnext]
    exact hroom
  · simp only [Ledger.commit, ht.slot, Session.sendSlot, slotOf, Session.advance, hnext]
    omega
  · rw [unsent_append, List.foldl_cons, wrote_moves _ _ rfl]
    rfl
  · have hseals : seals (evs ++ [wrote frameData body none]) = seals evs := by
      simp [seals, IsSeal, wrote]
    rw [hseals]
    exact ht.used

/-- The runs of the sealing part of `Send`: nothing, or the current slot spent and perhaps retired. -/
theorem Tracks.data (ht : Tracks C k salt s evs l) (hopen : s.closed = false)
    (hroom : s.sendCounter.toNat + 1 < 2 ^ 31) (h : DataRun s p tr s' r) :
    (maxFrameBody < Session.outerLen p ∧ Tracks C k salt s' (evs ++ tr) l) ∨
    (Session.outerLen p ≤ maxFrameBody ∧ ∃ l', Tracks C k salt s' (evs ++ tr) l' ∧ l'.used = (l.spend p).used) := by
  cases h with
  | tooLarge hbig => exact .inl ⟨hbig, by simpa using ht⟩
  | refused ct e hfit => exact .inr ⟨hfit, _, ht.seal hopen p ct, rfl⟩
  | failed ct e hfit =>
    refine .inr ⟨hfit, l.spend p, ?_, rfl⟩
    rw [List.append_cons]
    exact (ht.seal hopen p ct).writeFailed ..
  | sent ct hfit =>
    refine .inr ⟨hfit, (l.spend p).commit, ?_, rfl⟩
    rw [List.append_cons]
    exact (ht.seal hopen p ct).sent hroom ..

theorem RekeyRun.closed_eq (h : RekeyRun s tr s' r) : s'.closed = s.closed := by
  cases h <;> rfl

theorem Tracks.rekeyFailed {e : Err} (ht : Tracks C k salt s evs l)
    (h : RekeyRun s tr s' (.error e)) : Tracks C k salt s' (evs ++ tr) l := by
  cases h with
  | exhausted => simpa using ht
  | failed => exact ht.writeFailed ..

theorem Tracks.rekeyed (ht : Tracks C k salt s evs l) (hopen : s.closed = false)
    (h : RekeyRun s tr s' (.ok ())) :
    s'.sendCounter = 0 ∧ ∃ n, ∃ hn : l.slot < n, Tracks C k salt s' (evs ++ tr) (l.skip n hn) := by
  cases h with
  | done hmax base =>
    refine ⟨rfl, slotOf (s.sendEpoch.toNat + 1) 0, ?_, ?_⟩
    · have := s.sendCounter.toNat_lt
      simp only [ht.slot, Session.sendSlot, slotOf, UInt64.toNat_zero]
      omega
    have hepoch : (s.sendEpoch + 1).toNat = s.sendEpoch.toNat + 1 := by
      have hlt := s.sendEpoch.toNat_lt
      have hne : s.sendEpoch.toNat ≠ 255 := fun hc => hmax (UInt8.toNat_inj.mp hc)
      rw [UInt8.toNat_add, UInt8.toNat_one, Nat.mod_eq_of_lt (by omega)]
    have hbyte : UInt8.ofNat s.sendEpoch.toNat = s.sendEpoch := UInt8.ofNat_toNat
    refine ⟨⟨by simp [Session.ratchetSend], ht.keyed.cap, fun _ => ?_, fun _ => ?_, fun _ => ?_⟩, ?_, ?_, ?_⟩
    · simp only [Session.ratchetSend, newAEAD, hepoch, keyAt, hbyte, ht.keyed.key hopen]
    · simp only [Session.ratchetSend, hepoch, keyAt, hbyte, ht.keyed.key hopen]
    · simp only [Session.ratchetSend, hepoch, saltAt, hbyte, ht.keyed.key hopen]
    · simp only [Ledger.skip, Session.sendSlot, Session.ratchetSend, hepoch]
    · rw [unsent_append, List.foldl_cons, wrote_moves _ _ rfl]
      rfl
    · have hseals : seals (evs ++ [wrote frameRekey Session.rekeyBody none, clock base]) = seals evs := by
        simp [seals, IsSeal, wrote, clock]
      rw [hseals]
      exact ht.used

end Track

/-! ## One call -/

def reading : Event C → Option Int
  | ⟨.now, t⟩ => some t
  | _ => none

def firstReading (evs : List (Event C)) : Int := (evs.findSome? reading).getD 0

/-- The condition under which a call made in session `s` after the events `evs` does not reuse a nonce:
if it is a `Send` that will seal at the current counter, because the session is open, no rekey is due at
the reading it takes and the payload passes the size check, then the counter holds no other payload. -/
def SameRetry (s : Session) (evs : List (Event C)) (c : Call C) : Prop :=
  match c.act with
  | .send p _ =>
    s.closed = false → s.rekeyDue (UInt64.ofNat p.length) (firstReading c.evs) = false →
      Session.outerLen p ≤ maxFrameBody → ∀ q, unsent evs = some q → p = q
  | _ => True

section Step

variable {k : Arr aeadKeyLen} {salt : Arr nonceSaltLen} {s s' : Session}
  {evs tr pre : List (Event C)} {l : Ledger Bytes} {p : Bytes} {r : Except Err Unit} {n : UInt64}

theorem DueRun.rekeyDue {b : Bool} (h : DueRun s n pre b) (rest : List (Event C)) :
    s.rekeyDue n (firstReading (pre ++ rest)) = b := by
  cases h with
  | counted hcap => rcases hcap with hcap | hcap <;> simp [Session.rekeyDue, hcap]
  | timed t hframes hbytes =>
    have hread : firstReading ([clock t] ++ rest) = t := rfl
    simp only [ge_iff_le] at hframes hbytes
    rw [hread]
    simp [Session.rekeyDue, hframes, hbytes]

theorem frameCap_room (hlt : s.sendCounter.toNat < 2 ^ 31) (hcap : s.sendFrameCap = rekeyFrameCap)
    (h : DueRun s n pre false) : s.sendCounter.toNat + 1 < 2 ^ 31 := by
  generalize hb : false = b at h
  cases h with
  | counted => cases hb
  | timed t hframes =>
    rw [hcap, ge_iff_le, UInt64.le_iff_toNat_le, UInt64.toNat_add, UInt64.toNat_one,
      Nat.mod_eq_of_lt (by omega)] at hframes
    have hval : rekeyFrameCap.toNat = 2 ^ 31 := rfl
    omega

theorem RecvRun.quiet {r : Except Err Bytes} (h : RecvRun s tr s' r) : ∀ ev ∈ tr, IsQuiet ev := by
  induction h with
  | fail hquiet => exact hquiet
  | data hread =>
    intro ev hev
    rcases List.mem_append.mp hev with hev | hev
    · exact (hread ev hev).quiet
    · rw [List.mem_singleton.mp hev]
      trivial
  | rekey hread _ _ _ ih =>
    intro ev hev
    rcases List.mem_append.mp hev with hev | hev
    · exact (hread ev hev).quiet
    · exact ih ev hev

theorem RecvRun.sendSlot {r : Except Err Bytes} (h : RecvRun s tr s' r) : s'.sendSlot = s.sendSlot := by
  induction h with
  | fail => rfl
  | data => rfl
  | rekey _ _ _ _ ih => exact ih

theorem RecvRun.sendKeyed {r : Except Err Bytes} (h : RecvRun s tr s' r)
    (hk : SendKeyed C k salt s) : SendKeyed C k salt s' := by
  induction h with
  | fail => exact hk
  | data => exact ⟨hk.counter, hk.cap, hk.aead, hk.key, hk.salt⟩
  | rekey _ _ _ _ ih => exact ih ⟨hk.counter, hk.cap, hk.aead, hk.key, hk.salt⟩

theorem SendKeyed.close (hk : SendKeyed C k salt s) : SendKeyed C k salt s.close := by
  unfold Session.close
  split
  · exact hk
  · exact ⟨hk.counter, hk.cap, by simp, by simp, by simp⟩

/-- **What `Send` does to the ledger**, with the exact condition under which it stays free of reuse. -/
theorem Tracks.send (ht : Tracks C k salt s evs l) (h : SendRun s p tr s' r) :
    ∃ l', Tracks C k salt s' (evs ++ tr) l' ∧
      (l'.used = l.used ∨ ∃ n, l'.used = l.used ++ [(n, p)]) ∧
      (l'.NoReuse ↔ l.NoReuse ∧ SameRetry s evs ⟨.send p r, tr⟩) := by
  cases h with
  | closed hclosed =>
    refine ⟨l, by simpa using ht, .inl rfl, ?_⟩
    simp [SameRetry, hclosed]
  | @stuck pre tr s' e hopen hdue hrekey =>
    have ht' := (ht.quiet ht.keyed rfl hdue.quiet).rekeyFailed hrekey
    refine ⟨l, by rwa [← List.append_assoc], .inl rfl, ?_⟩
    simp [SameRetry, hdue.rekeyDue]
  | @rekeyed pre tr tr' s1 s' r hopen hdue hrekey hdata =>
    obtain ⟨hzero, n, hn, ht1⟩ := (ht.quiet ht.keyed rfl hdue.quiet).rekeyed hopen hrekey
    have hopen1 : s1.closed = false := by rw [hrekey.closed_eq, hopen]
    have hok : SameRetry s evs ⟨.send p r, pre ++ tr ++ tr'⟩ := by
      simp [SameRetry, List.append_assoc, hdue.rekeyDue]
    rcases ht1.data hopen1 (by simp [hzero]) hdata with ⟨-, ht'⟩ | ⟨-, l', ht', hused⟩
    · exact ⟨l.skip n hn, by simpa [List.append_assoc] using ht', .inl rfl, (and_iff_left hok).symm⟩
    · refine ⟨l', by simpa [List.append_assoc] using ht', .inr ⟨n, hused⟩, ?_⟩
      rw [and_iff_left hok, Ledger.noReuse_congr hused, Ledger.noReuse_skip_spend]
  | @direct pre tr s' r hopen hdue hdata =>
    have ht1 := ht.quiet ht.keyed rfl hdue.quiet
    rcases ht1.data hopen (frameCap_room ht.keyed.counter ht.keyed.cap hdue) hdata with
      ⟨hbig, ht'⟩ | ⟨hfit, l', ht', hused⟩
    · refine ⟨l, by rwa [← List.append_assoc], .inl rfl, ?_⟩
      simp [SameRetry, Nat.not_le.mpr hbig]
    · refine ⟨l', by rwa [← List.append_assoc], .inr ⟨_, hused⟩, ?_⟩
      rw [Ledger.noReuse_congr hused, Ledger.noReuse_spend, ht.unsent]
      simp [SameRetry, hopen, hdue.rekeyDue, hfit]

/-- **What a completed call does to the ledger.** -/
theorem track_step {c : Call C} (ht : Tracks C k salt s evs l) (h : SessionStep s c s') :
    ∃ l', Tracks C k salt s' (evs ++ c.evs) l' ∧
      (l'.used = l.used ∨ ∃ n p r, c.act = .send p r ∧ l'.used = l.used ++ [(n, p)]) ∧
      (l'.NoReuse ↔ l.NoReuse ∧ SameRetry s evs c) := by
  cases h with
  | send h =>
    obtain ⟨l', ht', hused, hno⟩ := ht.send (send_runs h)
    refine ⟨l', ht', ?_, hno⟩
    rcases hused with hused | ⟨n, hused⟩
    · exact .inl hused
    · exact .inr ⟨n, _, _, rfl, hused⟩
  | @rekey _ r tr h =>
    rcases rekey_runs h with ⟨-, rfl, rfl⟩ | ⟨hopen, h⟩
    · exact ⟨l, by simpa using ht, .inl rfl, (and_iff_left trivial).symm⟩
    cases r with
    | error e => exact ⟨l, ht.rekeyFailed h, .inl rfl, (and_iff_left trivial).symm⟩
    | ok =>
      obtain ⟨-, n, hn, ht'⟩ := ht.rekeyed hopen h
      exact ⟨_, ht', .inl rfl, (and_iff_left trivial).symm⟩
  | recv h =>
    rcases recv_runs h with ⟨-, rfl, rfl, -⟩ | ⟨-, h⟩
    · exact ⟨l, by simpa using ht, .inl rfl, (and_iff_left trivial).symm⟩
    · exact ⟨l, ht.quiet (h.sendKeyed ht.keyed) h.sendSlot h.quiet, .inl rfl, (and_iff_left trivial).symm⟩
  | close =>
    refine ⟨l, ?_, .inl rfl, (and_iff_left trivial).symm⟩
    exact ht.quiet ht.keyed.close (by simp [Session.close]; split <;> rfl) (by simp)

end Step

/-! ## Whole runs -/

/-- No two calls of `Seal` use one AEAD object and nonce for different plaintexts. -/
def NoNonceReuse (evs : List (Event C)) : Prop :=
  ∀ (a : AEAD) (nonce : Arr aeadNonceLen) (p p' aad aad' ct ct' : Bytes),
    (⟨.aeadSeal a nonce p aad, ct⟩ : Event C) ∈ evs →
    (⟨.aeadSeal a nonce p' aad', ct'⟩ : Event C) ∈ evs → p = p'

/-- Every call of the run meets the retry condition in the state it was made in. -/
def CleanRun (s₀ : Session) (calls : List (Call C)) : Prop :=
  ∀ pre c post t, calls = pre ++ c :: post → Path SessionStep s₀ pre t → SameRetry t (events pre) c

theorem cleanRun_concat {s0 t : Session} {calls : List (Call C)} {c : Call C}
    (hrun : Path SessionStep s0 calls t) :
    CleanRun s0 (calls ++ [c]) ↔ CleanRun s0 calls ∧ SameRetry t (events calls) c := by
  constructor
  · intro h
    refine ⟨fun pre d post u hsplit hpre => ?_, h calls c [] t rfl hrun⟩
    exact h pre d (post ++ [c]) u (by simp [hsplit]) hpre
  rintro ⟨hclean, hlast⟩ pre d post u hsplit hpre
  rcases List.eq_nil_or_concat post with rfl | ⟨post', c', rfl⟩
  · -- the last call
    obtain ⟨rfl, hc⟩ := List.append_inj' hsplit rfl
    obtain rfl : c = d := by simpa using hc
    rwa [← hrun.det (fun h h' => h.det h') hpre]
  · have hsplit' : calls ++ [c] = (pre ++ d :: post') ++ [c'] := by simpa using hsplit
    obtain ⟨rfl, -⟩ := List.append_inj' hsplit' rfl
    exact hclean pre d post' u rfl hpre

section Runs

variable {k : Arr aeadKeyLen} {salt : Arr nonceSaltLen} {s : Session} {evs : List (Event C)}
  {l : Ledger Bytes}

/-- On a chain with distinct keys, slots stand for key and nonce pairs. -/
theorem Tracks.noReuse_iff (ht : Tracks C k salt s evs l) (hdist : ChainDistinct C k) :
    NoNonceReuse evs ↔ l.NoReuse := by
  have hmem : ∀ {ev : Event C}, ev ∈ seals evs ↔ ev ∈ evs ∧ IsSeal ev = true := List.mem_filter
  constructor
  · intro h x hx y hy hxy
    obtain ⟨_, hev, e, -, c, aad, ct, hx1, rfl⟩ := forall₂_exists_left ht.used hx
    obtain ⟨_, hev', e', -, c', aad', ct', hy1, rfl⟩ := forall₂_exists_left ht.used hy
    obtain ⟨rfl, rfl⟩ := slotOf_inj (hx1.symm.trans (hxy.trans hy1))
    exact h _ _ _ _ _ _ _ _ (hmem.mp hev).1 (hmem.mp hev').1
  · intro h a nonce p p' aad aad' ct ct' hev hev'
    obtain ⟨x, hx, e, he, c, aad1, ct1, hx1, hevx⟩ := forall₂_exists_right ht.used (hmem.mpr ⟨hev, rfl⟩)
    obtain ⟨y, hy, e', he', c', aad2, ct2, hy1, hevy⟩ := forall₂_exists_right ht.used (hmem.mpr ⟨hev', rfl⟩)
    obtain ⟨rfl, rfl, rfl, -⟩ := Req.aeadSeal.inj (congrArg Ev.req hevx)
    obtain ⟨hkey, hnonce, rfl, -⟩ := Req.aeadSeal.inj (congrArg Ev.req hevy)
    obtain rfl : e = e' := hdist e he e' he' (AEAD.gcm.inj hkey)
    obtain rfl : c = c' := buildNonce_inj hnonce
    exact h x hx y hy (hx1.trans hy1.symm)

theorem IsNew.tracks {role : AuthRole} {keys : SessionKeys} (h : IsNew C role keys s) :
    Tracks C s.sendKey s.sendSalt s [] (.empty Bytes) := by
  obtain ⟨peerID, suite, now, ⟨-, psk, rfl⟩ | ⟨-, psk, rfl⟩⟩ := h.cases
  all_goals
    refine ⟨⟨by simp [Session.keyed], rfl, fun _ => rfl, fun _ => rfl, fun _ => rfl⟩, ?_, rfl, .nil⟩
    simp [Ledger.empty, Session.sendSlot, slotOf, Session.keyed]

/-- Every run from a tracked session has a ledger, free of reuse exactly when the run is clean. -/
theorem Tracks.run {s0 : Session} {calls : List (Call C)} (hnew : Tracks C k salt s0 [] (.empty Bytes))
    (hrun : Path SessionStep s0 calls s) :
    ∃ l, Tracks C k salt s (events calls) l ∧ (l.NoReuse ↔ CleanRun s0 calls) := by
  induction hrun using Path.concat_induction with
  | init =>
    refine ⟨_, hnew, ?_, ?_⟩
    · rintro - pre c post t hsplit
      simp at hsplit
    · rintro - x hx
      simp [Ledger.empty] at hx
  | snoc hpre hstep ih =>
    obtain ⟨l, ht, hclean⟩ := ih
    obtain ⟨l', ht', -, hno⟩ := track_step ht hstep
    refine ⟨l', by rwa [events_concat], ?_⟩
    rw [hno, hclean, cleanRun_concat hpre]

end Runs

/-- **Nonce reuse, exactly.**  A run of a session reuses no nonce if and only if every `Send` that seals
at a counter already sealed at, because an earlier `Send` failed after its seal, carries the same payload
again. Nothing in `Send` enforces that: the counter moves only when a DATA frame was written. -/
theorem session_nonce_reuse_iff {role : AuthRole} {keys : SessionKeys} {s₀ s : Session}
    {calls : List (Call C)} (hnew : IsNew C role keys s₀) (hdist : ChainDistinct C s₀.sendKey)
    (hrun : Path SessionStep s₀ calls s) :
    NoNonceReuse (events calls) ↔ CleanRun s₀ calls := by
  obtain ⟨l, ht, hclean⟩ := hnew.tracks.run hrun
  rw [ht.noReuse_iff hdist, hclean]

/-! ### A changed retry

A first `Send` seals and its write fails; the next one seals another payload at the same counter. -/

def sampleSession : Session :=
  .keyed roleInitiator (tagged _ 9) suiteX25519MLKEM 0
    sampleKeys.kInitToResp sampleKeys.saltInitToResp roleInitiator
    sampleKeys.kRespToInit sampleKeys.saltRespToInit roleResponder
    (some { id := pskIDOf samplePrims sampleKeys.resumptionPSK, psk := sampleKeys.resumptionPSK,
            peerID := tagged _ 9, validUntil := 3600000000000 })

theorem sampleSession_new : IsNew samplePrims roleInitiator sampleKeys sampleSession :=
  ⟨tagged _ 9, suiteX25519MLKEM, 0, [⟨.hash sampleKeys.resumptionPSK.bytes, ()⟩], .step (.here _)⟩

def sampleSend (b : UInt8) (w : Option String) : Call samplePrims :=
  let ct := List.replicate 17 b
  ⟨.send [b] (writeResult w), [clock 0, sealEv sampleSession [b] ct, wrote frameData (dataBody sampleSession ct) w]⟩

theorem sampleSend_run (b : UInt8) (w : Option String) :
    Runs (sampleSession.send [b]) (sampleSend b w).evs
      (if w = none then sampleSession.advance [b] else sampleSession, writeResult w) :=
  send_run rfl rfl (by simp [Session.outerLen, Session.ctLen, maxFrameBody, aeadTagLen, nonceCtrLen])
    (by simp [Session.ctLen, aeadTagLen]) (by simp [dataBody, DataFrame.encode, maxFrameBody]) w

theorem sampleSend_step (b : UInt8) (w : Option String) :
    SessionStep sampleSession (sampleSend b w)
      (if w = none then sampleSession.advance [b] else sampleSession) :=
  .send (sampleSend_run b w)

def changedRetry : List (Call samplePrims) := [sampleSend 1 (some "reset"), sampleSend 2 none]

theorem changedRetry_run : Path SessionStep sampleSession changedRetry (sampleSession.advance [2]) :=
  .cons (sampleSend_step 1 (some "reset")) (.cons (sampleSend_step 2 none) (.nil _))

theorem session_nonce_reuse_iff_sample :
    IsNew samplePrims roleInitiator sampleKeys sampleSession ∧
      ChainDistinct samplePrims sampleSession.sendKey ∧
      Path SessionStep sampleSession changedRetry (sampleSession.advance [2]) ∧
      (NoNonceReuse (events changedRetry) ↔ CleanRun sampleSession changedRetry) :=
  ⟨sampleSession_new, sample_chain_distinct 1, changedRetry_run,
    session_nonce_reuse_iff sampleSession_new (sample_chain_distinct 1) changedRetry_run⟩

/-- One key and nonce for the payloads `[1]` and `[2]`. -/
theorem session_nonce_reused :
    IsNew samplePrims roleInitiator sampleKeys sampleSession ∧
      ChainDistinct samplePrims sampleSession.sendKey ∧
      Path SessionStep sampleSession changedRetry (sampleSession.advance [2]) ∧
      ¬NoNonceReuse (events changedRetry) := by
  refine ⟨sampleSession_new, sample_chain_distinct 1, changedRetry_run, fun h => ?_⟩
  have hfirst : sealEv sampleSession [1] (List.replicate 17 1) ∈ events changedRetry := by
    simp [events, changedRetry, sampleSend]
  have hsecond : sealEv sampleSession [2] (List.replicate 17 2) ∈ events changedRetry := by
    simp [events, changedRetry, sampleSend]
  have heq : ([1] : Bytes) = [2] := h _ _ _ _ _ _ _ _ hfirst hsecond
  exact absurd heq (by decide)

end Zap.Handshake
