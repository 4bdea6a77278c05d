/-
# Zap.Handshake.SessionChannel — two sessions and an attacker who owns the wire.

The two ends make method calls in any interleaving. What a call reads, whether its writes succeed and
what its clock says are free, so every drop, reorder, replay, reflection and injection of frames is some
run here. Of the AEAD only authenticity is assumed: what opens was sealed by one of the two ends
(`OpensAreSealed`).

REKEY is not authenticated, so an attacker can move a receiver's epoch ahead of its peer's. That costs
delivery, never integrity: the receiver accepts at strictly increasing slots of the sender's chain
(`recv_slots`), the sender's ledger lists its payloads in slot order (`sent_ledger`), and payloads picked
at increasing slots are a subsequence (`sublist_of_ranked`).
-/
import Zap.Handshake.SessionNonce

namespace Zap.Handshake

open Zap.Lib Zap.Lib.Prog

variable {C : Prims}

/-! ## What a side sent and received -/

def sent (calls : List (Call C)) : List Bytes :=
  calls.filterMap fun c => match c.act with
    | .send p _ => some p
    | _ => none

def received (calls : List (Call C)) : List Bytes :=
  calls.filterMap fun c => match c.act with
    | .recv (.ok p) => some p
    | _ => none

variable {s₀ s : Session} {calls : List (Call C)} {d d' : Duplex}

/-- The payloads of a run's ledger are, in order, among those passed to `Send`. -/
theorem sent_ledger {k : Arr aeadKeyLen} {salt : Arr nonceSaltLen} (hnew : Tracks C k salt s₀ [] (.empty Bytes))
    (hrun : Path SessionStep s₀ calls s) :
    ∃ l, Tracks C k salt s (events calls) l ∧ (l.used.map Prod.snd).Sublist (sent calls) := by
  induction hrun using Path.concat_induction with
  | init => exact ⟨_, hnew, .slnil⟩
  | snoc _ hstep ih =>
    obtain ⟨l, ht, hsub⟩ := ih
    obtain ⟨l', ht', hused, -⟩ := track_step ht hstep
    refine ⟨l', by rwa [events_concat], ?_⟩
    rw [sent, List.filterMap_append]
    rcases hused with hused | ⟨n, p, r, hact, hused⟩
    · rw [hused]
      exact hsub.trans (List.sublist_append_left _ _)
    · rw [hused, List.map_append]
      refine hsub.append ?_
      simp [hact]

/-! ## The receive half -/

structure RecvHalf where
  key : Arr aeadKeyLen
  salt : Arr nonceSaltLen
  counter : UInt64
  accepted : Bool
  epoch : UInt8
  aead : AEAD

def Session.recvHalf (s : Session) : RecvHalf where
  key := s.recvKey
  salt := s.recvSalt
  counter := s.recvCounter
  accepted := s.recvHave
  epoch := s.recvEpoch
  aead := s.recvAEAD

/-- The first slot `Recv` would still accept. -/
def RecvHalf.floor (h : RecvHalf) : Nat :=
  if h.accepted then slotOf h.epoch.toNat h.counter + 1 else slotOf h.epoch.toNat 0

/-- The receive half is at its place on the ratchet chain from `(k, salt)`. -/
structure RecvHalf.Keyed (C : Prims) (k : Arr aeadKeyLen) (salt : Arr nonceSaltLen)
    (h : RecvHalf) : Prop where
  aead : h.aead = .gcm (keyAt C k h.epoch.toNat)
  key : h.key = keyAt C k h.epoch.toNat
  salt : h.salt = saltAt C k salt h.epoch.toNat

/-- A successful call of `Open` on the chain from `(k, salt)`, at slot `x.1`, with plaintext `x.2`. -/
def OpensAt (C : Prims) (k : Arr aeadKeyLen) (salt : Arr nonceSaltLen) (ev : Event C)
    (x : Nat × Bytes) : Prop :=
  ∃ epoch ≤ 255, ∃ (ctr : UInt64) (ct aad : Bytes), x.1 = slotOf epoch ctr ∧
    ev = ⟨.aeadOpen (.gcm (keyAt C k epoch)) (buildNonce (saltAt C k salt epoch) ctr) ct aad, some x.2⟩

section Recv

variable {k : Arr aeadKeyLen} {salt : Arr nonceSaltLen} {s s' : Session} {tr : List (Event C)}
  {r : Except Err Unit} {p : Bytes}

theorem DataRun.recvHalf (h : DataRun s p tr s' r) : s'.recvHalf = s.recvHalf := by
  cases h <;> rfl

theorem RekeyRun.recvHalf (h : RekeyRun s tr s' r) : s'.recvHalf = s.recvHalf := by
  cases h <;> rfl

theorem SendRun.recvHalf (h : SendRun s p tr s' r) : s'.recvHalf = s.recvHalf := by
  cases h with
  | closed => rfl
  | stuck _ _ hrekey => exact hrekey.recvHalf
  | rekeyed _ _ hrekey hdata => rw [hdata.recvHalf, hrekey.recvHalf]
  | direct _ _ hdata => exact hdata.recvHalf

/-- A remote rekey moves to the next place on the chain and skips the rest of the epoch. -/
theorem RecvHalf.Keyed.ratchet (hk : s.recvHalf.Keyed C k salt) (hmax : s.recvEpoch ≠ 0xFF) :
    (s.ratchetRecv C).recvHalf.Keyed C k salt ∧ s.recvHalf.floor ≤ (s.ratchetRecv C).recvHalf.floor := by
  obtain ⟨-, hkey, -⟩ := hk
  simp only [Session.recvHalf] at hkey
  have hepoch : (s.recvEpoch + 1).toNat = s.recvEpoch.toNat + 1 := by
    have hlt := s.recvEpoch.toNat_lt
    have hne : s.recvEpoch.toNat ≠ 255 := fun hc => hmax (UInt8.toNat_inj.mp hc)
    rw [UInt8.toNat_add, UInt8.toNat_one, Nat.mod_eq_of_lt (by omega)]
  have hbyte : UInt8.ofNat s.recvEpoch.toNat = s.recvEpoch := UInt8.ofNat_toNat
  refine ⟨⟨?_, ?_, ?_⟩, ?_⟩
  · simp only [Session.recvHalf, Session.ratchetRecv, newAEAD, hepoch, keyAt, hbyte, hkey]
  · simp only [Session.recvHalf, Session.ratchetRecv, hepoch, keyAt, hbyte, hkey]
  · simp only [Session.recvHalf, Session.ratchetRecv, hepoch, saltAt, hbyte, hkey]
  · have hctr := s.recvCounter.toNat_lt
    simp only [RecvHalf.floor, Session.recvHalf, Session.ratchetRecv, hepoch, slotOf,
      UInt64.toNat_zero, Bool.false_eq_true, if_false]
    split <;> omega

/-- **What `Recv` accepts**: a payload that opened at a slot at or past the floor, which then moves past
that slot; a failing `Recv` moves the floor at most up. -/
theorem RecvRun.accepts {r : Except Err Bytes} (h : RecvRun s tr s' r)
    (hk : s.recvHalf.Keyed C k salt) :
    s'.recvHalf.Keyed C k salt ∧ s.recvHalf.floor ≤ s'.recvHalf.floor ∧
      ∀ p, r = .ok p → ∃ n, ∃ ev ∈ tr, OpensAt C k salt ev (n, p) ∧
        s.recvHalf.floor ≤ n ∧ n < s'.recvHalf.floor := by
  induction h with
  | fail => exact ⟨hk, Nat.le_refl _, by rintro p ⟨⟩⟩
  | @data s pre body plain d hread hbytes hdec hfresh hcap =>
    have hlow : s.recvHalf.floor ≤ slotOf s.recvEpoch.toNat d.nonceCounter := by
      simp only [RecvHalf.floor, Session.recvHalf, slotOf, UInt64.toNat_zero]
      split
      · rename_i hhave
        have hlt : ¬d.nonceCounter ≤ s.recvCounter := fun hle => hfresh ⟨hhave, hle⟩
        rw [UInt64.le_iff_toNat_le] at hlt
        omega
      · omega
    have hfloor : (s.accept d.nonceCounter).recvHalf.floor = slotOf s.recvEpoch.toNat d.nonceCounter + 1 := rfl
    refine ⟨⟨hk.aead, hk.key, hk.salt⟩, by omega, ?_⟩
    rintro p ⟨⟩
    refine ⟨slotOf s.recvEpoch.toNat d.nonceCounter, openEv s d (some plain), by simp,
      ⟨s.recvEpoch.toNat, Nat.le_of_lt_succ s.recvEpoch.toNat_lt, d.nonceCounter, d.ciphertext,
        (buildAAD frameData ((nonceCtrLen + 4 + d.ciphertext.length) % 2 ^ 32)
          s.recvDir s.recvEpoch).bytes, rfl, ?_⟩, hlow, by omega⟩
    have haead : s.recvAEAD = _ := hk.aead
    have hsalt : s.recvSalt = _ := hk.salt
    rw [openEv, haead, hsalt]
    rfl
  | @rekey s s' pre tr body r hread hbytes hmax hrest ih =>
    obtain ⟨hk1, hle1⟩ := hk.ratchet hmax
    obtain ⟨hk', hle', hacc⟩ := ih hk1
    refine ⟨hk', Nat.le_trans hle1 hle', fun p hp => ?_⟩
    obtain ⟨n, ev, hev, hopens, hlow, hhigh⟩ := hacc p hp
    exact ⟨n, ev, List.mem_append_right _ hev, hopens, Nat.le_trans hle1 hlow, hhigh⟩

theorem SendRun.closed_eq (h : SendRun s p tr s' r) : s'.closed = s.closed := by
  have hdata : ∀ {s s' : Session} {tr : List (Event C)}, DataRun s p tr s' r → s'.closed = s.closed := by
    rintro s s' tr (_ | _ | _ | _) <;> rfl
  cases h with
  | closed => rfl
  | stuck _ _ hrekey => exact hrekey.closed_eq
  | rekeyed _ _ hrekey h => rw [hdata h, hrekey.closed_eq]
  | direct _ _ h => exact hdata h

/-- The receive half after a completed call: in place unless closed, the floor never down. -/
theorem SessionStep.accepts {c : Call C} (h : SessionStep s c s')
    (hk : s.closed = false → s.recvHalf.Keyed C k salt) :
    (s'.closed = false → s'.recvHalf.Keyed C k salt) ∧ s.recvHalf.floor ≤ s'.recvHalf.floor ∧
      ∀ p, c.act = .recv (.ok p) → ∃ n, ∃ ev ∈ c.evs, OpensAt C k salt ev (n, p) ∧
        s.recvHalf.floor ≤ n ∧ n < s'.recvHalf.floor := by
  cases h with
  | send h =>
    have h := send_runs h
    rw [h.recvHalf, h.closed_eq]
    exact ⟨hk, Nat.le_refl _, by rintro p ⟨⟩⟩
  | rekey h =>
    rcases rekey_runs h with ⟨-, -, rfl⟩ | ⟨-, h⟩
    · exact ⟨hk, Nat.le_refl _, by rintro p ⟨⟩⟩
    · rw [h.recvHalf, h.closed_eq]
      exact ⟨hk, Nat.le_refl _, by rintro p ⟨⟩⟩
  | recv h =>
    rcases recv_runs h with ⟨-, -, rfl, e, rfl⟩ | ⟨hopen, h⟩
    · exact ⟨hk, Nat.le_refl _, by rintro p ⟨⟩⟩
    · obtain ⟨hk', hle, hacc⟩ := h.accepts (hk hopen)
      refine ⟨fun _ => hk', hle, fun p hp => hacc p ?_⟩
      cases hp
      rfl
  | close =>
    have hfloor : s.close.recvHalf.floor = s.recvHalf.floor := by
      unfold Session.close
      split <;> rfl
    refine ⟨fun hopen => ?_, by rw [hfloor], by rintro p ⟨⟩⟩
    unfold Session.close at hopen
    split at hopen
    · rename_i hclosed
      rw [hclosed] at hopen
      cases hopen
    · cases hopen

/-- The payloads a run received, each with the slot it opened at, in strictly increasing order. -/
theorem recv_slots (hnew : s₀.recvHalf.Keyed C k salt) (hrun : Path SessionStep s₀ calls s) :
    ∃ acc : List (Nat × Bytes), acc.map Prod.snd = received calls ∧
      acc.Pairwise (fun x y => x.1 < y.1) ∧ ∀ x ∈ acc, ∃ ev ∈ events calls, OpensAt C k salt ev x := by
  -- the invariant also bounds the accepted slots by the floor
  suffices h : (s.closed = false → s.recvHalf.Keyed C k salt) ∧
      ∃ acc : List (Nat × Bytes), acc.map Prod.snd = received calls ∧
        acc.Pairwise (fun x y => x.1 < y.1) ∧ (∀ x ∈ acc, x.1 < s.recvHalf.floor) ∧
        ∀ x ∈ acc, ∃ ev ∈ events calls, OpensAt C k salt ev x by
    obtain ⟨-, acc, hmap, hsorted, -, hopens⟩ := h
    exact ⟨acc, hmap, hsorted, hopens⟩
  induction hrun using Path.concat_induction with
  | init => exact ⟨fun _ => hnew, [], rfl, .nil, by simp, by simp⟩
  | @snoc calls t c u _ hstep ih =>
    obtain ⟨hk, acc, hmap, hsorted, hbelow, hopens⟩ := ih
    obtain ⟨hk', hle, hacc⟩ := hstep.accepts hk
    refine ⟨hk', ?_⟩
    rw [events_concat, received, List.filterMap_append]
    have hold : ∀ x ∈ acc, ∃ ev ∈ events calls ++ c.evs, OpensAt C k salt ev x := fun x hx => by
      obtain ⟨ev, hev, hx⟩ := hopens x hx
      exact ⟨ev, List.mem_append_left _ hev, hx⟩
    have hstay : ∀ x ∈ acc, x.1 < u.recvHalf.floor := fun x hx => Nat.lt_of_lt_of_le (hbelow x hx) hle
    by_cases hrecv : ∃ p, c.act = .recv (.ok p)
    · obtain ⟨p, hp⟩ := hrecv
      obtain ⟨n, ev, hev, hopen, hlow, hhigh⟩ := hacc p hp
      refine ⟨acc ++ [(n, p)], by simp [hmap, received, hp], ?_, ?_, ?_⟩
      · refine List.pairwise_append.mpr ⟨hsorted, List.pairwise_singleton _ _, ?_⟩
        intro x hx y hy
        rw [List.mem_singleton.mp hy]
        exact Nat.lt_of_lt_of_le (hbelow x hx) hlow
      · intro x hx
        rcases List.mem_append.mp hx with hx | hx
        · exact hstay x hx
        · rw [List.mem_singleton.mp hx]
          exact hhigh
      · intro x hx
        rcases List.mem_append.mp hx with hx | hx
        · exact hold x hx
        · rw [List.mem_singleton.mp hx]
          exact ⟨ev, List.mem_append_right _ hev, hopen⟩
    · have hnone : List.filterMap (fun c : Call C => match c.act with
          | .recv (.ok p) => some p
          | _ => none) [c] = [] := by
        cases hact : c.act with
        | recv r =>
          cases r with
          | ok p => exact absurd ⟨p, hact⟩ hrecv
          | error e => simp [hact]
        | _ => simp [hact]
      exact ⟨acc, by rw [hnone, List.append_nil, hmap, received], hsorted, hstay, hold⟩

end Recv

/-! ## The two ends -/

inductive Side
  | initiator
  | responder
  deriving DecidableEq

def Side.peer : Side → Side
  | .initiator => .responder
  | .responder => .initiator

def Side.role : Side → AuthRole
  | .initiator => roleInitiator
  | .responder => roleResponder

abbrev Duplex := Side → Session

/-- One completed call at one end; the other end is untouched. -/
def ChannelStep (d : Duplex) (l : Side × Call C) (d' : Duplex) : Prop :=
  SessionStep (d l.1) l.2 (d' l.1) ∧ d' l.1.peer = d l.1.peer

def callsOf (x : Side) (log : List (Side × Call C)) : List (Call C) :=
  log.filterMap fun l => if l.1 = x then some l.2 else none

def channelEvents (log : List (Side × Call C)) : List (Event C) := log.flatMap fun l => l.2.evs

variable {log : List (Side × Call C)}

theorem channel_side (x : Side) (h : Path ChannelStep d log d') : Path SessionStep (d x) (callsOf x log) (d' x) := by
  induction h with
  | nil => exact .nil _
  | @cons d d1 d' l log hstep _ ih =>
    obtain ⟨y, c⟩ := l
    by_cases hy : y = x
    · subst y
      have hcalls : callsOf x ((x, c) :: log) = c :: callsOf x log := by simp [callsOf]
      rw [hcalls]
      exact .cons hstep.1 ih
    · have hcalls : callsOf x ((y, c) :: log) = callsOf x log := by simp [callsOf, hy]
      have hpeer : y.peer = x := by
        revert hy
        cases x <;> cases y <;> simp [Side.peer]
      have hsame : d1 y.peer = d y.peer := hstep.2
      rw [hpeer] at hsame
      rw [hcalls, ← hsame]
      exact ih

theorem channelEvents_side {ev : Event C} : ev ∈ channelEvents log ↔ ∃ x, ev ∈ events (callsOf x log) := by
  simp only [channelEvents, events, callsOf, List.mem_flatMap, List.mem_filterMap,
    Option.ite_none_right_eq_some, Option.some.injEq]
  constructor
  · rintro ⟨⟨x, c⟩, hl, hev⟩
    exact ⟨x, c, ⟨(x, c), hl, rfl, rfl⟩, hev⟩
  · rintro ⟨x, c, ⟨l, hl, -, rfl⟩, hev⟩
    exact ⟨l, hl, hev⟩

/-- AEAD authenticity: what opens under a key was sealed under it, with the same nonce, associated data
and ciphertext, and opens to the plaintext that was sealed. -/
def OpensAreSealed (evs : List (Event C)) : Prop :=
  ∀ (k : Arr aeadKeyLen) (nonce : Arr aeadNonceLen) (ct aad p : Bytes),
    (⟨.aeadOpen (.gcm k) nonce ct aad, some p⟩ : Event C) ∈ evs →
    (⟨.aeadSeal (.gcm k) nonce p aad, ct⟩ : Event C) ∈ evs

/-- One direction: `x` sends on the chain from `(k, salt)` and its peer receives on it, while the peer's
own chain shares no key with it. -/
theorem one_way {x : Side} {k k' : Arr aeadKeyLen} {salt salt' : Arr nonceSaltLen}
    (hsend : Tracks C k salt (d x) [] (.empty Bytes)) (hpeer : Tracks C k' salt' (d x.peer) [] (.empty Bytes))
    (hrecv : (d x.peer).recvHalf.Keyed C k salt) (hdist : ChainDistinct C k) (hdisj : ChainsDisjoint C k k')
    (hrun : Path ChannelStep d log d') (hauth : OpensAreSealed (channelEvents log)) :
    (received (callsOf x.peer log)).Sublist (sent (callsOf x log)) := by
  obtain ⟨l, ht, hsub⟩ := sent_ledger hsend (channel_side x hrun)
  obtain ⟨l', ht', -⟩ := sent_ledger hpeer (channel_side x.peer hrun)
  obtain ⟨acc, hmap, hsorted, hopens⟩ := recv_slots hrecv (channel_side x.peer hrun)
  have hmem : ∀ a ∈ acc, a ∈ l.used := by
    intro a ha
    obtain ⟨_, hev, e, he, ctr, ct, aad, hslot, rfl⟩ := hopens a ha
    have hsealed := hauth _ _ _ _ _ (channelEvents_side.mpr ⟨_, hev⟩)
    obtain ⟨y, hy⟩ := channelEvents_side.mp hsealed
    have hseal := List.mem_filter.mpr ⟨hy, (rfl : IsSeal _ = true)⟩
    rcases (show y = x ∨ y = x.peer by cases x <;> cases y <;> simp [Side.peer]) with rfl | rfl
    · -- sealed by the sender: at the same epoch and counter, so it is this very entry
      obtain ⟨b, hb, e', he', ctr', aad', ct', hslot', hb'⟩ := forall₂_exists_right ht.used hseal
      obtain ⟨hkey, hnonce, hp, -⟩ := Req.aeadSeal.inj (congrArg Ev.req hb')
      obtain rfl : e = e' := hdist e he e' he' (AEAD.gcm.inj hkey)
      obtain rfl : ctr = ctr' := buildNonce_inj hnonce
      have hab : a = b := Prod.ext (hslot.trans hslot'.symm) hp
      rwa [hab]
    · -- sealed by the receiver itself: a reflection, under a key of the other chain
      obtain ⟨b, hb, e', he', ctr', aad', ct', -, hb'⟩ := forall₂_exists_right ht'.used hseal
      obtain ⟨hkey, -⟩ := Req.aeadSeal.inj (congrArg Ev.req hb')
      exact absurd (AEAD.gcm.inj hkey) (hdisj e he e' he')
  rw [← hmap]
  exact ((sublist_of_ranked Prod.fst hsorted l.sorted hmem).map Prod.snd).trans hsub

variable {keys : SessionKeys}

theorem IsNew.recvKeyed {role : AuthRole} (h : IsNew C role keys s) : s.recvHalf.Keyed C s.recvKey s.recvSalt := by
  obtain ⟨peerID, suite, now, ⟨-, psk, rfl⟩ | ⟨-, psk, rfl⟩⟩ := h.cases <;> exact ⟨rfl, rfl, rfl⟩

theorem IsNew.initiator_keys (h : IsNew C roleInitiator keys s) :
    s.sendKey = keys.kInitToResp ∧ s.recvKey = keys.kRespToInit ∧
      s.sendSalt = keys.saltInitToResp ∧ s.recvSalt = keys.saltRespToInit := by
  obtain ⟨_, _, _, ⟨-, _, rfl⟩ | ⟨hrole, -⟩⟩ := h.cases
  · exact ⟨rfl, rfl, rfl, rfl⟩
  · exact absurd hrole (by decide)

theorem IsNew.responder_keys (h : IsNew C roleResponder keys s) :
    s.sendKey = keys.kRespToInit ∧ s.recvKey = keys.kInitToResp ∧
      s.sendSalt = keys.saltRespToInit ∧ s.recvSalt = keys.saltInitToResp := by
  obtain ⟨_, _, _, ⟨hrole, -⟩ | ⟨-, _, rfl⟩⟩ := h.cases
  · exact absurd hrole (by decide)
  · exact ⟨rfl, rfl, rfl, rfl⟩

/-- **Channel integrity.**  Whatever the attacker does on the wire, what each end returns from `Recv` is a
subsequence, in order, of what the other end passed to `Send`, across any number of rekeys. -/
theorem channel_integrity {keys : SessionKeys} {d d' : Duplex} {log : List (Side × Call C)}
    (hinit : IsNew C roleInitiator keys (d .initiator))
    (hresp : IsNew C roleResponder keys (d .responder))
    (hi2r : ChainDistinct C keys.kInitToResp) (hr2i : ChainDistinct C keys.kRespToInit)
    (hdisj : ChainsDisjoint C keys.kInitToResp keys.kRespToInit)
    (hrun : Path ChannelStep d log d') (hauth : OpensAreSealed (channelEvents log)) :
    (received (callsOf .responder log)).Sublist (sent (callsOf .initiator log)) ∧
      (received (callsOf .initiator log)).Sublist (sent (callsOf .responder log)) := by
  have hti := hinit.tracks
  have hri := hinit.recvKeyed
  obtain ⟨hsk, hrk, hss, hrs⟩ := hinit.initiator_keys
  rw [hsk, hss] at hti
  rw [hrk, hrs] at hri
  have htr := hresp.tracks
  have hrr := hresp.recvKeyed
  obtain ⟨hsk, hrk, hss, hrs⟩ := hresp.responder_keys
  rw [hsk, hss] at htr
  rw [hrk, hrs] at hrr
  have hdisj' : ChainsDisjoint C keys.kRespToInit keys.kInitToResp := fun i hi j hj h => hdisj j hj i hi h.symm
  exact ⟨one_way (x := .initiator) hti htr hrr hi2r hdisj hrun hauth,
    one_way (x := .responder) htr hti hri hr2i hdisj' hrun hauth⟩

/-! ### One delivery -/

def sampleResponder : Session :=
  .keyed roleResponder (tagged _ 8) suiteX25519MLKEM 0
    sampleKeys.kRespToInit sampleKeys.saltRespToInit roleResponder
    sampleKeys.kInitToResp sampleKeys.saltInitToResp roleInitiator none

theorem sampleResponder_new : IsNew samplePrims roleResponder sampleKeys sampleResponder :=
  ⟨tagged _ 8, suiteX25519MLKEM, 0, [], .here _⟩

def sampleEnds : Duplex
  | .initiator => sampleSession
  | .responder => sampleResponder

def sampleFrame : DataFrame := ⟨0, List.replicate 17 7⟩

def sampleRecv : Call samplePrims :=
  ⟨.recv (.ok [7]), frameReads frameData sampleFrame.encode ++
    [openEv sampleResponder sampleFrame (some [7])]⟩

theorem sampleRecv_run :
    Runs (sampleResponder.recv : P samplePrims _) sampleRecv.evs (sampleResponder.accept 0, .ok [7]) :=
  recv_open rfl (recvLoop_data (by decide) (decodeData_encode (by decide)) (by decide) (by decide))

def oneDelivery : List (Side × Call samplePrims) := [(.initiator, sampleSend 7 none), (.responder, sampleRecv)]

theorem oneDelivery_run : ∃ d', Path ChannelStep sampleEnds oneDelivery d' := by
  refine ⟨fun | .initiator => sampleSession.advance [7] | .responder => sampleResponder.accept 0,
    .cons (t := fun | .initiator => sampleSession.advance [7] | .responder => sampleResponder) ?_
      (.cons ?_ (.nil _))⟩
  · exact ⟨sampleSend_step 7 none, rfl⟩
  · exact ⟨.recv sampleRecv_run, rfl⟩

theorem oneDelivery_sealed : OpensAreSealed (channelEvents oneDelivery) := by
  intro k nonce ct aad p h
  have hsame : openEv sampleResponder sampleFrame (some [7]) =
      (⟨.aeadOpen (.gcm (sampleKey 1)) (buildNonce (tagged _ 1) 0) sampleFrame.ciphertext
        (buildAAD frameData 29 roleInitiator 0).bytes, some [7]⟩ : Event samplePrims) := rfl
  have hseal : (sealEv sampleSession [7] sampleFrame.ciphertext : Event samplePrims) =
      ⟨.aeadSeal (.gcm (sampleKey 1)) (buildNonce (tagged _ 1) 0) [7]
        (buildAAD frameData 29 roleInitiator 0).bytes, sampleFrame.ciphertext⟩ := rfl
  have hevs : channelEvents oneDelivery = [clock 0, sealEv sampleSession [7] sampleFrame.ciphertext,
        wrote frameData (dataBody sampleSession sampleFrame.ciphertext) none] ++
      (frameReads frameData sampleFrame.encode ++ [openEv sampleResponder sampleFrame (some [7])]) := by
    simp [channelEvents, oneDelivery, sampleSend, sampleRecv, sampleFrame]
  rw [hevs] at h ⊢
  rcases List.mem_append.mp h with h | h
  · rcases h with _ | ⟨_, _ | ⟨_, _ | ⟨_, ⟨⟩⟩⟩⟩
  rcases List.mem_append.mp h with h | h
  · obtain ⟨n, x, hread⟩ := frameReads_read h
    cases hread
  · rw [List.mem_singleton, hsame] at h
    cases h
    rw [← hseal]
    simp

theorem channel_integrity_oneDelivery :
    OpensAreSealed (channelEvents oneDelivery) ∧
      received (callsOf .responder oneDelivery) = [[7]] ∧
      (received (callsOf .responder oneDelivery)).Sublist (sent (callsOf .initiator oneDelivery)) ∧
      (received (callsOf .initiator oneDelivery)).Sublist (sent (callsOf .responder oneDelivery)) := by
  obtain ⟨d', hrun⟩ := oneDelivery_run
  exact ⟨oneDelivery_sealed, by rfl,
    channel_integrity (d := sampleEnds) sampleSession_new sampleResponder_new (sample_chain_distinct 1)
      (sample_chain_distinct 2) (sample_chains_disjoint (by decide)) hrun oneDelivery_sealed⟩

end Zap.Handshake
