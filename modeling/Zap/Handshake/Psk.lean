/-
# Zap.Handshake.Psk — the PSK store of a responder (`handshake/psk.go`).

Every operation runs under the store's lock and reads the clock there. The map is a function from ids to
entries; `Redeem` deletes what it returns.
-/
import Zap.Handshake.Session
import Zap.Handshake.Transcript

namespace Zap.Handshake

open Zap.Lib Zap.Lib.Proc

/-! ## The store -/

structure PskEntry where
  psk : Arr pskKeyLen
  clientID : Arr idLen
  expires : Int
  redeemed : Bool

structure PskStore where
  entries : Arr pskIDLen → Option PskEntry
  ttl : Int

def newPskStore : PskStore where
  entries _ := none
  ttl := pskLifetimeSec * second

/-- The locked part of `Issue`; a previous entry with the id is overwritten. -/
def PskStore.issue (s : PskStore) (now : Int) (id : Arr pskIDLen) (psk : Arr pskKeyLen)
    (clientID : Arr idLen) : PskStore :=
  let entry : PskEntry := { psk := psk, clientID := clientID, expires := now + s.ttl, redeemed := false }
  { s with entries := fun i => if i = id then some entry else s.entries i }

def PskStore.delete (s : PskStore) (id : Arr pskIDLen) : PskStore :=
  { s with entries := fun i => if i = id then none else s.entries i }

def PskStore.redeem (s : PskStore) (now : Int) (id : Arr pskIDLen) :
    Option (Arr pskKeyLen × Arr idLen) × PskStore :=
  match s.entries id with
  | none => (none, s)
  | some e =>
    if e.redeemed = true ∨ now > e.expires then (none, s.delete id)
    else (some (e.psk, e.clientID), s.delete id)

def PskStore.sweep (s : PskStore) (now : Int) : PskStore :=
  { s with entries := fun i => (s.entries i).filter fun e => ¬now > e.expires }

theorem issue_entries (s : PskStore) (now : Int) (id : Arr pskIDLen) (psk : Arr pskKeyLen)
    (clientID : Arr idLen) (i : Arr pskIDLen) : (s.issue now id psk clientID).entries i =
      if i = id then some ⟨psk, clientID, now + s.ttl, false⟩ else s.entries i := rfl

theorem redeem_entries (s : PskStore) (now : Int) (id i : Arr pskIDLen) :
    (s.redeem now id).2.entries i = if i = id then none else s.entries i := by
  unfold PskStore.redeem
  split
  · rename_i hnone
    by_cases hi : i = id
    · rw [if_pos hi, hi, hnone]
    · rw [if_neg hi]
  · split <;> rfl

@[simp]
theorem redeem_ttl (s : PskStore) (now : Int) (id : Arr pskIDLen) : (s.redeem now id).2.ttl = s.ttl := by
  unfold PskStore.redeem
  split
  · rfl
  · split <;> rfl

variable {s : PskStore} {now : Int} {id : Arr pskIDLen} {psk : Arr pskKeyLen} {clientID : Arr idLen}

/-- **What is redeemed was live**: in the store, not redeemed, not expired. -/
theorem redeem_eq_some : (s.redeem now id).1 = some (psk, clientID) ↔
      ∃ expires, s.entries id = some ⟨psk, clientID, expires, false⟩ ∧ now ≤ expires := by
  unfold PskStore.redeem
  cases hentry : s.entries id with
  | none => simp
  | some e =>
    obtain ⟨psk', clientID', expires, redeemed⟩ := e
    by_cases hdead : redeemed = true ∨ now > expires
    · simp only [if_pos hdead]
      refine ⟨nofun, ?_⟩
      rintro ⟨_, ⟨⟩, hlive⟩
      simp only [Bool.false_eq_true, false_or] at hdead
      exact absurd hlive (Int.not_le.mpr hdead)
    · simp only [if_neg hdead]
      simp only [not_or, Bool.not_eq_true, Int.not_lt] at hdead
      obtain ⟨rfl, hlive⟩ := hdead
      constructor
      · rintro ⟨⟩
        exact ⟨expires, rfl, hlive⟩
      · rintro ⟨_, ⟨⟩, -⟩
        rfl

theorem sweep_entries {i : Arr pskIDLen} {e : PskEntry} (h : (s.sweep now).entries i = some e) : s.entries i = some e :=
  (Option.filter_eq_some_iff.mp h).1

/-! ## Issuing -/

section Calls

variable {C : Prims}

def issue (psk : Arr pskKeyLen) (clientID : Arr idLen) : M C Unit := do
  let id ← pskID psk
  call (.issue id psk clientID)

variable {tr : List (Event C)}

theorem pskID_yields : Yields (pskID psk : M C _) tr id ↔ tr = [hashEv psk.bytes] ∧ id = pskIDOf C psk :=
  digest_yields

def issueEv (psk : Arr pskKeyLen) (clientID : Arr idLen) : Event C := ⟨.issue (pskIDOf C psk) psk clientID, ()⟩

theorem issue_yields {u : Unit} :
    Yields (issue psk clientID : M C Unit) tr u ↔ tr = [hashEv psk.bytes, issueEv psk clientID] := by
  unfold issue
  have hcall : ∀ {id tr u}, Yields (call (.issue id psk clientID) : M C Unit) tr u ↔
      tr = [⟨.issue id psk clientID, ()⟩] := call_yields
  simp only [yields_bind, pskID_yields, hcall, existsAndEq, and_true]
  exact Iff.rfl

/-! ## The two ends a handshake returns -/

def resumedKeys (C : Prims) (suite : SuiteID) (helloBody eph : Bytes) (xShared : Arr x25519SharedLen)
    (psk : Arr pskKeyLen) : SessionKeys :=
  deriveResumed C (C.sha3 (pskInput C suite helloBody eph)) xShared psk

def clientPSKOf (C : Prims) (psk : Arr pskKeyLen) (peerID : Arr idLen) (now : Int) : ClientPSK where
  id := pskIDOf C psk
  psk := psk
  peerID := peerID
  validUntil := now + pskLifetimeSec * second

def initiatorSession (C : Prims) (peerID : Arr idLen) (suite : SuiteID) (keys : SessionKeys)
    (now : Int) : Session :=
  .keyed roleInitiator peerID suite now
    keys.kInitToResp keys.saltInitToResp roleInitiator
    keys.kRespToInit keys.saltRespToInit roleResponder
    (some (clientPSKOf C keys.resumptionPSK peerID now))

def responderSession (peerID : Arr idLen) (suite : SuiteID) (keys : SessionKeys) (now : Int) : Session :=
  .keyed roleResponder peerID suite now
    keys.kRespToInit keys.saltRespToInit roleResponder
    keys.kInitToResp keys.saltInitToResp roleInitiator none

variable {peerID : Arr idLen} {suite : SuiteID} {keys : SessionKeys} {now : Int} {s : Session}

theorem newSession_initiator_yields :
    Yields (newSession roleInitiator peerID suite keys now : M C _) tr s ↔
      tr = [hashEv keys.resumptionPSK.bytes] ∧ s = initiatorSession C peerID suite keys now := by
  unfold newSession makeClientPSK
  rw [if_pos rfl]
  simp only [yields_bind, pskID_yields, yields_pure, existsAndEq, true_and, and_true, List.append_nil]
  exact and_congr_right fun _ => eq_comm

theorem newSession_responder_yields :
    Yields (newSession roleResponder peerID suite keys now : M C _) tr s ↔
      tr = [] ∧ s = responderSession peerID suite keys now := by
  unfold newSession
  rw [if_neg (by decide), if_pos rfl, yields_pure]
  exact and_congr_right fun _ => eq_comm

theorem newSession_avoids {bad : Req C → Prop} (hb : Special bad) (role : AuthRole)
    (peerID : Arr idLen) (suite : SuiteID) (keys : SessionKeys) (now : Int) :
    Avoids bad (newSession role peerID suite keys now : M C _) := by
  unfold newSession
  split
  · refine .bind (.bind ?_ fun _ => avoids_pure) fun _ => avoids_pure
    exact (sum256_avoids hb _).bind fun _ => avoids_pure
  · split
    · exact avoids_pure
    · exact avoids_throw

end Calls

end Zap.Handshake
