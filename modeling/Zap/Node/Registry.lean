/-
# Zap.Node.Registry — which peers a node knows it is connected to.

A node keeps its connections in two maps, `conns` for TCP and `transports` for QUIC. `Peers`, `Broadcast`
and the handler of discovery events look at the first alone.

A connection is made by an accept or a dial, which registers it or, if its peer has an entry already, closes
it. Its read loop returns when the peer is gone, and then removes the entry, if it is still its own, and
closes the connection; the two are steps of their own, so that a state in between can be seen. A connection
is live from its registration until its loop returns or the node closes it.
-/
import Zap.Lib.Path
import Mathlib.Data.List.AList
import Mathlib.Logic.Function.Basic

namespace Zap.Peers

open Zap.Lib

/-! ## The node's maps -/

abbrev PeerID := List UInt8

inductive Transport
  | tcp
  | quic
  deriving DecidableEq

/-- Connections are numbered in the order they are made. -/
abbrev Conns := AList fun _ : PeerID => Nat

structure Registry where
  conns : Conns
  transports : Conns
  /-- The number of the next connection. -/
  made : Nat
  /-- The peer a connection's loop was started for. -/
  served : Nat → Option PeerID
  /-- The loop has returned. -/
  returned : Nat → Bool
  /-- The node has closed the connection. -/
  closed : Nat → Bool

inductive Event
  /-- A connection comes in whose handshake names the peer. -/
  | accepted (peer : PeerID)
  /-- A connection is dialled, and the handshake names the peer. -/
  | dialled (peer : PeerID)
  /-- The read loop of a connection returns. -/
  | returns (c : Nat)
  /-- Its deferred calls run. -/
  | cleanup (c : Nat)
  /-- Discovery has found the peer: a dial may follow. -/
  | joined (peer : PeerID)
  /-- Discovery has lost the peer. -/
  | lost (peer : PeerID)

namespace Registry

def init : Registry := ⟨∅, ∅, 0, fun _ => none, fun _ => false, fun _ => false⟩

def refuse (σ : Registry) : Registry := { σ with made := σ.made + 1, closed := Function.update σ.closed σ.made true }

/-- The end of `handleConn`, `ConnectDirectID` and `getOrConnect`. -/
def register (σ : Registry) (peer : PeerID) : Registry :=
  if peer ∈ σ.conns then σ.refuse
  else { σ with
    made := σ.made + 1
    conns := σ.conns.insert peer σ.made
    served := Function.update σ.served σ.made (some peer) }

/-- The end of `onAcceptedTransportConn`, `quicConnectDirect` and `getOrConnectQUIC`. -/
def registerQUIC (σ : Registry) (peer : PeerID) : Registry :=
  if peer ∈ σ.transports then σ.refuse
  else { σ with
    made := σ.made + 1
    transports := σ.transports.insert peer σ.made
    served := Function.update σ.served σ.made (some peer) }

/-- `if cur, ok := m[peerID]; ok && cur == conn { delete(m, peerID) }` -/
def deleteOwn (m : Conns) (peer : PeerID) (c : Nat) : Conns := if m.lookup peer = some c then m.erase peer else m

/-- The deferred calls of a read loop. -/
def cleanup (t : Transport) (σ : Registry) (peer : PeerID) (c : Nat) : Registry :=
  { σ with
    conns := if t = .tcp then deleteOwn σ.conns peer c else σ.conns
    transports := if t = .quic then deleteOwn σ.transports peer c else σ.transports
    closed := Function.update σ.closed c true }

/-- `handlePeerEvent` for a peer that is lost. -/
def lost (σ : Registry) (peer : PeerID) : Registry :=
  match σ.conns.lookup peer with
  | some c => { σ with conns := σ.conns.erase peer, closed := Function.update σ.closed c true }
  | none => σ

def peers (σ : Registry) : List PeerID := σ.conns.keys

def broadcast (σ : Registry) : List PeerID := σ.conns.keys

def Registered (σ : Registry) (peer : PeerID) (c : Nat) : Prop :=
  σ.conns.lookup peer = some c ∨ σ.transports.lookup peer = some c

def Live (σ : Registry) (c : Nat) : Prop := σ.returned c = false ∧ σ.closed c = false

end Registry

def step (t : Transport) (σ : Registry) : Event → Option Registry
  | .accepted peer =>
    match t with
    | .tcp => some (σ.register peer)
    | .quic => if peer = [] then some σ.refuse else some (σ.registerQUIC peer)
  | .dialled peer =>
    match t with
    | .tcp => some (σ.register peer)
    | .quic => some (σ.registerQUIC peer)
  | .returns c =>
    if σ.served c ≠ none ∧ σ.returned c = false then
      some { σ with returned := Function.update σ.returned c true }
    else none
  | .cleanup c =>
    match σ.served c with
    | none => none
    | some peer => if σ.returned c then some (σ.cleanup t peer c) else none
  | .joined _ => some σ
  | .lost peer => some (σ.lost peer)

def Run (t : Transport) (tr : List Event) (σ : Registry) : Prop := Path (fun σ e τ => step t σ e = some τ) .init tr σ

/-! ## What the node reports -/

/-- `Peers` are the peers with a live connection, `Broadcast` sends to each of them, and a lost peer's
connection is removed and closed. -/
structure Covers (σ : Registry) : Prop where
  peers : ∀ peer, peer ∈ σ.peers ↔ ∃ c, σ.Registered peer c ∧ σ.Live c
  broadcast : ∀ peer, peer ∈ σ.broadcast ↔ ∃ c, σ.Registered peer c ∧ σ.Live c
  lost : ∀ peer c, σ.Registered peer c → (∀ c', ¬(σ.lost peer).Registered peer c') ∧ (σ.lost peer).closed c = true

section Maps

variable {m : Conns} {peer p : PeerID} {c d : Nat}

theorem lookup_insert_cases (h : (m.insert peer c).lookup p = some d) : m.lookup p = some d ∨ p = peer ∧ d = c := by
  by_cases hp : p = peer
  · subst hp
    rw [AList.lookup_insert] at h
    exact .inr ⟨rfl, (Option.some.inj h).symm⟩
  · rw [AList.lookup_insert_ne hp] at h
    exact .inl h

theorem lookup_erase_cases (h : (m.erase peer).lookup p = some d) : m.lookup p = some d ∧ p ≠ peer := by
  by_cases hp : p = peer
  · subst hp
    rw [AList.lookup_erase] at h
    cases h
  · rw [AList.lookup_erase_ne hp] at h
    exact ⟨h, hp⟩

theorem lookup_deleteOwn (h : (Registry.deleteOwn m peer c).lookup p = some d) :
    m.lookup p = some d ∧ (p = peer → d ≠ c) := by
  unfold Registry.deleteOwn at h
  split_ifs at h with hown
  · exact (lookup_erase_cases h).imp_right fun hp h' => absurd h' hp
  · refine ⟨h, ?_⟩
    rintro rfl rfl
    exact hown h

end Maps

section Step

variable {t : Transport} {σ τ : Registry} {e : Event}

/-- The invariant: one of the maps is used, a connection is registered under the peer its loop was started
for and the node has not closed it, and the next connection is a new one. -/
structure Sound (t : Transport) (σ : Registry) : Prop where
  tcp : t = .tcp → σ.transports = ∅
  quic : t = .quic → σ.conns = ∅
  serves : ∀ peer c, σ.Registered peer c → σ.served c = some peer
  unclosed : ∀ peer c, σ.Registered peer c → σ.closed c = false
  fresh : ∀ c, σ.made ≤ c → σ.served c = none ∧ σ.closed c = false

theorem Sound.init (t : Transport) : Sound t .init := by
  refine ⟨fun _ => rfl, fun _ => rfl, ?_, ?_, fun _ _ => ⟨rfl, rfl⟩⟩
  all_goals
    rintro peer c (h | h)
    · cases h
    · cases h

namespace Sound

variable (hs : Sound t σ) {peer : PeerID} {c : Nat}

include hs

theorem lt (h : σ.Registered peer c) : c < σ.made := by
  by_contra hge
  have hnone := (hs.fresh c (Nat.not_lt.mp hge)).1
  rw [hs.serves peer c h] at hnone
  cases hnone

theorem refuse : Sound t σ.refuse := by
  refine ⟨hs.tcp, hs.quic, hs.serves, fun peer c h => ?_,
    fun c hc => ⟨(hs.fresh c (by exact Nat.le_of_succ_le hc)).1, ?_⟩⟩
  · have hlt := hs.lt h
    simpa only [Registry.refuse, Function.update_of_ne (Nat.ne_of_lt hlt)] using hs.unclosed peer c h
  · have hlt : σ.made < c := hc
    simpa only [Registry.refuse, Function.update_of_ne (Nat.ne_of_gt hlt)] using
      (hs.fresh c (Nat.le_of_lt hlt)).2

theorem add (peer : PeerID) {conns transports : Conns} (htcp : t = .tcp → transports = ∅)
    (hquic : t = .quic → conns = ∅)
    (hnew : ∀ p c, conns.lookup p = some c ∨ transports.lookup p = some c →
      σ.Registered p c ∨ p = peer ∧ c = σ.made) :
    Sound t { σ with
      made := σ.made + 1
      conns := conns
      transports := transports
      served := Function.update σ.served σ.made (some peer) } := by
  refine ⟨htcp, hquic, fun p c h => ?_, fun p c h => ?_, fun c hc => ?_⟩
  · rcases hnew p c h with hold | ⟨rfl, rfl⟩
    · simpa only [Function.update_of_ne (Nat.ne_of_lt (hs.lt hold))] using hs.serves p c hold
    · exact Function.update_self ..
  · rcases hnew p c h with hold | ⟨rfl, rfl⟩
    · exact hs.unclosed p c hold
    · exact (hs.fresh σ.made (Nat.le_refl _)).2
  · have hlt : σ.made < c := hc
    simpa only [Function.update_of_ne (Nat.ne_of_gt hlt)] using hs.fresh c (Nat.le_of_lt hlt)

theorem register (ht : t = .tcp) (peer : PeerID) : Sound t (σ.register peer) := by
  unfold Registry.register
  split_ifs with hin
  · exact hs.refuse
  · refine hs.add peer hs.tcp (fun hq => by rw [ht] at hq; cases hq) fun p c h => ?_
    rcases h with h | h
    · exact (lookup_insert_cases h).imp_left .inl
    · exact .inl (.inr h)

theorem registerQUIC (ht : t = .quic) (peer : PeerID) : Sound t (σ.registerQUIC peer) := by
  unfold Registry.registerQUIC
  split_ifs with hin
  · exact hs.refuse
  · refine hs.add peer (fun hq => by rw [ht] at hq; cases hq) hs.quic fun p c h => ?_
    rcases h with h | h
    · exact .inl (.inl h)
    · exact (lookup_insert_cases h).imp_left .inr

theorem remove {conns transports : Conns} (hserved : σ.served c = some peer) (htcp : t = .tcp → transports = ∅)
    (hquic : t = .quic → conns = ∅)
    (hold : ∀ p d, conns.lookup p = some d ∨ transports.lookup p = some d → σ.Registered p d ∧ (p = peer → d ≠ c)) :
    Sound t { σ with conns := conns, transports := transports, closed := Function.update σ.closed c true } := by
  refine ⟨htcp, hquic, fun p d h => hs.serves p d (hold p d h).1, fun p d h => ?_, fun d hd => ?_⟩
  · obtain ⟨hreg, hne⟩ := hold p d h
    refine (Function.update_of_ne ?_ ..).trans (hs.unclosed p d hreg)
    rintro rfl
    have hp := hs.serves p d hreg
    rw [hserved] at hp
    exact hne (Option.some.inj hp).symm rfl
  · obtain ⟨hnone, hopen⟩ := hs.fresh d hd
    refine ⟨hnone, (Function.update_of_ne ?_ ..).trans hopen⟩
    rintro rfl
    rw [hserved] at hnone
    cases hnone

/-- The loop removes its own entry before it closes its connection. -/
theorem cleanup (hserved : σ.served c = some peer) : Sound t (σ.cleanup t peer c) := by
  unfold Registry.cleanup
  cases t with
  | tcp =>
    refine hs.remove hserved hs.tcp (fun h => by cases h) fun p d h => ?_
    rcases h with h | h
    · exact (lookup_deleteOwn h).imp_left .inl
    · exact absurd (hs.tcp rfl ▸ h) (by rintro ⟨⟩)
  | quic =>
    refine hs.remove hserved (fun h => by cases h) hs.quic fun p d h => ?_
    rcases h with h | h
    · exact absurd (hs.quic rfl ▸ h) (by rintro ⟨⟩)
    · exact (lookup_deleteOwn h).imp_left .inr

theorem lost (peer : PeerID) : Sound t (σ.lost peer) := by
  unfold Registry.lost
  cases hc : σ.conns.lookup peer with
  | none => exact hs
  | some c =>
    refine hs.remove (hs.serves peer c (.inl hc)) hs.tcp (fun hq => ?_) fun p d h => ?_
    · rw [hs.quic hq] at hc
      cases hc
    rcases h with h | h
    · exact (lookup_erase_cases h).imp .inl fun hp h' => absurd h' hp
    · -- a QUIC node has nothing in `conns`
      cases t with
      | tcp => exact absurd (hs.tcp rfl ▸ h) (by rintro ⟨⟩)
      | quic => exact absurd (hs.quic rfl ▸ hc) (by rintro ⟨⟩)

theorem step (h : Peers.step t σ e = some τ) : Sound t τ := by
  cases e with
  | accepted peer =>
    cases t with
    | tcp =>
      cases h
      exact hs.register rfl peer
    | quic =>
      simp only [Peers.step] at h
      split_ifs at h
      · cases h
        exact hs.refuse
      · cases h
        exact hs.registerQUIC rfl peer
  | dialled peer =>
    cases t with
    | tcp =>
      cases h
      exact hs.register rfl peer
    | quic =>
      cases h
      exact hs.registerQUIC rfl peer
  | returns c =>
    simp only [Peers.step] at h
    split_ifs at h
    cases h
    exact ⟨hs.tcp, hs.quic, hs.serves, hs.unclosed, hs.fresh⟩
  | cleanup c =>
    simp only [Peers.step] at h
    cases hserved : σ.served c with
    | none =>
      rw [hserved] at h
      cases h
    | some peer =>
      rw [hserved] at h
      dsimp only at h
      split_ifs at h
      cases h
      exact hs.cleanup hserved
  | joined peer =>
    cases h
    exact hs
  | lost peer =>
    cases h
    exact hs.lost peer

end Sound

end Step

/-! ## Whole runs -/

variable {t : Transport} {σ : Registry} {tr : List Event}

theorem run_sound (h : Run t tr σ) : Sound t σ := Path.invariant (I := Sound t) (fun hs h => hs.step h) h (.init t)

theorem mem_keys_iff (m : Conns) (peer : PeerID) : peer ∈ m.keys ↔ ∃ c, m.lookup peer = some c := by
  rw [← AList.mem_keys, ← AList.lookup_isSome, Option.isSome_iff_exists]

/-- **What a node reports**, after any events: it covers its peers exactly if `transports` is empty and the
loop of no entry of `conns` has returned. A TCP node has nothing in `transports`, a QUIC node nothing in
`conns`. -/
theorem covers_iff (h : Run t tr σ) :
    (Covers σ ↔ σ.transports = ∅ ∧ ∀ peer c, σ.conns.lookup peer = some c → σ.returned c = false) ∧
    (t = .tcp → σ.transports = ∅) ∧ (t = .quic → σ.conns = ∅) := by
  have hs := run_sound h
  refine ⟨⟨fun hcov => ⟨?_, ?_⟩, ?_⟩, hs.tcp, hs.quic⟩
  · -- an entry of `transports` survives the loss of its peer
    by_contra hne
    obtain ⟨peer, hpeer⟩ : ∃ peer, peer ∈ σ.transports.keys := by
      cases hk : σ.transports.keys with
      | nil =>
        refine absurd (AList.ext ?_) hne
        exact List.map_eq_nil_iff.mp hk
      | cons p ps => exact ⟨p, List.mem_cons_self ..⟩
    obtain ⟨c, hc⟩ := (mem_keys_iff _ _).mp hpeer
    refine (hcov.lost peer c (.inr hc)).1 c (.inr ?_)
    unfold Registry.lost
    cases σ.conns.lookup peer with
    | none => exact hc
    | some d => exact hc
  · intro peer c hc
    obtain ⟨d, hd, hlive⟩ := (hcov.peers peer).mp ((mem_keys_iff _ _).mpr ⟨c, hc⟩)
    obtain rfl : d = c := by
      rcases hd with hd | hd
      · exact Option.some.inj (hd.symm.trans hc)
      cases t with
      | tcp =>
        rw [hs.tcp rfl] at hd
        cases hd
      | quic =>
        rw [hs.quic rfl] at hc
        cases hc
    exact hlive.1
  · rintro ⟨hempty, hrunning⟩
    have hreg : ∀ peer c, σ.Registered peer c → σ.conns.lookup peer = some c := by
      rintro peer c (hc | hc)
      · exact hc
      · rw [hempty] at hc
        cases hc
    have hkeys : ∀ peer, peer ∈ σ.conns.keys ↔ ∃ c, σ.Registered peer c ∧ σ.Live c := by
      intro peer
      rw [mem_keys_iff]
      constructor
      · rintro ⟨c, hc⟩
        exact ⟨c, .inl hc, hrunning peer c hc, hs.unclosed peer c (.inl hc)⟩
      · rintro ⟨c, hc, -⟩
        exact ⟨c, hreg peer c hc⟩
    refine ⟨hkeys, hkeys, fun peer c hc => ?_⟩
    have hlost : σ.lost peer =
        { σ with conns := σ.conns.erase peer, closed := Function.update σ.closed c true } := by
      unfold Registry.lost
      rw [hreg peer c hc]
    rw [hlost]
    refine ⟨?_, Function.update_self ..⟩
    rintro c' (h' | h')
    · change (σ.conns.erase peer).lookup peer = some c' at h'
      rw [AList.lookup_erase] at h'
      cases h'
    · change σ.transports.lookup peer = some c' at h'
      rw [hempty] at h'
      cases h'

/-- A QUIC node that has accepted one peer reports none, and keeps the connection when the peer is lost. -/
theorem quic_peer_unreported :
    ∃ σ, Run .quic [.accepted [1]] σ ∧ σ.Registered [1] 0 ∧ σ.Live 0 ∧ σ.peers = [] ∧ σ.broadcast = [] ∧
      (σ.lost [1]).Registered [1] 0 ∧ (σ.lost [1]).closed 0 = false ∧ ¬Covers σ := by
  refine ⟨_, Path.foldlM_iff.mpr rfl, .inr rfl, ⟨rfl, rfl⟩, rfl, rfl, .inr rfl, rfl, fun hcov => ?_⟩
  exact (hcov.lost [1] 0 (.inr rfl)).1 0 (.inr rfl)

theorem tcp_peer_reported : ∃ σ, Run .tcp [.accepted [1]] σ ∧ σ.peers = [[1]] ∧ Covers σ := by
  have hrun : Run .tcp [.accepted [1]] (Registry.init.register [1]) := Path.foldlM_iff.mpr rfl
  refine ⟨_, hrun, rfl, (covers_iff hrun).1.mpr ⟨rfl, fun peer c _ => rfl⟩⟩

end Zap.Peers
