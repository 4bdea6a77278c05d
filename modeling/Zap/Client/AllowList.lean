/-
# Zap.Client.AllowList — who a server thinks it is talking to (`iface.go`, and `handleConn` of `node.go`).

The id of a peer is what its handshake frame says: `handleConn` decodes the first frame, takes the empty
id if it does not decode, and passes the id on to every handler as `from`. The certificate of the
connection is carried by the connection and read by nobody. `AllowListVerifier` then looks the id up.
-/
import Zap.Client.Procedure

namespace Zap.Client

open Zap.Lib Zap.Wire

/-! ## The verifier and the connection -/

def allowListVerify (allowed : Str → Option (List Str)) (peer : PeerInfo) (procedure : Str) : Bool :=
  match allowed procedure with
  | none => false
  | some set => if set.length = 0 then false else set.contains peer.nodeID

/-- A connection as the server accepts it: the client's certificate, verified by TLS, and the bytes the
client sends. -/
structure NetConn (Cert : Type) where
  cert : Cert
  stream : List UInt8

section Accept

variable {Cert : Type}

/-- `handleConn` up to the loop, on a server that has no connection under the id: the id the connection
is registered under. An id that does not decode is the empty one. -/
def acceptConn (c : NetConn Cert) : Go (Option Str) :=
  match Node.readMessageRaw c.stream with
  | .error _ => return none
  | .ok (data, _) => do
      let peerID ← Node.decodeNodeIDHandshake data
      return some (peerID.getD [])

/-- The connection, once accepted, can make the procedure run: some message of it does. -/
def CanRun {H : Type} (s : Server H) (allowed : Str → Option (List Str)) (c : NetConn Cert)
    (procedure : Str) : Prop :=
  ∃ peerID msg run, acceptConn c = .ok (some peerID) ∧
    s.dispatch (allowListVerify allowed) peerID msg = some run ∧ run.asked = procedure

/-! ## The ids a client can have -/

theorem readBytes_length {o : Object} : ∀ {n i : Nat} {xs : List UInt8},
    Node.readBytes o i n = .ok xs → xs.length = n
  | 0, _, xs, h => by
      cases h
      rfl
  | n + 1, i, xs, h => by
      simp only [Node.readBytes, go_bind_eq_ok, go_pure] at h
      obtain ⟨x, -, ys, hys, hxs⟩ := h
      cases hxs
      rw [List.length_cons, readBytes_length hys]

theorem decode_length {data id : List UInt8} (h : Node.decodeNodeIDHandshake data = .ok (some id)) :
    id.length ≤ Node.maxNodeIDLen := by
  rw [Node.decodeNodeIDHandshake] at h
  cases hp : parse data with
  | error e =>
    rw [hp] at h
    cases h
  | ok m =>
    simp only [hp, go_bind_eq_ok] at h
    obtain ⟨n, -, h⟩ := h
    split_ifs at h with hlen
    · cases h
    · obtain ⟨xs, hxs, heq⟩ := go_bind_eq_ok.mp h
      cases heq
      rw [readBytes_length hxs]
      omega

def Readable (stream : List UInt8) : Prop := ∃ data rest, Node.readMessageRaw stream = .ok (data, rest)

theorem acceptConn_id (cert : Cert) {stream : List UInt8} (h : Readable stream) :
    ∃ peerID, acceptConn ⟨cert, stream⟩ = .ok (some peerID) ∧ peerID.length ≤ Node.maxNodeIDLen := by
  obtain ⟨data, rest, hread⟩ := h
  obtain ⟨r, hr⟩ := Node.decode_total data
  refine ⟨r.getD [], ?_, ?_⟩
  · simp only [acceptConn, hread, hr, go_bind_ok, go_pure]
  · cases r with
    | none => exact Nat.zero_le _
    | some id => exact decode_length hr

/-- **Any id within the limit can be had**, whatever the certificate. -/
theorem takenID_any (cert : Cert) {id : Str} (hid : id.length ≤ Node.maxNodeIDLen) :
    ∃ stream, Readable stream ∧ acceptConn ⟨cert, stream⟩ = .ok (some id) := by
  obtain ⟨data, -, hlen, hdec⟩ := Node.decode_encode id
  have hread := Node.readMessageRaw_writeMessage (show data.length ≤ Node.maxFrame by rw [hlen]; decide) []
  rw [List.append_nil] at hread
  refine ⟨Node.writeMessage data, ⟨data, [], hread⟩, ?_⟩
  simp only [acceptConn, hread, hdec, go_bind_ok, go_pure]
  by_cases hnil : id = []
  · rw [if_pos hnil, hnil]
    rfl
  · rw [if_neg hnil, List.take_of_length_le hid]
    rfl

/-! ## What a certificate is worth -/

def allowedIDs (allowed : Str → Option (List Str)) (procedure : Str) : List Str := (allowed procedure).getD []

theorem allowListVerify_iff (allowed : Str → Option (List Str)) (peer : PeerInfo) (procedure : Str) :
    allowListVerify allowed peer procedure = true ↔ peer.nodeID ∈ allowedIDs allowed procedure := by
  rw [allowListVerify, allowedIDs]
  cases allowed procedure with
  | none => simp
  | some set =>
    cases set with
    | nil => simp
    | cons id set => simp

/-- **What a connection can run**: the registered procedures its own id is allowed for. -/
theorem canRun_iff {H : Type} (s : Server H) (allowed : Str → Option (List Str)) {c : NetConn Cert}
    {peerID : Str} (haccept : acceptConn c = .ok (some peerID)) (procedure : Str) :
    CanRun s allowed c procedure ↔
      (∃ op, s.procNames procedure = some op) ∧ peerID ∈ allowedIDs allowed procedure := by
  constructor
  · rintro ⟨peerID', msg, run, haccept', hrun, rfl⟩
    obtain rfl : peerID = peerID' := by
      rw [haccept, Except.ok.injEq, Option.some.injEq] at haccept'
      exact haccept'
    rw [Server.dispatch] at hrun
    cases hreg : s.procedures msg.flags with
    | none =>
      rw [hreg] at hrun
      cases hrun
    | some reg =>
      simp only [hreg] at hrun
      split_ifs at hrun with hverify
      cases hrun
      exact ⟨⟨_, s.named hreg⟩, (allowListVerify_iff allowed _ _).mp hverify⟩
  · rintro ⟨⟨op, hop⟩, hallowed⟩
    obtain ⟨h, hreg⟩ := s.bound hop
    obtain ⟨code, -, hlt, rfl⟩ := procedureOpcode_spec (s.opcode hreg)
    obtain ⟨msg, -, hflags⟩ := withFlags_none (show code * 256 < 2 ^ 16 by omega)
    refine ⟨peerID, msg, ⟨procedure, h⟩, haccept, ?_, rfl⟩
    have hverify : allowListVerify allowed { nodeID := peerID, serviceType := s.nodeID } procedure = true :=
      (allowListVerify_iff allowed _ _).mpr hallowed
    simp only [Server.dispatch, hflags, hreg, hverify, if_true]

/-- Connections with one certificate can run the same procedures, whatever their handshakes say. -/
def SameForCert {H : Type} (s : Server H) (allowed : Str → Option (List Str)) (cert : Cert) : Prop :=
  ∀ stream stream', Readable stream → Readable stream' → ∀ procedure,
    CanRun s allowed ⟨cert, stream⟩ procedure ↔ CanRun s allowed ⟨cert, stream'⟩ procedure

/-- **When the handshake cannot be spoofed**: for every registered procedure the list allows no id within
the limit, or all of them. The certificate does not enter. -/
theorem same_for_cert_iff {H : Type} (s : Server H) (allowed : Str → Option (List Str)) (cert : Cert) :
    SameForCert s allowed cert ↔
      ∀ procedure op, s.procNames procedure = some op →
        (∀ id, id.length ≤ Node.maxNodeIDLen → id ∉ allowedIDs allowed procedure) ∨
        ∀ id, id.length ≤ Node.maxNodeIDLen → id ∈ allowedIDs allowed procedure := by
  constructor
  · intro h procedure op hop
    by_contra hcon
    push Not at hcon
    obtain ⟨⟨id, hid, hmem⟩, id', hid', hnot⟩ := hcon
    obtain ⟨stream, hread, haccept⟩ := takenID_any cert hid
    obtain ⟨stream', hread', haccept'⟩ := takenID_any cert hid'
    have hrun := (canRun_iff s allowed haccept procedure).mpr ⟨⟨op, hop⟩, hmem⟩
    have hrun' := (h stream stream' hread hread' procedure).mp hrun
    exact hnot ((canRun_iff s allowed haccept' procedure).mp hrun').2
  · intro h stream stream' hread hread' procedure
    obtain ⟨id, haccept, hid⟩ := acceptConn_id cert hread
    obtain ⟨id', haccept', hid'⟩ := acceptConn_id cert hread'
    rw [canRun_iff s allowed haccept, canRun_iff s allowed haccept']
    refine and_congr_right fun ⟨op, hop⟩ => ?_
    rcases h procedure op hop with hnone | hall
    · exact iff_of_false (hnone id hid) (hnone id' hid')
    · exact iff_of_true (hall id hid) (hall id' hid')

end Accept

def opsOnly (procedure : Str) : Option (List Str) :=
  if procedure = "Pay".toUTF8.data.toList then some ["ops".toUTF8.data.toList] else none

/-- One certificate, two handshakes: the one that says `ops` can run `Pay`, the other cannot. -/
theorem ops_spoofed :
    ∃ (s : Server Unit) (stream stream' : List UInt8),
      (newServer Unit []).register "Pay".toUTF8.data.toList () = .ok s ∧
      Readable stream ∧ Readable stream' ∧
      CanRun s opsOnly (⟨0, stream⟩ : NetConn Nat) "Pay".toUTF8.data.toList ∧
      ¬CanRun s opsOnly (⟨0, stream'⟩ : NetConn Nat) "Pay".toUTF8.data.toList := by
  obtain ⟨op, hop⟩ : ∃ op, procedureOpcode "Pay".toUTF8.data.toList = some op :=
    Option.isSome_iff_exists.mp (by decide)
  obtain ⟨s, hs, -, -, hnames⟩ := (newServer Unit []).register_ok () hop rfl
  obtain ⟨stream, hread, haccept⟩ := takenID_any (0 : Nat)
    (show "ops".toUTF8.data.toList.length ≤ Node.maxNodeIDLen by decide)
  obtain ⟨stream', hread', haccept'⟩ := takenID_any (0 : Nat) (show [].length ≤ Node.maxNodeIDLen by decide)
  refine ⟨s, stream, stream', hs, hread, hread', ?_, ?_⟩
  · rw [canRun_iff s opsOnly haccept, hnames, Function.update_self]
    exact ⟨⟨op, rfl⟩, by decide⟩
  · rw [canRun_iff s opsOnly haccept']
    exact fun h => absurd h.2 (by decide)

end Zap.Client
