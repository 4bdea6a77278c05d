/-
# Zap.Client.Procedure — calls by procedure name (`zapclient/codec.go`, `server.go`, `client.go`).

A procedure name is hashed to one of 254 opcodes, which ride in the upper byte of a message's flags.
`Register` refuses a name whose opcode is taken, so a server's table is a partial bijection between its
names and their opcodes; `Server` carries that as fields. A client hashes the name it calls and sends the
opcode: the name itself never travels.

The server can therefore tell names apart only within its own table.
-/
import Mathlib.Data.Set.Card
import Zap.Node.Dispatch

namespace Zap.Client

open Zap.Lib Zap.Wire

/-! ## Opcodes -/

/-- `fnv.New32a`: xor the byte in, multiply by the prime. -/
def fnv1a (name : Str) : UInt32 := name.foldl (fun h b => (h ^^^ b.toUInt32) * 16777619) 2166136261

def procedureOpcode (name : Str) : Option Nat :=
  if name = [] then none else some (((fnv1a name).toNat % 254 + 1) <<< 8)

theorem procedureOpcode_spec {name : Str} {op : Nat} (h : procedureOpcode name = some op) :
    ∃ code, 0 < code ∧ code < 255 ∧ op = code * 256 := by
  rw [procedureOpcode] at h
  split_ifs at h
  cases h
  refine ⟨(fnv1a name).toNat % 254 + 1, by omega, by omega, ?_⟩
  rw [Nat.shiftLeft_eq]

/-! ## The server -/

structure Registration (H : Type) where
  procedure : Str
  handler : H

/-- `Server`: its two tables, and the message types its node has `dispatch` registered for. -/
structure Server (H : Type) where
  nodeID : Str
  procedures : Nat → Option (Registration H)
  procNames : Str → Option Nat
  routes : Nat → Bool
  /-- a procedure stands under its own opcode -/
  opcode : ∀ {op reg}, procedures op = some reg → procedureOpcode reg.procedure = some op
  /-- and its name leads there -/
  named : ∀ {op reg}, procedures op = some reg → procNames reg.procedure = some op
  /-- a name leads to a procedure of that name -/
  bound : ∀ {name op}, procNames name = some op → ∃ h, procedures op = some ⟨name, h⟩
  /-- the node routes its type to the server -/
  routed : ∀ {op reg}, procedures op = some reg → routes (op >>> 8) = true

def newServer (H : Type) (nodeID : Str) : Server H where
  nodeID := nodeID
  procedures _ := none
  procNames _ := none
  routes _ := false
  opcode h := by cases h
  named h := by cases h
  bound h := by cases h
  routed h := by cases h

inductive RegisterError
  | emptyName
  | collision (op : Nat) (existing procedure : Str)

section Register

variable {H : Type} (s : Server H)

/-- `Server.Register`: only into a free opcode. -/
def Server.register (procedure : Str) (h : H) : Except RegisterError (Server H) :=
  match hop : procedureOpcode procedure with
  | none => .error .emptyName
  | some op =>
    match hfree : s.procedures op with
    | some existing => .error (.collision op existing.procedure procedure)
    | none => .ok {
        nodeID := s.nodeID
        procedures := Function.update s.procedures op (some ⟨procedure, h⟩)
        procNames := Function.update s.procNames procedure (some op)
        routes := Function.update s.routes (op >>> 8) true
        opcode := by
          intro op' reg hreg
          by_cases heq : op' = op
          · subst heq
            rw [Function.update_self] at hreg
            cases hreg
            exact hop
          · rw [Function.update_of_ne heq] at hreg
            exact s.opcode hreg
        named := by
          intro op' reg hreg
          by_cases heq : op' = op
          · subst heq
            rw [Function.update_self] at hreg
            cases hreg
            exact Function.update_self ..
          · rw [Function.update_of_ne heq] at hreg
            have hne : reg.procedure ≠ procedure := by
              rintro rfl
              exact heq (Option.some.inj ((s.opcode hreg).symm.trans hop))
            rw [Function.update_of_ne hne]
            exact s.named hreg
        bound := by
          intro name op' hname
          by_cases heq : name = procedure
          · subst heq
            rw [Function.update_self] at hname
            cases hname
            exact ⟨h, Function.update_self ..⟩
          · rw [Function.update_of_ne heq] at hname
            obtain ⟨h', hh'⟩ := s.bound hname
            have hne : op' ≠ op := by
              rintro rfl
              rw [hfree] at hh'
              cases hh'
            exact ⟨h', by rw [Function.update_of_ne hne]; exact hh'⟩
        routed := by
          intro op' reg hreg
          by_cases heq : op' = op
          · rw [heq]
            exact Function.update_self ..
          rw [Function.update_of_ne heq] at hreg
          by_cases hroute : op' >>> 8 = op >>> 8
          · rw [hroute]
            exact Function.update_self ..
          · rw [Function.update_of_ne hroute]
            exact s.routed hreg }

theorem Server.register_ok {procedure : Str} {op : Nat} (h : H) (hop : procedureOpcode procedure = some op)
    (hfree : s.procedures op = none) :
    ∃ s', s.register procedure h = .ok s' ∧ s'.nodeID = s.nodeID ∧
      s'.procedures = Function.update s.procedures op (some ⟨procedure, h⟩) ∧
      s'.procNames = Function.update s.procNames procedure (some op) := by
  rw [Server.register]
  split
  · next hnone =>
      rw [hop] at hnone
      cases hnone
  next op' hop' =>
    obtain rfl : op = op' := Option.some.inj (hop.symm.trans hop')
    split
    · next existing hsome =>
        rw [hfree] at hsome
        cases hsome
    · exact ⟨_, rfl, rfl, rfl, rfl⟩

end Register

/-- **A server holds at most 254 procedures**: there are no more opcodes, and each leads to one name. -/
theorem server_full {H : Type} (s : Server H) : {name | (s.procNames name).isSome}.encard ≤ 254 := by
  have hfound : ∀ name, (s.procNames name).isSome →
      ∃ h : H, s.procedures (((fnv1a name).toNat % 254 + 1) <<< 8) = some ⟨name, h⟩ := by
    intro name hn
    obtain ⟨op, hop⟩ := Option.isSome_iff_exists.mp hn
    obtain ⟨h, hreg⟩ := s.bound hop
    have hcode := s.opcode hreg
    rw [procedureOpcode] at hcode
    split_ifs at hcode
    cases hcode
    exact ⟨h, hreg⟩
  have hinj : Set.InjOn (fun name => Fin.ofNat 254 (fnv1a name).toNat) {name | (s.procNames name).isSome} := by
    intro a ha b hb heq
    obtain ⟨h, hreg⟩ := hfound a ha
    obtain ⟨h', hreg'⟩ := hfound b hb
    rw [show (fnv1a a).toNat % 254 = (fnv1a b).toNat % 254 from congrArg Fin.val heq, hreg'] at hreg
    cases hreg
    rfl
  calc _ ≤ (Set.univ : Set (Fin 254)).encard := Set.encard_le_encard_of_injOn (Set.mapsTo_univ _ _) hinj
    _ = 254 := by simp

structure PeerInfo where
  nodeID : Str
  serviceType : Str
  tlsCertSubject : Str := []
  tlsCertSANs : List Str := []

/-- A handler that ran: the procedure the verifier was asked about, and the handler. -/
structure Run (H : Type) where
  asked : Str
  handler : H

section Dispatch

variable {H : Type} (s : Server H) (verify : PeerInfo → Str → Bool) (sender : Str)

/-- `Server.dispatch`, up to the handler's own work: which handler runs, if one does. -/
def Server.dispatch (msg : Message) : Option (Run H) :=
  match s.procedures msg.flags with
  | none => none
  | some reg =>
    let peer : PeerInfo := { nodeID := sender, serviceType := s.nodeID }
    if verify peer reg.procedure then some ⟨reg.procedure, reg.handler⟩ else none

/-- What runs when the server's node reads a frame from that peer. -/
def Server.serves (data : List UInt8) : Option (Run H) :=
  match Node.dispatch (fun t => if s.routes t then some (s.dispatch verify sender) else none) data with
  | .serve h _ msg => h msg
  | .run h msg => h msg
  | _ => none

end Dispatch

/-! ## The client -/

/-- `withFlags`: a copy with other flags, or a stub for no message at all. -/
def withFlags (msg : Option Message) (op : Nat) : Except WireError Message :=
  match msg with
  | none =>
    let x := (newBuilder headerSize version2).startObject 0
    parse ((x.2.finishAsRoot x.1).finishWithFlags op).1
  | some m => parse (overwrite m.data 6 (le 2 op))

/-- The frame `Client.Call` puts on the connection for a procedure. -/
def callFrame (reqID : Nat) (procedure : Str) (req : Option Message) : Option (List UInt8) :=
  match procedureOpcode procedure with
  | none => none
  | some op =>
    match withFlags req op with
    | .ok tagged => some (Node.wrapCorrelated reqID Node.reqFlagReq tagged.data)
    | .error _ => none

/-- A request that came out of `Parse`, or none. -/
def Valid (req : Option Message) : Prop := ∀ m ∈ req, parse m.data = .ok m

theorem withFlags_some {m : Message} (hm : parse m.data = .ok m) {op : Nat} (hop : op < 2 ^ 16) :
    ∃ tagged, withFlags (some m) op = .ok tagged ∧ tagged.flags = op := by
  have hhead := m.header
  have h16 : headerSize = 16 := rfl
  have hfit : 6 + (le 2 op).length ≤ m.data.length := by
    rw [le_length]
    omega
  have hapart : ∀ {j n}, j + n ≤ 6 ∨ 8 ≤ j → window (overwrite m.data 6 (le 2 op)) j n = window m.data j n := by
    intro j n hj
    refine window_overwrite_apart hfit ?_
    rw [le_length]
    exact hj.elim .inr .inl
  have hlen := overwrite_length hfit
  obtain ⟨h1, h2, h3, h4, h5, -⟩ := parse_ok_iff.mp hm
  have hdecl : declaredSize (overwrite m.data 6 (le 2 op)) = declaredSize m.data := by
    rw [declaredSize, declaredSize, hapart (.inr (by decide))]
  have hsize := parse_length hm
  refine ⟨⟨overwrite m.data 6 (le 2 op), by omega⟩, ?_, ?_⟩
  · rw [withFlags, parse_ok_iff, hapart (.inl (by decide)), hapart (.inl (by decide)), hdecl]
    exact ⟨by omega, h2, h3, h4, by omega, by rw [List.take_of_length_le (by omega)]⟩
  · have hself := window_overwrite_self hfit
    rw [le_length] at hself
    rw [Message.flags, hself, ofLE_le, Nat.mod_eq_of_lt (by simpa using hop)]

theorem withFlags_none {op : Nat} (hop : op < 2 ^ 16) :
    ∃ tagged, withFlags none op = .ok tagged ∧ tagged.flags = op := by
  have hstart : SameHead ((newBuilder headerSize version2).startObject 0).2 (newBuilder headerSize version2) :=
    answer_head (r := .startObject 0) rfl
  have hhead : ((newBuilder headerSize version2).startObject 0).2.Head version2 0 :=
    (newBuilder_head _ _).of_same hstart
  obtain ⟨m, hp, -, -, hflags, -⟩ := @head_parses
    ((((newBuilder headerSize version2).startObject 0).2.finishAsRoot
      ((newBuilder headerSize version2).startObject 0).1).putFlags op) version2 op (.inr rfl)
    (putFlags_head hhead op)
    (show ((newBuilder headerSize version2).startObject 0).2.pos < 2 ^ 32 by decide)
  exact ⟨m, hp, by rw [hflags, Nat.mod_eq_of_lt hop]⟩

theorem withFlags_tagged {req : Option Message} (hreq : Valid req) {op : Nat} (hop : op < 2 ^ 16) :
    ∃ tagged, withFlags req op = .ok tagged ∧ parse tagged.data = .ok tagged ∧ tagged.flags = op := by
  obtain ⟨tagged, htag, hflags⟩ : ∃ tagged, withFlags req op = .ok tagged ∧ tagged.flags = op := by
    cases req with
    | none => exact withFlags_none hop
    | some m => exact withFlags_some (hreq m rfl) hop
  refine ⟨tagged, htag, ?_, hflags⟩
  cases req with
  | none | some m => exact parse_data htag

/-! ## What a call runs -/

section Calls

variable {H : Type} {s : Server H} {verify : PeerInfo → Str → Bool} {sender : Str}

/-- A called frame runs what stands under the opcode of the name, if the verifier lets it. -/
theorem serves_call {name : Str} {op reqID : Nat} {req : Option Message} (hreq : Valid req)
    (hid : reqID < 2 ^ 32) (hop : procedureOpcode name = some op) :
    ∃ frame, callFrame reqID name req = some frame ∧ s.serves verify sender frame = match s.procedures op with
        | none => none
        | some reg => if verify { nodeID := sender, serviceType := s.nodeID } reg.procedure then
            some ⟨reg.procedure, reg.handler⟩ else none := by
  obtain ⟨code, hpos, hlt, rfl⟩ := procedureOpcode_spec hop
  obtain ⟨tagged, htag, hparse, hflags⟩ := withFlags_tagged hreq (show code * 256 < 2 ^ 16 by omega)
  refine ⟨Node.wrapCorrelated reqID Node.reqFlagReq tagged.data, ?_, ?_⟩
  · simp only [callFrame, hop, htag]
  rw [Server.serves, Node.dispatch_call hparse hid, Node.handled, msgType, hflags]
  cases hroute : s.routes ((code * 256) >>> 8) with
  | true => simp only [if_true, Server.dispatch, hflags]
  | false =>
    -- a type the node does not route has no procedure
    cases hreg : s.procedures (code * 256) with
    | none => simp
    | some reg =>
      rw [s.routed hreg] at hroute
      cases hroute

/-- Every call of the name runs the procedure of that name, asked about under that name, or nothing. -/
def RunsNamed (s : Server H) (name : Str) : Prop :=
  ∀ verify sender reqID req frame run, reqID < 2 ^ 32 → Valid req → callFrame reqID name req = some frame →
    s.serves verify sender frame = some run →
      run.asked = name ∧ ∃ op, s.procNames name = some op ∧ s.procedures op = some ⟨name, run.handler⟩

/-- **When a call runs only what it names**: the name is registered, or nothing stands under its opcode. -/
theorem runs_named_iff (s : Server H) (name : Str) :
    RunsNamed s name ↔
      (∃ op, s.procNames name = some op) ∨ ∀ op, procedureOpcode name = some op → s.procedures op = none := by
  constructor
  · intro h
    by_contra hcon
    push Not at hcon
    obtain ⟨hname, op, hop, hne⟩ := hcon
    obtain ⟨reg, hreg⟩ := Option.ne_none_iff_exists'.mp hne
    -- no message, request id 0, and a verifier that lets everything pass
    have hvalid : Valid none := fun m hm => by cases hm
    obtain ⟨frame, hframe, hserve⟩ :=
      @serves_call H s (fun _ _ => true) [] name op 0 none hvalid (by decide) hop
    simp only [hreg, if_true] at hserve
    obtain ⟨-, op', hop', -⟩ := h _ _ 0 none frame _ (by decide) hvalid hframe hserve
    exact hname op' hop'
  · intro h verify sender reqID req frame run hid hreq hframe hrun
    cases hop : procedureOpcode name with
    | none =>
      rw [callFrame, hop] at hframe
      cases hframe
    | some op =>
      obtain ⟨frame', hframe', hserve⟩ := @serves_call H s verify sender name op reqID req hreq hid hop
      rw [hframe, Option.some.injEq] at hframe'
      subst hframe'
      rw [hrun] at hserve
      rcases h with ⟨op', hop'⟩ | hfree
      · obtain ⟨hnd, hreg⟩ := s.bound hop'
        obtain rfl : op' = op := Option.some.inj ((s.opcode hreg).symm.trans hop)
        simp only [hreg] at hserve
        split_ifs at hserve
        cases hserve
        exact ⟨rfl, op', hop', hreg⟩
      · simp only [hfree op hop] at hserve
        cases hserve

end Calls

theorem read_collides_status :
    procedureOpcode "Read".toUTF8.data.toList = procedureOpcode "Status".toUTF8.data.toList := by
  decide

/-- On a server with the one procedure `Status`, a call of `Read` runs the handler of `Status`, and the
verifier is asked about `Status`. -/
theorem read_runs_status :
    ∃ (s : Server Nat) (frame : List UInt8),
      (newServer Nat []).register "Status".toUTF8.data.toList 7 = .ok s ∧
      s.procNames "Read".toUTF8.data.toList = none ∧
      callFrame 1 "Read".toUTF8.data.toList none = some frame ∧
      s.serves (fun _ _ => true) [] frame = some ⟨"Status".toUTF8.data.toList, 7⟩ := by
  obtain ⟨op, hop⟩ : ∃ op, procedureOpcode "Status".toUTF8.data.toList = some op :=
    Option.isSome_iff_exists.mp (by decide)
  obtain ⟨s, hs, -, hprocs, hnames⟩ := (newServer Nat []).register_ok 7 hop rfl
  obtain ⟨frame, hframe, hserve⟩ := @serves_call Nat s (fun _ _ => true) []
    "Read".toUTF8.data.toList op 1 none (fun m hm => by cases hm) (by decide)
    (read_collides_status.trans hop)
  refine ⟨s, frame, hs, ?_, hframe, ?_⟩
  · rw [hnames, Function.update_of_ne (by decide)]
    rfl
  · simp only [hserve, hprocs, Function.update_self, if_true]

end Zap.Client
