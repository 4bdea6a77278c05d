/-
# Zap.Forwarding.Envelope — the HTTP-over-ZAP envelopes (`forward.go`).

A request crosses the boundary as a `Forward`, its answer as a `Response`, and what a backend sends on its
own as a `Push`; each is one object with a slot for every field. The identity of the principal travels in
typed fields of its own (tenant, user, admin flag, permissions), apart from the client's headers, which are
a blob of JSON nobody reads here.

A message from outside need not have been built by `BuildForward`: its byte strings may overlap each other
and the section. What is read from it is still a value with fields no longer than the message, so building
it again cannot lose any of it (`envelopes_round_trip`).
-/
import Zap.Wire.Envelope

namespace Zap.Forwarding

open Zap.Lib Zap.Wire

def msgTypeForward : Nat := 0x80

/-! ## The request -/

@[ext]
structure Forward where
  tenantID : Str
  userID : Str
  isAdmin : Bool
  permissions : Int64
  method : Str
  path : Str
  headers : List UInt8
  body : List UInt8
  connID : Str

def Forward.fields (f : Forward) : Fields :=
  .cons 0 (.scalar .w8 f.isAdmin.toNat) <| .cons 8 (.scalar .w64 f.permissions.toUInt64.toNat) <|
    .cons 16 (.bytes f.tenantID) <| .cons 24 (.bytes f.userID) <| .cons 32 (.bytes f.method) <|
    .cons 40 (.bytes f.path) <| .cons 48 (.bytes f.connID) <| .cons 56 (.bytes f.headers) <|
    .cons 64 (.bytes f.body) .nil

def Forward.size (f : Forward) : Nat :=
  f.tenantID.length + f.userID.length + f.method.length + f.path.length + f.connID.length +
    f.headers.length + f.body.length

def buildForward (f : Forward) : Go (Except WireError Message) :=
  envelope (72 + f.headers.length + f.body.length + f.tenantID.length + f.userID.length +
    f.method.length + f.path.length + f.connID.length + 64) 72 f.fields (msgTypeForward <<< 8)

def text (o : Object) (off : Nat) : Go Str := do
  return spanBytes (← o.text off)

def i64 (o : Object) (off : Nat) : Go Int64 := do
  return (← u64 o off).toInt64

def readForward (msg : Message) : Go Forward := do
  return {
    isAdmin := ← bool msg.root 0
    permissions := ← i64 msg.root 8
    tenantID := ← text msg.root 16
    userID := ← text msg.root 24
    method := ← text msg.root 32
    path := ← text msg.root 40
    connID := ← text msg.root 48
    headers := ← bytes msg.root 56
    body := ← bytes msg.root 64 }

theorem text_of_reads {m : Message} {size a off : Nat} {x : Str}
    (h : (Field.bytes x).Reads m size a off) : text (m.objectAt a) off = .ok x := by
  obtain ⟨s, -, hs, hx⟩ := h
  rw [text, hs, go_bind_ok, go_pure, hx]

theorem i64_of_reads {m : Message} {size a off : Nat} {x : Int64}
    (h : (Field.scalar .w64 x.toUInt64.toNat).Reads m size a off) :
    i64 (m.objectAt a) off = .ok x := by
  rw [i64, u64_of_reads h, go_bind_ok, go_pure, Int64.toInt64_toUInt64]

def Forward.Fits (f : Forward) : Prop := f.size < 2 ^ 31 - 88

theorem Forward.Fits.lt {f : Forward} (h : f.Fits) : f.size < 2 ^ 31 := Nat.lt_of_lt_of_le h (by decide)

/-- **An envelope that fits comes back.** -/
theorem forward_carries (f : Forward) (hfits : f.size < 2 ^ 31) :
    Carries (buildForward f) msgTypeForward readForward f := by
  have hwf : (Wire.Tree.node 72 f.fields).WF := by
    simp [Wire.Tree.WF, Forward.fields, Fields.WF, Fields.Clear, Field.width, Apart, Width.bytes]
  refine envelope_carries hwf trivial (by decide) ?_ ?_
  · have h16 : headerSize = 16 := rfl
    simp only [Forward.size] at hfits
    simp only [Forward.fields, Fields.tail]
    omega
  · rintro m ⟨hadmin, hperms, htenant, huser, hmethod, hpath, hconn, hheaders, hbody, -⟩
    simp only [readForward, Message.root, bool_of_reads hadmin, i64_of_reads hperms,
      text_of_reads htenant, text_of_reads huser, text_of_reads hmethod, text_of_reads hpath,
      text_of_reads hconn, bytes_of_reads hheaders, bytes_of_reads hbody, go_bind_ok, go_pure]

/-! ## The answer -/

/-- `Response`: the status is a Go `int` that crosses as 32 bits. -/
structure Response where
  status : Int
  headers : List UInt8
  body : List UInt8
  deriving DecidableEq

def Response.fields (r : Response) : Fields :=
  .cons 0 (.scalar .w32 (r.status % 2 ^ 32).toNat) <| .cons 8 (.bytes r.body) <|
    .cons 16 (.bytes r.headers) .nil

def buildResponse (r : Response) : Go (Except WireError Message) :=
  envelope (24 + r.body.length + r.headers.length + 32) 24 r.fields (msgTypeForward <<< 8)

def readResponse (msg : Message) : Go Response := do
  return {
    status := (← msg.root.uint32 0 : Nat)
    body := ← bytes msg.root 8
    headers := ← bytes msg.root 16 }

theorem response_carries (r : Response) (h0 : 0 ≤ r.status) (h32 : r.status < 2 ^ 32)
    (hfits : r.body.length + r.headers.length < 2 ^ 31) :
    Carries (buildResponse r) msgTypeForward readResponse r := by
  have hstatus : (r.status % 2 ^ 32).toNat = r.status.toNat := by rw [Int.emod_eq_of_lt h0 h32]
  have hlt : (r.status % 2 ^ 32).toNat < 256 ^ Width.w32.bytes := by
    rw [hstatus]
    show r.status.toNat < 2 ^ 32
    omega
  have hwf : (Wire.Tree.node 24 r.fields).WF := by
    simpa [Wire.Tree.WF, Response.fields, Fields.WF, Fields.Clear, Field.width, Apart, Width.bytes, Field.WF]
      using hlt
  refine envelope_carries hwf trivial (by decide) ?_ ?_
  · show 16 + 24 + (r.body.length + (r.headers.length + 0)) < 2 ^ 32
    omega
  rintro m ⟨hcode, hbody, hheaders, -⟩
  have hread : (m.objectAt m.rootOffset).uint32 0 = .ok r.status.toNat := by
    rw [← hstatus]
    exact hcode.1
  simp only [readResponse, Message.root, hread, bytes_of_reads hbody, bytes_of_reads hheaders, go_bind_ok,
    go_pure, Int.toNat_of_nonneg h0]

/-! ## The push -/

def msgTypePush : Nat := 0x81

structure Push where
  connID : Str
  frame : List UInt8
  encoding : Str

def Push.fields (p : Push) : Fields :=
  .cons 0 (.bytes p.connID) <| .cons 8 (.bytes p.frame) <| .cons 16 (.bytes p.encoding) .nil

def buildPush (p : Push) : Go (Except WireError Message) :=
  envelope (24 + p.frame.length + p.connID.length + p.encoding.length + 16) 24 p.fields (msgTypePush <<< 8)

def readPush (msg : Message) : Go Push := do
  return {
    connID := ← text msg.root 0
    frame := ← bytes msg.root 8
    encoding := ← text msg.root 16 }

theorem push_carries (p : Push) (hfits : p.connID.length + p.frame.length + p.encoding.length < 2 ^ 31) :
    Carries (buildPush p) msgTypePush readPush p := by
  have hwf : (Wire.Tree.node 24 p.fields).WF := by
    simp [Wire.Tree.WF, Push.fields, Fields.WF, Fields.Clear, Field.width, Apart]
  refine envelope_carries hwf trivial (by decide) ?_ ?_
  · show 16 + 24 + (p.connID.length + (p.frame.length + (p.encoding.length + 0))) < 2 ^ 32
    omega
  · rintro m ⟨hconn, hframe, hencoding, -⟩
    simp only [readPush, Message.root, text_of_reads hconn, bytes_of_reads hframe, text_of_reads hencoding,
      go_bind_ok, go_pure]

/-! ## Messages from outside -/

section Hostile

variable (m : Message) {off : Nat} (hoff : off < 2 ^ 31)

include hoff

theorem i64_total : ∃ x, i64 m.root off = .ok x := by
  obtain ⟨x, hx⟩ := u64_total m hoff
  refine ⟨x.toInt64, ?_⟩
  rw [i64, hx]
  rfl

theorem text_total (hlen : m.data.length < 2 ^ 32) :
    ∃ x, text m.root off = .ok x ∧ x.length ≤ m.data.length := by
  obtain ⟨x, hx, hle⟩ := Wire.text_total m hoff hlen
  refine ⟨spanBytes x, ?_, hle⟩
  rw [text, hx, go_bind_ok, go_pure]

end Hostile

theorem readForward_total {m : Message} (hlen : m.data.length < 2 ^ 32) :
    ∃ f, readForward m = .ok f ∧ f.size ≤ 7 * m.data.length := by
  obtain ⟨isAdmin, hadmin⟩ := bool_total m (show 0 < 2 ^ 31 by decide)
  obtain ⟨permissions, hperms⟩ := i64_total m (show 8 < 2 ^ 31 by decide)
  obtain ⟨tenantID, htenant, h1⟩ := text_total m (show 16 < 2 ^ 31 by decide) hlen
  obtain ⟨userID, huser, h2⟩ := text_total m (show 24 < 2 ^ 31 by decide) hlen
  obtain ⟨method, hmethod, h3⟩ := text_total m (show 32 < 2 ^ 31 by decide) hlen
  obtain ⟨path, hpath, h4⟩ := text_total m (show 40 < 2 ^ 31 by decide) hlen
  obtain ⟨connID, hconn, h5⟩ := text_total m (show 48 < 2 ^ 31 by decide) hlen
  obtain ⟨headers, hheaders, h6⟩ := bytes_total m (show 56 < 2 ^ 31 by decide) hlen
  obtain ⟨body, hbody, h7⟩ := bytes_total m (show 64 < 2 ^ 31 by decide) hlen
  refine ⟨⟨tenantID, userID, isAdmin, permissions, method, path, headers, body, connID⟩, ?_, ?_⟩
  · simp only [readForward, hadmin, hperms, htenant, huser, hmethod, hpath, hconn, hheaders, hbody, go_bind_ok,
      go_pure]
  · simp only [Forward.size]
    omega

/-- **The envelopes round-trip, and building a hostile one again loses nothing.**  The fields of the values
are below `2 ^ 31` bytes together, a message from outside is at most 10 MiB long. -/
theorem envelopes_round_trip :
    (∀ f : Forward, f.size < 2 ^ 31 → Carries (buildForward f) msgTypeForward readForward f) ∧
    (∀ r : Response, 0 ≤ r.status → r.status < 2 ^ 32 → r.body.length + r.headers.length < 2 ^ 31 →
      Carries (buildResponse r) msgTypeForward readResponse r) ∧
    (∀ p : Push, p.connID.length + p.frame.length + p.encoding.length < 2 ^ 31 →
      Carries (buildPush p) msgTypePush readPush p) ∧
    ∀ data m, parse data = .ok m → m.data.length ≤ 10 * 1024 * 1024 →
      ∃ f, readForward m = .ok f ∧ Carries (buildForward f) msgTypeForward readForward f := by
  refine ⟨forward_carries, response_carries, push_carries, fun data m _ hlen => ?_⟩
  obtain ⟨f, hread, hsize⟩ := readForward_total (m := m) (by omega)
  exact ⟨f, hread, forward_carries f (by omega)⟩

end Zap.Forwarding
