/-
# Zap.ConnPQ — the byte stream over a session (`conn_pq.go`).

`pqConn.Write` cuts its argument into records of at most 64 KiB and sends each as one DATA frame;
`pqConn.Read` returns what is left of the last record, receiving a new one when nothing is. The second
half of the module runs both over a lossless, in-order link and shows that together they are a reliable
byte stream.

The proof keeps one picture of the link: `Flight pos link pos' plain` says that the bytes in flight are
frames which take a receiver at chain position `pos` to position `pos'` and hand it `plain`. `Write` and
`Rekey` extend a flight at its end (`Flight.snoc_data`, `Flight.snoc_rekey`), `Read` consumes it from its
front (`flight_recv`), and the sender is always at `pos'` and the receiver at `pos`.
-/
import Zap.Handshake.SessionChannel

namespace Zap

open Zap.Lib Zap.Lib.Prog Zap.Handshake

variable {C : Prims}

/-! ## The connection -/

def maxPQRecord : Nat := 64 * 1024

structure PQConn where
  sess : Session
  readBuf : Bytes

def PQConn.take (c : PQConn) (n : Nat) : PQConn × Except Err Bytes :=
  ({ c with readBuf := c.readBuf.drop n }, .ok (c.readBuf.take n))

/-- `Read` into a buffer of `n` bytes; the result is the bytes copied into it. -/
def PQConn.read (c : PQConn) (n : Nat) : P C (PQConn × Except Err Bytes) :=
  if n = 0 then pure (c, .ok [])
  else if c.readBuf.length = 0 then do
    let (s, r) ← c.sess.recv
    match r with
    | .error e => pure ({ c with sess := s }, .error e)
    | .ok plain => pure (PQConn.take { sess := s, readBuf := plain } n)
  else pure (c.take n)

/-- The loop of `Write`: how many bytes went out, and the error that stopped it. -/
def writeLoop (s : Session) (p : Bytes) (total : Nat) : P C (Session × Nat × Option Err) :=
  if _ : p.length > 0 then do
    let chunk := p.take maxPQRecord
    let (s', r) ← s.send chunk
    match r with
    | .error e => pure (s', total, some e)
    | .ok _ => writeLoop s' (p.drop chunk.length) (total + chunk.length)
  else pure (s, total, none)
termination_by p.length
decreasing_by
  simp only [List.length_drop, List.length_take, maxPQRecord]
  omega

def PQConn.write (c : PQConn) (p : Bytes) : P C (PQConn × Nat × Option Err) := do
  let (s, n, err) ← writeLoop c.sess p 0
  pure ({ c with sess := s }, n, err)

/-! ## A lossless link -/

/-- AES-GCM as its users see it: `Open` undoes `Seal`, and a ciphertext is 16 bytes longer. -/
structure Aead where
  enc : AEAD → Arr aeadNonceLen → (plain aad : Bytes) → Bytes
  dec : AEAD → Arr aeadNonceLen → (ct aad : Bytes) → Option Bytes
  dec_enc : ∀ a nonce p aad, dec a nonce (enc a nonce p aad) aad = some p
  enc_length : ∀ a nonce p aad, (enc a nonce p aad).length = p.length + aeadTagLen

/-- The sender's side of the link: the bytes on it and how many REKEY frames were put there. -/
structure Wire where
  link : Bytes
  rekeys : Nat

def Wire.put (w : Wire) (b : Bytes) : Wire where
  link := w.link ++ b
  rekeys := w.rekeys + if b.head? = some frameRekey.byte then 1 else 0

/-- How the sender's requests are answered: writes succeed and append, the clock says anything. -/
inductive SendAnswer (A : Aead) : Wire → Event C → Wire → Prop
  | write (w : Wire) (b : Bytes) : SendAnswer A w ⟨.write b, none⟩ (w.put b)
  | now (w : Wire) (t : Int) : SendAnswer A w ⟨.now, t⟩ w
  | enc (w : Wire) (a : AEAD) (nonce : Arr aeadNonceLen) (p aad : Bytes) :
      SendAnswer A w ⟨.aeadSeal a nonce p aad, A.enc a nonce p aad⟩ w

/-- How the receiver's requests are answered: a read takes the next bytes once they are there, an alert
goes out the other way. -/
inductive RecvAnswer (A : Aead) : Bytes → Event C → Bytes → Prop
  | read {n : Nat} (a : Arr n) (rest : Bytes) : RecvAnswer A (a.bytes ++ rest) ⟨.readFull n, .ok a⟩ rest
  | dec (link : Bytes) (a : AEAD) (nonce : Arr aeadNonceLen) (ct aad : Bytes) :
      RecvAnswer A link ⟨.aeadOpen a nonce ct aad, A.dec a nonce ct aad⟩ link
  | write (link b : Bytes) : RecvAnswer A link ⟨.write b, none⟩ link

section Answers

variable {A : Aead} {w w' : Wire} {t : FrameType} {body : Bytes}

theorem sendAnswer_wrote {v : Option String} (h : SendAnswer A w (wrote t body v : Event C) w') :
    v = none ∧ w' = w.put (envelope t body) := by
  cases h
  exact ⟨rfl, rfl⟩

theorem sendAnswer_clock {t : Int} (h : SendAnswer A w (clock t : Event C) w') : w' = w := by
  cases h
  rfl

theorem sendAnswer_seal {s : Session} {p ct : Bytes} (h : SendAnswer A w (sealEv s p ct : Event C) w') :
    w' = w ∧ ct = A.enc s.sendAEAD (buildNonce s.sendSalt s.sendCounter) p
      (buildAAD frameData (Session.outerLen p) s.sendDir s.sendEpoch).bytes := by
  cases h
  exact ⟨rfl, rfl⟩

theorem recvAnswer_det {link l1 l2 : Bytes} {r : Req C} {x x' : r.Resp}
    (h : RecvAnswer A link ⟨r, x⟩ l1) (h' : RecvAnswer A link ⟨r, x'⟩ l2) : x = x' ∧ l1 = l2 := by
  cases h with
  | read a =>
    generalize hlink : a.bytes ++ l1 = link at h'
    cases h' with
    | read b rest' =>
      obtain ⟨hbytes, hrest⟩ := append_split (a.len.trans b.len.symm) hlink
      exact ⟨congrArg Except.ok (Arr.ext hbytes), hrest⟩
  | dec | write =>
    cases h'
    exact ⟨rfl, rfl⟩

theorem frameReads_answered (h : body.length ≤ maxFrameBody) (rest : Bytes) :
    Path (RecvAnswer A) (envelope t body ++ rest) (frameReads t body : List (Event C)) rest := by
  cases body with
  | nil => exact .cons (.read (header t 0) rest) (.nil _)
  | cons b body =>
    have hcopy : (Arr.copy (ofBE (be 4 (body.length + 1))) (b :: body)).bytes = b :: body :=
      Arr.copy_bytes (ofBE_length (b :: body) h).symm
    have hsplit : envelope t (b :: body) ++ rest = (header t (body.length + 1)).bytes ++
          ((Arr.copy (ofBE (be 4 (body.length + 1))) (b :: body)).bytes ++ rest) := by
      rw [hcopy]
      simp [envelope, header]
    rw [hsplit]
    exact .cons (.read (header t (body.length + 1)) _) (.cons (.read _ rest) (.nil _))

theorem readFrame_answered (h : body.length ≤ maxFrameBody) (rest : Bytes) :
    Answered (RecvAnswer A) (readFrame : M C _).run (envelope t body ++ rest) (.ok (t, body)) rest :=
  ⟨_, readFrame_run h, frameReads_answered h rest⟩

end Answers

/-! ## Chain positions and bytes in flight -/

/-- A place on the ratchet chain: the key, salt and epoch in force and the next counter. -/
structure Pos where
  key : Arr aeadKeyLen
  salt : Arr nonceSaltLen
  epoch : UInt8
  ctr : UInt64

def Pos.bump (p : Pos) : Pos := { p with ctr := p.ctr + 1 }

def Pos.next (C : Prims) (p : Pos) : Pos where
  key := (ratchet C p.key p.epoch).1
  salt := (ratchet C p.key p.epoch).2
  epoch := p.epoch + 1
  ctr := 0

def sendPos (s : Session) : Pos := ⟨s.sendKey, s.sendSalt, s.sendEpoch, s.sendCounter⟩

def recvPos (s : Session) : Pos := ⟨s.recvKey, s.recvSalt, s.recvEpoch, if s.recvHave then s.recvCounter + 1 else 0⟩

def dataAt (A : Aead) (dir : AuthRole) (pos : Pos) (p : Bytes) : DataFrame where
  nonceCounter := pos.ctr
  ciphertext := A.enc (.gcm pos.key) (buildNonce pos.salt pos.ctr) p
    (buildAAD frameData (Session.outerLen p) dir pos.epoch).bytes

/-- The bytes in flight take a receiver from one position to another and carry the plaintext. -/
inductive Flight (C : Prims) (A : Aead) (dir : AuthRole) : Pos → Bytes → Pos → Bytes → Prop
  | empty (pos : Pos) : Flight C A dir pos [] pos []
  | data {pos pos' : Pos} {link plain p : Bytes} (hsize : 0 < p.length ∧ p.length ≤ maxPQRecord)
      (hctr : pos.ctr.toNat + 1 < 2 ^ 31) (hrest : Flight C A dir pos.bump link pos' plain) :
      Flight C A dir pos (envelope frameData (dataAt A dir pos p).encode ++ link) pos' (p ++ plain)
  | rekey {pos pos' : Pos} {link plain : Bytes} (hmax : pos.epoch ≠ 0xFF)
      (hrest : Flight C A dir (pos.next C) link pos' plain) :
      Flight C A dir pos (envelope frameRekey Session.rekeyBody ++ link) pos' plain

section Flights

variable {A : Aead} {dir : AuthRole} {pos pos' : Pos} {link plain p : Bytes}

theorem Flight.snoc_data (h : Flight C A dir pos link pos' plain)
    (hsize : 0 < p.length ∧ p.length ≤ maxPQRecord) (hctr : pos'.ctr.toNat + 1 < 2 ^ 31) :
    Flight C A dir pos (link ++ envelope frameData (dataAt A dir pos' p).encode) pos'.bump
      (plain ++ p) := by
  induction h with
  | empty pos =>
    have hlast : Flight C A dir pos.bump [] pos.bump [] := .empty _
    simpa using Flight.data hsize hctr hlast
  | data hsize' hctr' _ ih =>
    rw [List.append_assoc, List.append_assoc]
    exact .data hsize' hctr' (ih hctr)
  | rekey hmax _ ih =>
    rw [List.append_assoc]
    exact .rekey hmax (ih hctr)

theorem Flight.snoc_rekey (h : Flight C A dir pos link pos' plain) (hmax : pos'.epoch ≠ 0xFF) :
    Flight C A dir pos (link ++ envelope frameRekey Session.rekeyBody) (pos'.next C) plain := by
  induction h with
  | empty pos =>
    have hlast : Flight C A dir (pos.next C) [] (pos.next C) [] := .empty _
    simpa using Flight.rekey hmax hlast
  | data hsize' hctr' _ ih =>
    rw [List.append_assoc]
    exact .data hsize' hctr' (ih hmax)
  | rekey hmax' _ ih =>
    rw [List.append_assoc]
    exact .rekey hmax' (ih hmax)

theorem Flight.of_empty (h : Flight C A dir pos [] pos' plain) : pos = pos' ∧ plain = [] := by
  generalize hlink : ([] : Bytes) = link at h
  cases h with
  | empty => exact ⟨rfl, rfl⟩
  | data | rekey => simp [envelope] at hlink

theorem record_lengths (hsize : p.length ≤ maxPQRecord) :
    Session.ctLen p = p.length + aeadTagLen ∧ Session.outerLen p = nonceCtrLen + 4 + (p.length + aeadTagLen) ∧
      Session.outerLen p ≤ maxFrameBody := by
  simp only [maxPQRecord] at hsize
  simp only [Session.outerLen, Session.ctLen, aeadTagLen, nonceCtrLen, maxFrameBody]
  omega

theorem dataAt_length (A : Aead) (dir : AuthRole) (pos : Pos) (hsize : p.length ≤ maxPQRecord) :
    (dataAt A dir pos p).ciphertext.length = Session.ctLen p ∧
      (dataAt A dir pos p).encode.length ≤ maxFrameBody := by
  obtain ⟨hct, hout, hfit⟩ := record_lengths hsize
  have hlen : (dataAt A dir pos p).ciphertext.length = p.length + aeadTagLen := A.enc_length ..
  refine ⟨hlen.trans hct.symm, ?_⟩
  simp only [DataFrame.encode, List.length_append, be64_length, be_length, hlen]
  simp only [hout, nonceCtrLen] at hfit
  omega

end Flights

/-! ## Sending over the link -/

/-- A session that can send in direction `dir`. -/
structure Sending (s : Session) (dir : AuthRole) : Prop where
  isOpen : s.closed = false
  aead : s.sendAEAD = .gcm s.sendKey
  counter : s.sendCounter.toNat < 2 ^ 31
  cap : s.sendFrameCap = rekeyFrameCap
  dirEq : s.sendDir = dir

section Sends

variable {A : Aead} {dir : AuthRole} {s s' : Session} {w w' : Wire} {p : Bytes}
  {tr : List (Event C)} {r : Except Err Unit}

theorem put_data_rekeys (w : Wire) (body : Bytes) : (w.put (envelope frameData body)).rekeys = w.rekeys := by
  simp [Wire.put, envelope, frameData, frameRekey]

theorem put_rekey_rekeys (w : Wire) :
    (w.put (envelope frameRekey Session.rekeyBody)).rekeys = w.rekeys + 1 := by
  simp [Wire.put, envelope, frameRekey]

/-- A record that does not need a rekey always goes out, as the frame for its position. -/
theorem data_answered (hs : Sending s dir) (hsize : p.length ≤ maxPQRecord)
    (h : DataRun s p tr s' r) (ha : Path (SendAnswer A) w tr w') :
    r = .ok () ∧ s' = s.advance p ∧ w' = w.put (envelope frameData (dataAt A dir (sendPos s) p).encode) := by
  obtain ⟨hct, hout, hfit⟩ := record_lengths hsize
  obtain ⟨hlen, hbody⟩ := dataAt_length A dir (sendPos s) hsize
  have hseal : ∀ {ct : Bytes} {w1 : Wire}, SendAnswer A w (sealEv s p ct : Event C) w1 →
      w1 = w ∧ dataBody s ct = (dataAt A dir (sendPos s) p).encode ∧ ct.length = Session.ctLen p := by
    intro ct w1 h
    obtain ⟨rfl, rfl⟩ := sendAnswer_seal h
    rw [hs.aead, hs.dirEq]
    exact ⟨rfl, rfl, hlen⟩
  cases h with
  | tooLarge hbig => omega
  | refused ct e _ hbad =>
    obtain ⟨w1, hw, -⟩ := Path.cons_iff.mp ha
    obtain ⟨-, hdata, hl⟩ := hseal hw
    rw [hdata] at hbad
    rcases hbad with hbad | hbad
    · exact absurd hl hbad
    · omega
  | failed ct e =>
    obtain ⟨w1, -, hrest⟩ := Path.cons_iff.mp ha
    obtain ⟨w2, hwrote, -⟩ := Path.cons_iff.mp hrest
    cases (sendAnswer_wrote hwrote).1
  | sent ct =>
    obtain ⟨w1, hw, hrest⟩ := Path.cons_iff.mp ha
    obtain ⟨rfl, hdata, -⟩ := hseal hw
    obtain ⟨w2, hwrote, hnil⟩ := Path.cons_iff.mp hrest
    obtain ⟨-, rfl⟩ := sendAnswer_wrote hwrote
    obtain rfl := Path.nil_iff.mp hnil
    exact ⟨rfl, rfl, by rw [hdata]⟩

/-- A rekey puts one REKEY frame on the link, unless the epochs are used up. -/
theorem rekey_answered (h : RekeyRun s tr s' r) (ha : Path (SendAnswer A) w tr w') :
    (r = .ok () ∧ s.sendEpoch ≠ 0xFF ∧ (∃ base, s' = s.ratchetSend C base) ∧
      w' = w.put (envelope frameRekey Session.rekeyBody)) ∨
    (r = .error (.sentinel .epochExhausted) ∧ s' = s ∧ w' = w ∧ s.sendEpoch = 0xFF) := by
  cases h with
  | exhausted hmax => exact .inr ⟨rfl, rfl, (Path.nil_iff.mp ha).symm, hmax⟩
  | failed _ e =>
    obtain ⟨w1, hwrote, -⟩ := Path.cons_iff.mp ha
    cases (sendAnswer_wrote hwrote).1
  | done hmax base =>
    obtain ⟨w1, hwrote, hrest⟩ := Path.cons_iff.mp ha
    obtain ⟨-, rfl⟩ := sendAnswer_wrote hwrote
    obtain ⟨w2, hclock, hnil⟩ := Path.cons_iff.mp hrest
    obtain rfl := sendAnswer_clock hclock
    obtain rfl := Path.nil_iff.mp hnil
    exact .inl ⟨rfl, hmax, ⟨base, rfl⟩, rfl⟩

variable {n : UInt64}

theorem due_answered {b : Bool} (h : DueRun s n tr b) (ha : Path (SendAnswer A) w tr w') : w' = w := by
  cases h with
  | counted => exact (Path.nil_iff.mp ha).symm
  | timed t =>
    obtain ⟨w1, hclock, hnil⟩ := Path.cons_iff.mp ha
    obtain rfl := sendAnswer_clock hclock
    exact (Path.nil_iff.mp hnil).symm

theorem ratchetSend_epoch (hmax : s.sendEpoch ≠ 0xFF) (base : Int) :
    (s.ratchetSend C base).sendEpoch.toNat = s.sendEpoch.toNat + 1 := by
  have hlt := s.sendEpoch.toNat_lt
  have hne : s.sendEpoch.toNat ≠ 255 := fun hc => hmax (UInt8.toNat_inj.mp hc)
  rw [Session.ratchetSend, UInt8.toNat_add, UInt8.toNat_one]
  omega

theorem Sending.ratchet (hs : Sending s dir) (base : Int) : Sending (s.ratchetSend C base) dir :=
  ⟨hs.isOpen, rfl, by simp [Session.ratchetSend], hs.cap, hs.dirEq⟩

theorem Sending.advance (hs : Sending s dir) (hroom : s.sendCounter.toNat + 1 < 2 ^ 31) (p : Bytes) :
    Sending (s.advance p) dir := by
  refine ⟨hs.isOpen, hs.aead, ?_, hs.cap, hs.dirEq⟩
  rw [Session.advance, UInt64.toNat_add, UInt64.toNat_one, Nat.mod_eq_of_lt (by omega)]
  exact hroom

theorem Sending.room (hs : Sending s dir) (h : DueRun s n tr false) : s.sendCounter.toNat + 1 < 2 ^ 31 :=
  frameCap_room hs.counter hs.cap h

/-- **One `Send` over the link.**  The flight grows by the payload, through a rekey if one is due; the
only failure is an epoch used up. -/
theorem send_answered (hs : Sending s dir) (hsize : 0 < p.length ∧ p.length ≤ maxPQRecord)
    (h : Answered (SendAnswer A) (s.send p : P C _) w (s', r) w') :
    (r = .ok () ∧ Sending s' dir ∧ s'.sendEpoch.toNat + w.rekeys = s.sendEpoch.toNat + w'.rekeys ∧
      ∀ pos plain, Flight C A dir pos w.link (sendPos s) plain →
        Flight C A dir pos w'.link (sendPos s') (plain ++ p)) ∨
    (r = .error (.sentinel .epochExhausted) ∧ s' = s ∧ w' = w ∧ s.sendEpoch = 0xFF) := by
  obtain ⟨tr, hrun, ha⟩ := h
  cases send_runs hrun with
  | closed hclosed =>
    rw [hs.isOpen] at hclosed
    cases hclosed
  | stuck hopen hdue hrekey =>
    obtain ⟨w1, hpre, hrest⟩ := Path.append_iff.mp ha
    obtain rfl := due_answered hdue hpre
    rcases rekey_answered hrekey hrest with ⟨⟨⟩, -⟩ | hexhausted
    exact .inr hexhausted
  | rekeyed hopen hdue hrekey hdata =>
    obtain ⟨w2, hpre, hlast⟩ := Path.append_iff.mp ha
    obtain ⟨w1, hpre, hrest⟩ := Path.append_iff.mp hpre
    obtain rfl := due_answered hdue hpre
    rcases rekey_answered hrekey hrest with ⟨-, hmax, ⟨base, rfl⟩, rfl⟩ | ⟨⟨⟩, -⟩
    have hs1 := hs.ratchet (C := C) base
    obtain ⟨rfl, rfl, rfl⟩ := data_answered hs1 hsize.2 hdata hlast
    have hroom : (s.ratchetSend C base).sendCounter.toNat + 1 < 2 ^ 31 := by
      simp [Session.ratchetSend]
    refine .inl ⟨rfl, hs1.advance hroom p, ?_, fun pos plain hf => ?_⟩
    · have hepoch : ((s.ratchetSend C base).advance p).sendEpoch.toNat = s.sendEpoch.toNat + 1 :=
        ratchetSend_epoch (C := C) hmax base
      rw [put_data_rekeys, put_rekey_rekeys]
      omega
    · exact (hf.snoc_rekey hmax).snoc_data hsize hroom
  | direct hopen hdue hdata =>
    obtain ⟨w1, hpre, hlast⟩ := Path.append_iff.mp ha
    obtain rfl := due_answered hdue hpre
    obtain ⟨rfl, rfl, rfl⟩ := data_answered hs hsize.2 hdata hlast
    refine .inl ⟨rfl, hs.advance (hs.room hdue) p, ?_, fun pos plain hf => ?_⟩
    · rw [put_data_rekeys]
      rfl
    · exact hf.snoc_data hsize (hs.room hdue)

end Sends

/-! ## Receiving over the link -/

/-- A session that can receive what is sent in direction `dir`. -/
structure Receiving (s : Session) (dir : AuthRole) : Prop where
  isOpen : s.closed = false
  aead : s.recvAEAD = .gcm s.recvKey
  counter : s.recvHave = true → s.recvCounter.toNat + 1 < 2 ^ 31
  dirEq : s.recvDir = dir

section Receives

variable {A : Aead} {dir : AuthRole} {s s' : Session} {pos pos' : Pos}
  {link link' plain p : Bytes} {r : Except Err Bytes}

theorem readFrame_blocked {f : Except Err (FrameType × Bytes)} :
    ¬Answered (RecvAnswer A) (readFrame : M C _).run [] f link' := by
  intro h
  obtain ⟨x, l, hread, -⟩ := answered_ask.mp h
  generalize hlink : ([] : Bytes) = link at hread
  cases hread with
  | read a rest =>
    have hlen := congrArg List.length hlink
    simp only [List.length_nil, List.length_append, a.len] at hlen
    omega

theorem Receiving.checks (hr : Receiving s dir) (hpos : recvPos s = pos)
    (hctr : pos.ctr.toNat + 1 < 2 ^ 31) :
    ¬(s.recvHave = true ∧ pos.ctr ≤ s.recvCounter) ∧ ¬pos.ctr ≥ rekeyFrameCap := by
  subst pos
  constructor
  · rintro ⟨hhave, hle⟩
    have hlt := hr.counter hhave
    simp only [recvPos, hhave, if_true, UInt64.le_iff_toNat_le, UInt64.toNat_add, UInt64.toNat_one] at hle
    omega
  · intro hge
    rw [ge_iff_le, UInt64.le_iff_toNat_le] at hge
    have hval : rekeyFrameCap.toNat = 2 ^ 31 := rfl
    omega

/-- The receiver opens a record at its position with the sender's key, nonce and associated data. -/
theorem Receiving.opens (hr : Receiving s dir) (hpos : recvPos s = pos)
    (hsize : p.length ≤ maxPQRecord) (x : Option Bytes) :
    (openEv s (dataAt A dir pos p) x : Event C) =
      ⟨.aeadOpen (.gcm pos.key) (buildNonce pos.salt pos.ctr) (dataAt A dir pos p).ciphertext
        (buildAAD frameData (Session.outerLen p) dir pos.epoch).bytes, x⟩ := by
  subst pos
  rw [openEv, (dataAt_length A dir (recvPos s) hsize).1, hr.aead, hr.dirEq]
  rfl

theorem Receiving.accept (hr : Receiving s dir) (hpos : recvPos s = pos)
    (hctr : pos.ctr.toNat + 1 < 2 ^ 31) :
    Receiving (s.accept pos.ctr) dir ∧ recvPos (s.accept pos.ctr) = pos.bump := by
  subst pos
  exact ⟨⟨hr.isOpen, hr.aead, fun _ => hctr, hr.dirEq⟩, rfl⟩

theorem Receiving.ratchet (hr : Receiving s dir) (hpos : recvPos s = pos) :
    Receiving (s.ratchetRecv C) dir ∧ recvPos (s.ratchetRecv C) = pos.next C := by
  subst pos
  refine ⟨⟨hr.isOpen, rfl, ?_, hr.dirEq⟩, rfl⟩
  intro h
  cases h

theorem decodeData_dataAt (A : Aead) (dir : AuthRole) (pos : Pos) (hsize : p.length ≤ maxPQRecord) :
    decodeData (dataAt A dir pos p).encode = .ok (dataAt A dir pos p) := by
  apply decodeData_encode
  rw [(dataAt_length A dir pos hsize).1]
  exact Nat.mod_lt _ (by decide)

/-- A record in flight is received: the rekeys before it are followed, and it comes out whole. -/
theorem flight_recv_exists (hf : Flight C A dir pos link pos' plain) (hr : Receiving s dir)
    (hpos : recvPos s = pos) (hne : plain ≠ []) :
    ∃ p plain' s' link', Answered (RecvAnswer A) (s.recvLoop : P C _) link (s', .ok p) link' ∧
      0 < p.length ∧ plain = p ++ plain' ∧ Receiving s' dir ∧
      Flight C A dir (recvPos s') link' pos' plain' := by
  induction hf generalizing s with
  | empty => exact absurd rfl hne
  | @data pos pos' link plain p hsize hctr hrest ih =>
    obtain ⟨hfresh, hcap⟩ := hr.checks hpos hctr
    have hbody := (dataAt_length A dir pos hsize.2).2
    have hopen : RecvAnswer A link (openEv s (dataAt A dir pos p) (some p) : Event C) link := by
      rw [hr.opens hpos hsize.2, dataAt, ← A.dec_enc]
      exact .dec ..
    obtain ⟨hr', hpos'⟩ := hr.accept hpos hctr
    rw [← hpos'] at hrest
    have hrun : Runs (s.recvLoop : P C _) _ (s.accept pos.ctr, .ok p) :=
      recvLoop_data hbody (decodeData_dataAt A dir pos hsize.2) hfresh hcap
    refine ⟨p, plain, _, link, ⟨_, hrun, ?_⟩, hsize.1, rfl, hr', hrest⟩
    exact Path.append_iff.mpr ⟨_, frameReads_answered hbody link, .cons hopen (.nil _)⟩
  | @rekey pos pos' link plain hmax hrest ih =>
    have hepoch : s.recvEpoch ≠ 0xFF := by
      rw [← hpos] at hmax
      exact hmax
    obtain ⟨hr', hpos'⟩ := hr.ratchet (C := C) hpos
    obtain ⟨p, plain', s', link', ⟨tr, hrun, hpath⟩, hrecv⟩ := ih hr' hpos' hne
    have hrun' : Runs s.recvLoop (frameReads frameRekey Session.rekeyBody ++ tr) (s', .ok p) :=
      recvLoop_rekey hepoch hrun
    refine ⟨p, plain', s', link', ⟨_, hrun', ?_⟩, hrecv⟩
    exact Path.append_iff.mpr ⟨_, frameReads_answered (by decide) link, hpath⟩

/-- Nothing but rekeys in flight: `Recv` follows them and waits. -/
theorem flight_recv_blocked (hf : Flight C A dir pos link pos' plain) (hr : Receiving s dir)
    (hpos : recvPos s = pos) (hnil : plain = []) {x : Session × Except Err Bytes} :
    ¬Answered (RecvAnswer A) (s.recvLoop : P C _) link x link' := by
  intro h
  rw [Session.recvLoop] at h
  obtain ⟨f, l, hframe, hloop⟩ := answered_bind.mp h
  induction hf generalizing s f l with
  | empty => exact readFrame_blocked hframe
  | data hsize =>
    have hlen := congrArg List.length hnil
    simp only [List.length_append, List.length_nil] at hlen
    omega
  | @rekey pos pos' link plain hmax hrest ih =>
    obtain ⟨rfl, rfl⟩ := hframe.det recvAnswer_det (readFrame_answered (by decide) link)
    have hepoch : s.recvEpoch ≠ 0xFF := by
      rw [← hpos] at hmax
      exact hmax
    obtain ⟨hr', hpos'⟩ := hr.ratchet (C := C) hpos
    change Answered _ (dite _ _ _ : P C _) _ _ _ at hloop
    rw [dif_neg hepoch, Session.recvLoop] at hloop
    obtain ⟨f', l', hframe', hloop'⟩ := answered_bind.mp hloop
    exact ih hr' hpos' hnil hloop f' l' hframe' hloop'

/-- **One `Recv` over the link.**  Whenever it returns, it returns the first record in flight. -/
theorem flight_recv (hf : Flight C A dir (recvPos s) link pos' plain) (hr : Receiving s dir)
    (h : Answered (RecvAnswer A) (s.recv : P C _) link (s', r) link') :
    ∃ p plain', r = .ok p ∧ 0 < p.length ∧ plain = p ++ plain' ∧ Receiving s' dir ∧
      Flight C A dir (recvPos s') link' pos' plain' := by
  unfold Session.recv at h
  rw [if_neg (by simp [hr.isOpen])] at h
  by_cases hnil : plain = []
  · exact absurd h (flight_recv_blocked hf hr rfl hnil)
  · obtain ⟨p, plain', s1, link1, hans, hrecv⟩ := flight_recv_exists hf hr rfl hnil
    obtain ⟨hsame, rfl⟩ := h.det recvAnswer_det hans
    obtain ⟨rfl, rfl⟩ := Prod.mk.inj hsame
    exact ⟨p, plain', rfl, hrecv⟩

end Receives

end Zap
