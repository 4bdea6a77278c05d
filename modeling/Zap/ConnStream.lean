/-
# Zap.ConnStream — a session and `pqConn` are a reliable byte stream.

One end calls `Write` and `Rekey`, the other calls `Read`, and the events of the two are interleaved in
any order on a lossless in-order link (`LinkStep`). Writes only append to the link and reads only take
from its front, so a read moves behind every later write (`link_swap`) and each schedule comes to the same
as the one in which all calls of the writer come first. The writer then builds up one flight
(`out_run`) and the reader consumes it (`in_run`).

A REKEY frame is never lost, so the receiver follows the sender's chain exactly; the one way to leave it is
the 256th rekey, which the sender refuses.
-/
import Zap.ConnPQ

namespace Zap

open Zap.Lib Zap.Lib.Prog Zap.Handshake

variable {C : Prims} {A : Aead} {dir : AuthRole}

/-! ## The two ends and the link between them -/

inductive OutAct
  | write (p : Bytes) (n : Nat) (err : Option Err)
  | rekey (r : Except Err Unit)

def OutAct.bytes : OutAct → Bytes
  | .write p _ _ => p
  | .rekey _ => []

/-- `Write` returned `len(p), nil`; `Rekey` returned `nil`. -/
def OutAct.Ok : OutAct → Prop
  | .write p n err => n = p.length ∧ err = none
  | .rekey r => r = .ok ()

/-- The call asked for a 256th rekey. -/
def OutAct.exhausted : OutAct → Bool
  | .write _ _ err => err = some (.sentinel .epochExhausted)
  | .rekey (.error e) => e = .sentinel .epochExhausted
  | .rekey (.ok _) => false

structure OutCall (C : Prims) where
  act : OutAct
  evs : List (Event C)

inductive OutStep : PQConn → OutCall C → PQConn → Prop
  | write {c c' : PQConn} {p : Bytes} {n : Nat} {err : Option Err} {evs : List (Event C)}
      (h : Runs (c.write p) evs (c', n, err)) : OutStep c ⟨.write p n err, evs⟩ c'
  | rekey {c : PQConn} {s : Session} {r : Except Err Unit} {evs : List (Event C)}
      (h : Runs c.sess.rekey evs (s, r)) : OutStep c ⟨.rekey r, evs⟩ { c with sess := s }

structure InCall (C : Prims) where
  size : Nat
  result : Except Err Bytes
  evs : List (Event C)

def InStep (c : PQConn) (call : InCall C) (c' : PQConn) : Prop := Runs (c.read call.size) call.evs (c', call.result)

def bytesWritten (calls : List (OutCall C)) : Bytes := calls.flatMap (·.act.bytes)

def InCall.bytes (call : InCall C) : Bytes :=
  match call.result with
  | .ok b => b
  | .error _ => []

def bytesRead (calls : List (InCall C)) : Bytes := calls.flatMap (·.bytes)

/-- Rekeys of a run: the frames on the link, and the attempts past the last epoch. -/
def rekeyCount (w : Wire) (calls : List (OutCall C)) : Nat := w.rekeys + calls.countP (·.act.exhausted)

def TakeStep (A : Aead) (w : Wire) (e : Event C) (w' : Wire) : Prop :=
  RecvAnswer A w.link e w'.link ∧ w'.rekeys = w.rekeys

def LinkStep (A : Aead) : Wire → Event C ⊕ Event C → Wire → Prop := Path.both (SendAnswer A) (TakeStep A)

variable {link link' : Bytes} {evs : List (Event C)} {keys : SessionKeys}

theorem RecvAnswer.append {e : Event C} (h : RecvAnswer A link e link') (b : Bytes) :
    RecvAnswer A (link ++ b) e (link' ++ b) := by
  cases h with
  | read a =>
    rw [List.append_assoc]
    exact .read a _
  | dec => exact .dec ..
  | write => exact .write ..

/-- A read sees only the front of the link: it moves behind a later write. -/
theorem link_swap {w w1 w2 : Wire} {a b : Event C} (hb : TakeStep A w b w1)
    (ha : SendAnswer A w1 a w2) : ∃ w', SendAnswer A w a w' ∧ TakeStep A w' b w2 := by
  obtain ⟨htake, hcount⟩ := hb
  cases ha with
  | write p => exact ⟨w.put p, .write w p, htake.append p, by simp [Wire.put, hcount]⟩
  | now t => exact ⟨w, .now w t, htake, hcount⟩
  | enc => exact ⟨w, .enc .., htake, hcount⟩

theorem take_path {w w' : Wire} (h : Path (TakeStep A) w evs w') :
    Path (RecvAnswer A) w.link evs w'.link ∧ w'.rekeys = w.rekeys := by
  induction h with
  | nil => exact ⟨.nil _, rfl⟩
  | cons hstep _ ih => exact ⟨.cons hstep.1 ih.1, ih.2.trans hstep.2⟩

theorem path_take (h : Path (RecvAnswer A) link evs link') (k : Nat) : Path (TakeStep A) ⟨link, k⟩ evs ⟨link', k⟩ := by
  induction h with
  | nil => exact .nil _
  | @cons _ t _ _ _ hstep _ ih => exact .cons (t := ⟨t, k⟩) ⟨hstep, rfl⟩ ih

/-! ## The writer -/

section Out

variable {s s' : Session} {w w' : Wire} {p : Bytes}

/-- What a call at the writing end may do: extend the flight by its bytes, or find the epochs used up. -/
structure Grows (C : Prims) (A : Aead) (dir : AuthRole) (s : Session) (w : Wire) (s' : Session)
    (w' : Wire) (p : Bytes) (ok exhausted : Prop) : Prop where
  sending : Sending s' dir
  epoch : s'.sendEpoch.toNat + w.rekeys = s.sendEpoch.toNat + w'.rekeys
  outcome : (ok ∧ ∀ pos plain, Flight C A dir pos w.link (sendPos s) plain →
      Flight C A dir pos w'.link (sendPos s') (plain ++ p)) ∨ (exhausted ∧ s'.sendEpoch = 0xFF)

/-- **`Write` over the link**, by induction on the bytes left: each round sends one record. -/
theorem writeLoop_answered {n total : Nat} {err : Option Err} (hs : Sending s dir)
    (h : Answered (SendAnswer A) (writeLoop s p total : P C _) w (s', n, err) w') :
    Grows C A dir s w s' w' p (n = total + p.length ∧ err = none)
      (err = some (.sentinel .epochExhausted)) := by
  induction hlen : p.length using Nat.strong_induction_on generalizing s p total w with
  | _ len ih =>
  rw [writeLoop] at h
  split at h
  · rename_i hpos
    obtain ⟨⟨s1, r⟩, w1, hsend, hrest⟩ := answered_bind.mp h
    have hchunk : 0 < (p.take maxPQRecord).length ∧ (p.take maxPQRecord).length ≤ maxPQRecord := by
      simp only [List.length_take, maxPQRecord]
      omega
    rcases send_answered hs hchunk hsend with ⟨rfl, hs1, hepoch1, hflight1⟩ | ⟨rfl, rfl, rfl, hmax⟩
    · have hdrop : (p.drop (p.take maxPQRecord).length).length < len := by
        rw [List.length_drop]
        omega
      obtain ⟨hs', hepoch, hout⟩ := ih _ hdrop hs1 hrest rfl
      refine ⟨hs', by omega, hout.imp ?_ id⟩
      rintro ⟨⟨rfl, rfl⟩, hflight⟩
      refine ⟨⟨?_, rfl⟩, fun pos plain hf => ?_⟩
      · rw [List.length_drop]
        have hle : (p.take maxPQRecord).length ≤ p.length := by simp
        omega
      · have hcut : p.take maxPQRecord ++ p.drop (p.take maxPQRecord).length = p :=
          List.prefix_iff_eq_append.mp (List.take_prefix ..)
        rw [← hcut, ← List.append_assoc]
        exact hflight pos _ (hflight1 pos plain hf)
    · obtain ⟨heq, rfl⟩ := answered_ret.mp hrest
      obtain ⟨rfl, rfl, rfl⟩ : s1 = s' ∧ total = n ∧ _ := by simpa using heq
      exact ⟨hs, rfl, .inr ⟨rfl, hmax⟩⟩
  · rename_i hnil
    obtain rfl : p = [] := List.eq_nil_of_length_eq_zero (by omega)
    obtain ⟨heq, rfl⟩ := answered_ret.mp h
    obtain ⟨rfl, rfl, rfl⟩ : s = s' ∧ total = n ∧ none = err := by simpa using heq
    refine ⟨hs, rfl, .inl ⟨⟨by simp [← hlen], rfl⟩, fun pos plain hf => ?_⟩⟩
    rwa [List.append_nil]

theorem rekey_grows {r : Except Err Unit} {tr : List (Event C)} (hs : Sending s dir)
    (hrun : Runs s.rekey tr (s', r)) (ha : Path (SendAnswer A) w tr w') :
    Grows C A dir s w s' w' [] (r = .ok ()) (r = .error (.sentinel .epochExhausted)) := by
  rcases rekey_runs hrun with ⟨hclosed, -⟩ | ⟨-, hrekey⟩
  · rw [hs.isOpen] at hclosed
    cases hclosed
  rcases rekey_answered hrekey ha with ⟨rfl, hmax, ⟨base, rfl⟩, rfl⟩ | ⟨rfl, rfl, rfl, hmax⟩
  · refine ⟨hs.ratchet base, ?_, .inl ⟨rfl, fun pos plain hf => ?_⟩⟩
    · rw [put_rekey_rekeys]
      have hepoch := ratchetSend_epoch (C := C) hmax base
      omega
    · rw [List.append_nil]
      exact hf.snoc_rekey hmax
  · exact ⟨hs, rfl, .inr ⟨rfl, hmax⟩⟩

variable {c c' : PQConn}

theorem out_step {call : OutCall C} (h : OutStep c call c') (hs : Sending c.sess dir)
    (ha : Path (SendAnswer A) w call.evs w') :
    Grows C A dir c.sess w c'.sess w' call.act.bytes call.act.Ok (call.act.exhausted = true) := by
  cases h with
  | write hrun =>
    obtain ⟨⟨s, n, err⟩, w1, hloop, hret⟩ := answered_bind.mp ⟨_, hrun, ha⟩
    obtain ⟨heq, rfl⟩ := answered_ret.mp hret
    cases heq
    obtain ⟨hs', hepoch, hout⟩ := writeLoop_answered hs hloop
    refine ⟨hs', hepoch, hout.imp ?_ ?_⟩
    · rintro ⟨⟨hn, herr⟩, hflight⟩
      exact ⟨⟨by simpa using hn, herr⟩, hflight⟩
    · rintro ⟨rfl, hmax⟩
      exact ⟨rfl, hmax⟩
  | rekey hrun =>
    obtain ⟨hs', hepoch, hout⟩ := rekey_grows hs hrun ha
    refine ⟨hs', hepoch, hout.imp_right ?_⟩
    rintro ⟨rfl, hmax⟩
    exact ⟨rfl, hmax⟩

theorem rekeys_mono (h : Path (SendAnswer A) w evs w') : w.rekeys ≤ w'.rekeys := by
  refine Path.invariant (I := fun v => w.rekeys ≤ v.rekeys) ?_ h le_rfl
  intro v e v' hle hstep
  cases hstep with
  | write b => exact hle.trans (Nat.le_add_right ..)
  | now => exact hle
  | enc => exact hle

/-- **All calls at the writing end.**  With fewer than 256 rekeys each of them succeeds, and together they
extend the flight by what was written. -/
theorem out_run {calls : List (OutCall C)} (h : Path OutStep c calls c') (hs : Sending c.sess dir)
    (hepoch : c.sess.sendEpoch.toNat = w.rekeys) (ha : Path (SendAnswer A) w (calls.flatMap (·.evs)) w')
    (hfew : rekeyCount w' calls < 256) :
    (∀ call ∈ calls, call.act.Ok) ∧
      ∀ pos plain, Flight C A dir pos w.link (sendPos c.sess) plain →
        Flight C A dir pos w'.link (sendPos c'.sess) (plain ++ bytesWritten calls) := by
  induction h generalizing w with
  | nil =>
    obtain rfl := Path.nil_iff.mp ha
    refine ⟨by simp, fun pos plain hf => ?_⟩
    rwa [bytesWritten, List.flatMap_nil, List.append_nil]
  | @cons c c1 c' call calls hstep hrun ih =>
    rw [List.flatMap_cons] at ha
    obtain ⟨w1, hfirst, hrest⟩ := Path.append_iff.mp ha
    obtain ⟨hs1, hepoch1, hout⟩ := out_step hstep hs hfirst
    have hmono := rekeys_mono hrest
    rw [rekeyCount, List.countP_cons] at hfew
    rcases hout with ⟨hok, hflight1⟩ | ⟨hexhausted, hmax⟩
    · have hfew1 : rekeyCount w' calls < 256 := by
        rw [rekeyCount]
        omega
      obtain ⟨hoks, hflight⟩ := ih hs1 (by omega) hrest hfew1
      refine ⟨List.forall_mem_cons.mpr ⟨hok, hoks⟩, fun pos plain hf => ?_⟩
      rw [bytesWritten, List.flatMap_cons, ← List.append_assoc]
      exact hflight pos _ (hflight1 pos plain hf)
    · -- the 256th rekey: 255 frames are on the link already
      have hlast : c1.sess.sendEpoch.toNat = 255 := by rw [hmax]; rfl
      rw [if_pos hexhausted] at hfew
      omega

end Out

/-! ## The reader -/

section In

variable {c c' : PQConn} {link link' flying : Bytes} {pos' : Pos} {n : Nat} {r : Except Err Bytes}

theorem take_front (c : PQConn) (n : Nat) (flying : Bytes) :
    c.readBuf ++ flying = c.readBuf.take n ++ ((c.take n).1.readBuf ++ flying) := by
  show c.readBuf ++ flying = c.readBuf.take n ++ (c.readBuf.drop n ++ flying)
  rw [← List.append_assoc, List.take_append_drop]

theorem take_ne_nil {b : Bytes} (hn : 0 < n) (hb : 0 < b.length) : b.take n ≠ [] := by
  intro h
  have hlen := congrArg List.length h
  rw [List.length_take, List.length_nil] at hlen
  omega

/-- **One `Read`.**  Whenever it returns, it returns the next bytes of the stream. -/
theorem in_step (h : Answered (RecvAnswer A) (c.read n : P C _) link (c', r) link')
    (hr : Receiving c.sess dir) (hf : Flight C A dir (recvPos c.sess) link pos' flying) :
    ∃ b flying', r = .ok b ∧ b.length ≤ n ∧ (0 < n → b ≠ []) ∧ Receiving c'.sess dir ∧
      Flight C A dir (recvPos c'.sess) link' pos' flying' ∧
      c.readBuf ++ flying = b ++ (c'.readBuf ++ flying') := by
  unfold PQConn.read at h
  split at h
  · rename_i hzero
    obtain ⟨⟨⟩, rfl⟩ := answered_ret.mp h
    exact ⟨[], flying, rfl, Nat.zero_le _, fun hn => absurd hzero hn.ne', hr, hf, rfl⟩
  split at h
  · rename_i hn hempty
    obtain ⟨⟨s, r'⟩, link1, hrecv, hret⟩ := answered_bind.mp h
    obtain ⟨p, flying', rfl, hp, rfl, hr', hf'⟩ := flight_recv hf hr hrecv
    obtain ⟨⟨⟩, rfl⟩ := answered_ret.mp hret
    refine ⟨p.take n, flying', rfl, by simp, fun hn => take_ne_nil hn hp, hr', hf', ?_⟩
    rw [List.eq_nil_of_length_eq_zero hempty]
    exact take_front ⟨s, p⟩ n flying'
  · rename_i hn hbuf
    obtain ⟨⟨⟩, rfl⟩ := answered_ret.mp h
    refine ⟨c.readBuf.take n, flying, rfl, by simp, fun hn => ?_, hr, hf, take_front c n flying⟩
    exact take_ne_nil hn (Nat.pos_of_ne_zero hbuf)

/-- A `Read` does not wait while there are bytes to come. -/
theorem read_exists (hr : Receiving c.sess dir)
    (hf : Flight C A dir (recvPos c.sess) link pos' flying) (hne : c.readBuf ++ flying ≠ []) :
    ∃ x link', Answered (RecvAnswer A) (c.read n : P C _) link x link' := by
  unfold PQConn.read
  split
  · exact ⟨_, _, answered_ret.mpr ⟨rfl, rfl⟩⟩
  split
  · rename_i hempty
    rw [List.eq_nil_of_length_eq_zero hempty, List.nil_append] at hne
    obtain ⟨p, plain', s', link', ⟨tr, hrun, hans⟩, -⟩ := flight_recv_exists hf hr rfl hne
    exact ⟨_, _, answered_bind.mpr
      ⟨_, _, ⟨tr, recv_open hr.isOpen hrun, hans⟩, answered_ret.mpr ⟨rfl, rfl⟩⟩⟩
  · exact ⟨_, _, answered_ret.mpr ⟨rfl, rfl⟩⟩

/-- The bytes `Read` returned fit its buffer, and there are some if it has room. -/
def InCall.Ok (call : InCall C) : Prop := ∃ b, call.result = .ok b ∧ b.length ≤ call.size ∧ (0 < call.size → b ≠ [])

/-- **All `Read`s**: what they return, what is buffered and what is in flight is the stream. -/
theorem in_run {calls : List (InCall C)} (h : Path InStep c calls c') (hr : Receiving c.sess dir)
    (hf : Flight C A dir (recvPos c.sess) link pos' flying)
    (ha : Path (RecvAnswer A) link (calls.flatMap (·.evs)) link') :
    (∀ call ∈ calls, call.Ok) ∧ Receiving c'.sess dir ∧
      ∃ flying', Flight C A dir (recvPos c'.sess) link' pos' flying' ∧
        c.readBuf ++ flying = bytesRead calls ++ (c'.readBuf ++ flying') := by
  induction h generalizing link flying with
  | nil =>
    obtain rfl := Path.nil_iff.mp ha
    exact ⟨by simp, hr, flying, hf, rfl⟩
  | @cons c c1 c' call calls hstep hrun ih =>
    rw [List.flatMap_cons] at ha
    obtain ⟨link1, hfirst, hrest⟩ := Path.append_iff.mp ha
    obtain ⟨b, flying1, hb, hle, hne, hr1, hf1, hsplit1⟩ := in_step ⟨_, hstep, hfirst⟩ hr hf
    obtain ⟨hoks, hr', flying', hf', hsplit⟩ := ih hr1 hf1 hrest
    refine ⟨List.forall_mem_cons.mpr ⟨⟨b, hb, hle, hne⟩, hoks⟩, hr', flying', hf', ?_⟩
    have hbytes : call.bytes = b := by rw [InCall.bytes, hb]
    have hall : bytesRead (call :: calls) = b ++ bytesRead calls := by
      rw [bytesRead, List.flatMap_cons, hbytes, bytesRead]
    rw [hsplit1, hsplit, hall, List.append_assoc]

end In

/-! ## The stream -/

theorem Handshake.IsNew.sending {role : AuthRole} {s : Session} (h : IsNew C role keys s) :
    Sending s role ∧ s.sendEpoch = 0 := by
  obtain ⟨_, _, _, ⟨rfl, _, rfl⟩ | ⟨rfl, _, rfl⟩⟩ := h.cases
  · exact ⟨⟨rfl, rfl, by simp [Session.keyed], rfl, rfl⟩, rfl⟩
  · exact ⟨⟨rfl, rfl, by simp [Session.keyed], rfl, rfl⟩, rfl⟩

theorem new_lockstep {x : Side} {s r : Session} (hs : IsNew C x.role keys s) (hr : IsNew C x.peer.role keys r) :
    Receiving r x.role ∧ recvPos r = sendPos s := by
  cases x with
  | initiator =>
    obtain ⟨_, _, _, ⟨-, _, rfl⟩ | ⟨hx, -⟩⟩ := hs.cases
    · obtain ⟨_, _, _, ⟨hy, -⟩ | ⟨-, _, rfl⟩⟩ := hr.cases
      · exact absurd hy (by decide)
      · exact ⟨⟨rfl, rfl, nofun, rfl⟩, rfl⟩
    · exact absurd hx (by decide)
  | responder =>
    obtain ⟨_, _, _, ⟨hx, -⟩ | ⟨-, _, rfl⟩⟩ := hs.cases
    · exact absurd hx (by decide)
    · obtain ⟨_, _, _, ⟨-, _, rfl⟩ | ⟨hy, -⟩⟩ := hr.cases
      · exact ⟨⟨rfl, rfl, nofun, rfl⟩, rfl⟩
      · exact absurd hy (by decide)

/-- **A reliable byte stream.**  For every sequence of `Write` and `Rekey` calls at one end, every sequence
of `Read` calls at the other and every interleaving of the two on the link, with fewer than 256 rekeys:
every call succeeds; what was read, what is buffered and what is in flight is what was written, in order;
the receiver is in step with the sender once the link is empty; and a further `Read` returns bytes as long
as not all have been read. -/
theorem stream_reliable {x : Side} {keys : SessionKeys} {s r : Session} {snd rcv : PQConn}
    {calls : List (OutCall C)} {reads : List (InCall C)} {sched : List (Event C ⊕ Event C)} {w : Wire}
    (hs : IsNew C x.role keys s) (hr : IsNew C x.peer.role keys r)
    (hout : Path OutStep ⟨s, []⟩ calls snd) (hin : Path InStep ⟨r, []⟩ reads rcv)
    (hsched : Path (LinkStep A) ⟨[], 0⟩ sched w)
    (houts : sched.filterMap Sum.getLeft? = calls.flatMap (·.evs))
    (hins : sched.filterMap Sum.getRight? = reads.flatMap (·.evs))
    (hfew : rekeyCount w calls < 256) :
    (∀ call ∈ calls, call.act.Ok) ∧ (∀ call ∈ reads, call.Ok) ∧
      ∃ flying, Flight C A x.role (recvPos rcv.sess) w.link (sendPos snd.sess) flying ∧
        bytesRead reads ++ (rcv.readBuf ++ flying) = bytesWritten calls ∧
        (w.link = [] → flying = [] ∧ recvPos rcv.sess = sendPos snd.sess) ∧
        (bytesRead reads ≠ bytesWritten calls → ∀ n, 0 < n → ∃ b rcv' link', b ≠ [] ∧
          Answered (RecvAnswer A) (rcv.read n : P C _) w.link (rcv', .ok b) link') := by
  obtain ⟨w₁, hsend, htake⟩ := Path.sorted link_swap hsched
  rw [houts] at hsend
  rw [hins] at htake
  obtain ⟨hrecv, hcount⟩ := take_path htake
  obtain ⟨hsending, hzero⟩ := hs.sending
  obtain ⟨hreceiving, hlock⟩ := new_lockstep hs hr
  rw [rekeyCount, hcount] at hfew
  obtain ⟨hoks, hgrow⟩ := out_run hout hsending (by rw [hzero]; rfl) hsend hfew
  have hflight := hgrow (recvPos r) [] (hlock ▸ .empty _)
  obtain ⟨hreads, hr', flying, hf, hsplit⟩ := in_run hin hreceiving hflight hrecv
  have hbytes : bytesRead reads ++ (rcv.readBuf ++ flying) = bytesWritten calls := hsplit.symm
  refine ⟨hoks, hreads, flying, hf, hbytes, ?_, ?_⟩
  · intro hlink
    rw [hlink] at hf
    exact ⟨hf.of_empty.2, hf.of_empty.1⟩
  intro hmore n hn
  have hne : rcv.readBuf ++ flying ≠ [] := by
    intro hnil
    rw [hnil, List.append_nil] at hbytes
    exact hmore hbytes
  obtain ⟨⟨rcv', res⟩, link', hans⟩ := read_exists (n := n) hr' hf hne
  obtain ⟨b, -, rfl, -, hb, -⟩ := in_step hans hr' hf
  exact ⟨b, rcv', link', hb hn, hans⟩

/-! ### One byte across -/

def sampleAead : Aead where
  enc _ _ p _ := p ++ List.replicate aeadTagLen 7
  dec _ _ ct _ := some (ct.take (ct.length - aeadTagLen))
  dec_enc := by simp
  enc_length := by simp

def sampleWrite : OutCall samplePrims := ⟨.write [7] 1 none, (sampleSend 7 none).evs⟩

def sampleRead : InCall samplePrims := ⟨4, .ok [7], sampleRecv.evs⟩

theorem sampleWrite_step : OutStep ⟨sampleSession, []⟩ sampleWrite ⟨sampleSession.advance [7], []⟩ := by
  refine .write (runs_bind.mpr ⟨(sampleSend 7 none).evs, [], (sampleSession.advance [7], 1, none), ?_, ?_, .here _⟩)
  · simp
  rw [writeLoop, dif_pos (by decide)]
  refine runs_bind.mpr ⟨(sampleSend 7 none).evs, [], _, by simp, sampleSend_run 7 none, ?_⟩
  change Runs (writeLoop _ [] _ : P samplePrims _) [] _
  rw [writeLoop, dif_neg (by decide)]
  exact .here _

theorem sampleRead_step : InStep ⟨sampleResponder, []⟩ sampleRead ⟨sampleResponder.accept 0, []⟩ := by
  unfold InStep PQConn.read
  rw [if_neg (by decide), if_pos (by rfl)]
  exact runs_bind.mpr ⟨sampleRecv.evs, [], _, by simp [sampleRead], sampleRecv_run, .here _⟩

def sampleWire : Wire := ⟨envelope frameData sampleFrame.encode, 0⟩

theorem sampleWrite_answered : Path (SendAnswer sampleAead) ⟨[], 0⟩ (sampleSend 7 none).evs sampleWire := by
  refine .cons (.now _ 0) (.cons ?_ (.cons (.write ⟨[], 0⟩ (envelope frameData sampleFrame.encode)) (.nil _)))
  exact .enc ..

theorem sampleRead_answered : Path (RecvAnswer sampleAead) sampleWire.link sampleRecv.evs [] := by
  have hreads : Path (RecvAnswer sampleAead) sampleWire.link
      (frameReads frameData sampleFrame.encode : List (Event samplePrims)) [] := by
    have h : Path (RecvAnswer sampleAead) (envelope frameData sampleFrame.encode ++ [])
        (frameReads frameData sampleFrame.encode : List (Event samplePrims)) [] :=
      frameReads_answered (by decide) []
    rwa [List.append_nil] at h
  exact Path.append_iff.mpr ⟨_, hreads, .cons (.dec ..) (.nil _)⟩

theorem stream_reliable_oneByte :
    rekeyCount ⟨[], 0⟩ [sampleWrite] < 256 ∧ bytesRead [sampleRead] = [7] ∧
      sampleWrite.act.Ok ∧ sampleRead.Ok := by
  have hsched : Path (LinkStep sampleAead) ⟨[], 0⟩
      ((sampleSend 7 none).evs.map Sum.inl ++ sampleRecv.evs.map Sum.inr) ⟨[], 0⟩ :=
    Path.both_append sampleWrite_answered (path_take sampleRead_answered 0)
  obtain ⟨hout, hin, -⟩ := stream_reliable (x := .initiator) sampleSession_new sampleResponder_new
    (.cons sampleWrite_step (.nil _)) (.cons sampleRead_step (.nil _)) hsched
    (by simp [List.filterMap_map, Function.comp_def, sampleWrite])
    (by simp [List.filterMap_map, Function.comp_def, sampleRead]) (by decide)
  exact ⟨by decide, by decide, hout _ (by simp), hin _ (by simp)⟩

end Zap
