/-
# Zap.Handshake.FrameRuns — events, and the runs of the frame layer.

The building blocks both state machines and the session are written in: one frame written, one frame read,
one digest, a refusal with its alert. The `…_runs` theorems list what a block can do; the `…_yields`
theorems say on which events exactly it succeeds. A read frame determines the reads (`frameReads`), so a
successful run is known event by event.
-/
import Zap.Handshake.Codecs

namespace Zap.Handshake

open Zap.Lib Zap.Lib.Prog Zap.Lib.Proc

variable {C : Prims}

/-! ## Events -/

abbrev Event (C : Prims) := Ev (pkg C)

def wrote (t : FrameType) (body : Bytes) (w : Option String) : Event C := ⟨.write (envelope t body), w⟩

def clock (t : Int) : Event C := ⟨.now, t⟩

def hashEv (x : Bytes) : Event C := ⟨.hash x, ()⟩

def readBytes : Event C → Bytes
  | ⟨.readFull _, .ok a⟩ => a.bytes
  | _ => []

def IsRead (e : Event C) : Prop := ∃ n x, e = ⟨.readFull n, x⟩

@[simp]
theorem isRead_readFull (n : Nat) (x : Except String (Arr n)) : IsRead (⟨.readFull n, x⟩ : Event C) := ⟨n, x, rfl⟩

/-! ## Frames on the transport -/

def writeResult : Option String → Except Err Unit
  | none => .ok ()
  | some e => .error (.other e)

variable {t : FrameType} {body : Bytes} {tr : List (Event C)}

theorem writeFrame_runs {r : Except Err Unit}
    (h : Runs (writeFrame t body : M C Unit).run tr r) :
    (maxFrameBody < body.length ∧ tr = [] ∧ ∃ e, r = .error e) ∨
    (body.length ≤ maxFrameBody ∧ ∃ w, tr = [wrote t body w] ∧ r = writeResult w) := by
  unfold writeFrame at h
  split at h
  · rename_i hlong
    obtain ⟨rfl, rfl⟩ := runs_ret.mp h
    exact .inl ⟨hlong, rfl, _, rfl⟩
  rename_i hfit
  obtain ⟨w, tr', rfl, hrest⟩ := runs_ask.mp h
  refine .inr ⟨Nat.le_of_not_lt hfit, w, ?_⟩
  cases w with
  | none | some e =>
    obtain ⟨rfl, rfl⟩ := runs_ret.mp hrest
    exact ⟨rfl, rfl⟩

theorem readFull_runs {n : Nat} {r : Except Err (Arr n)}
    (h : Runs (readFull n : M C (Arr n)).run tr r) :
    ∃ x : Except String (Arr n), tr = [⟨.readFull n, x⟩] ∧ r = x.mapError .other := by
  obtain ⟨x, tr', rfl, hrest⟩ := runs_ask.mp h
  refine ⟨x, ?_⟩
  cases x with
  | ok a | error e =>
    obtain ⟨rfl, rfl⟩ := runs_ret.mp hrest
    exact ⟨rfl, rfl⟩

theorem header_eq (hdr : Arr 5) (body : Bytes) (hlen : body.length = ofBE (hdr.bytes.drop 1)) :
    envelope ⟨hdr.bytes.getD 0 0⟩ body = hdr.bytes ++ body := by
  obtain ⟨bytes, hbytes⟩ := hdr
  cases bytes with
  | nil => simp at hbytes
  | cons b rest =>
    have hrest : rest.length = 4 := by simpa using hbytes
    have hbe := be_ofBE rest
    rw [hrest] at hbe
    simp only [List.drop_succ_cons, List.drop_zero] at hlen
    simp [envelope, hlen, hbe]

theorem readFrame_runs {r : Except Err (FrameType × Bytes)}
    (h : Runs (readFrame : M C _).run tr r) :
    (∀ ev ∈ tr, IsRead ev) ∧
      ∀ t body, r = .ok (t, body) →
        tr.flatMap readBytes = envelope t body ∧ body.length ≤ maxFrameBody := by
  obtain ⟨tr1, tr2, hdr, rfl, hhdr, hrest⟩ := runs_bind.mp h
  obtain ⟨x, rfl, rfl⟩ := readFull_runs hhdr
  cases x with
  | error e =>
    obtain ⟨rfl, rfl⟩ := runs_ret.mp hrest
    exact ⟨by simp, by rintro t body ⟨⟩⟩
  | ok a =>
    change Runs (ite _ _ _ : M C _).run _ _ at hrest
    split at hrest
    · obtain ⟨rfl, rfl⟩ := runs_ret.mp hrest
      exact ⟨by simp, by rintro t body ⟨⟩⟩
    rename_i hcap
    split at hrest
    · obtain ⟨tr3, tr4, body, rfl, hbody, hret⟩ := runs_bind.mp hrest
      obtain ⟨y, rfl, rfl⟩ := readFull_runs hbody
      cases y with
      | error e =>
        obtain ⟨rfl, rfl⟩ := runs_ret.mp hret
        exact ⟨by simp, by rintro t body ⟨⟩⟩
      | ok b =>
        obtain ⟨rfl, rfl⟩ := runs_ret.mp hret
        refine ⟨by simp, ?_⟩
        rintro t body ⟨⟩
        rw [header_eq a b.bytes b.len]
        exact ⟨by simp [readBytes], b.len.trans_le (Nat.le_of_not_lt hcap)⟩
    · rename_i hzero
      obtain ⟨rfl, rfl⟩ := runs_ret.mp hrest
      refine ⟨by simp, ?_⟩
      rintro t body ⟨⟩
      have hnone : ([] : Bytes).length = ofBE (a.bytes.drop 1) := by
        simp only [List.length_nil]
        omega
      rw [header_eq a [] hnone]
      exact ⟨by simp [readBytes], Nat.zero_le _⟩

def header (t : FrameType) (length : Nat) : Arr 5 := ⟨t.byte :: be 4 length, by simp⟩

def gotBytes {n : Nat} (a : Arr n) : Event C := ⟨.readFull n, .ok a⟩

/-- The reads of one frame; an empty body is not read. -/
def frameReads (t : FrameType) (body : Bytes) : List (Event C) :=
  match body with
  | [] => [gotBytes (header t 0)]
  | b :: rest => [gotBytes (header t (rest.length + 1)),
      gotBytes (.copy (ofBE (be 4 (rest.length + 1))) (b :: rest))]

theorem frameReads_read {ev : Event C} (h : ev ∈ frameReads t body) : IsRead ev := by
  cases body with
  | nil =>
    rw [List.mem_singleton.mp h]
    exact ⟨_, _, rfl⟩
  | cons b rest =>
    rcases h with _ | ⟨_, _ | ⟨_, ⟨⟩⟩⟩ <;> exact ⟨_, _, rfl⟩

theorem readFull_run {n : Nat} (a : Arr n) : Runs (readFull n : M C (Arr n)).run [gotBytes a] (.ok a) :=
  .step (.here _)

theorem ofBE_length (body : Bytes) (h : body.length ≤ maxFrameBody) : ofBE (be 4 body.length) = body.length :=
  ofBE_be_of_lt (Nat.lt_of_le_of_lt h (by decide))

theorem readFrame_run (h : body.length ≤ maxFrameBody) :
    Runs (readFrame : M C _).run (frameReads t body) (.ok (t, body)) := by
  cases body with
  | nil => exact runs_bind.mpr ⟨[_], _, _, rfl, readFull_run (header t 0), .here _⟩
  | cons b rest =>
    have hlen : ofBE (be 4 (rest.length + 1)) = (b :: rest).length := ofBE_length (b :: rest) h
    have hcopy : (Arr.copy (ofBE (be 4 (rest.length + 1))) (b :: rest)).bytes = b :: rest := Arr.copy_bytes hlen.symm
    refine runs_bind.mpr ⟨[_], _, _, rfl, readFull_run (header t (rest.length + 1)), ?_⟩
    change Runs (ite (ofBE (be 4 (rest.length + 1)) > maxFrameBody) _ _ : M C _).run _ _
    rw [if_neg (by rw [hlen]; exact Nat.not_lt.mpr h)]
    change Runs (ite (ofBE (be 4 (rest.length + 1)) > 0) _ _ : M C _).run _ _
    rw [if_pos (by rw [hlen]; simp)]
    refine runs_bind.mpr ⟨[_], [], _, rfl, readFull_run _, ?_⟩
    exact runs_ret.mpr ⟨rfl, by rw [hcopy]; rfl⟩

theorem writeFrame_run (h : body.length ≤ maxFrameBody)
    (w : Option String) :
    Runs (writeFrame t body : M C Unit).run [wrote t body w] (writeResult w) := by
  unfold writeFrame
  rw [if_neg (Nat.not_lt.mpr h)]
  cases w <;> exact .step (.here _)

/-! ## When a block succeeds -/

section Yields

variable {α : Type} {tr : List (Event C)}

theorem call_yields {r : Req C} {x : r.Resp} : Yields (call r) tr x ↔ tr = [⟨r, x⟩] := yields_request

-- `call_yields` at the requests of the handshake, with the type of the answer written out for `simp`

theorem rand_yields {n : Nat} {x : Except String (Arr n)} :
    Yields (α := Except String (Arr n)) (call (C := C) (.rand n)) tr x ↔ tr = [⟨.rand n, x⟩] := call_yields

theorem genX25519_yields {x : Except String C.XSec} :
    Yields (α := Except String C.XSec) (call .genX25519) tr x ↔ tr = [⟨.genX25519, x⟩] := call_yields

theorem genMLKEM_yields {x : Except String C.KemSec} :
    Yields (α := Except String C.KemSec) (call .genMLKEM) tr x ↔ tr = [⟨.genMLKEM, x⟩] := call_yields

theorem encapsulate_yields {pk : C.KemPub} {x : Except String C.Coins} :
    Yields (α := Except String C.Coins) (call (.encapsulate pk)) tr x ↔ tr = [⟨.encapsulate pk, x⟩] :=
  call_yields

theorem now_yields {t : Int} : Yields (α := Int) (call (C := C) .now) tr t ↔ tr = [clock t] := call_yields

variable {a : α}

theorem liftExcept_yields {f : String → Err} {r : Except String α} :
    Yields (liftExcept f r : M C α) tr a ↔ tr = [] ∧ r = .ok a := by
  cases r with
  | ok b => simpa [liftExcept] using yields_pure
  | error e => simpa [liftExcept] using yields_throw

theorem sum256_yields {x : Bytes} {h : Arr transcriptLen} :
    Yields (sum256 x : M C _) tr h ↔ tr = [hashEv x] ∧ h = C.sha3 x := by
  unfold sum256
  have hcall : ∀ {tr u}, Yields (call (.hash x) : M C Unit) tr u ↔ tr = [hashEv x] := call_yields
  simp only [yields_bind, hcall, yields_pure, existsAndEq, exists_const, true_and, List.append_nil]
  exact and_congr_right fun _ => eq_comm

theorem orFail_yields {p : M C (Except String α)} : Yields (orFail p) tr a ↔ Yields p tr (.ok a) := by
  unfold orFail
  rw [yields_bind]
  constructor
  · rintro ⟨tr1, tr2, r, rfl, hp, hret⟩
    obtain ⟨rfl, rfl⟩ := liftExcept_yields.mp hret
    rwa [List.append_nil]
  · intro h
    exact ⟨tr, [], .ok a, by simp, h, liftExcept_yields.mpr ⟨rfl, rfl⟩⟩

theorem orReturn_yields {r : Except Err α} : Yields (orReturn r : M C α) tr a ↔ tr = [] ∧ r = .ok a := by
  cases r with
  | ok b => simpa [orReturn] using yields_pure
  | error e => simpa [orReturn] using yields_throw

theorem mapError_ok {ε ε' : Type} {f : ε → ε'} {r : Except ε α} : r.mapError f = .ok a ↔ r = .ok a := by
  cases r <;> simp [Except.mapError]

theorem digest_yields {x : Bytes} {f : Arr transcriptLen → α} :
    Yields (sum256 x >>= fun h => pure (f h) : M C α) tr a ↔ tr = [hashEv x] ∧ a = f (C.sha3 x) := by
  simp only [yields_bind, sum256_yields, yields_pure, existsAndEq, true_and, and_true, List.append_nil]
  exact and_congr_right fun _ => eq_comm

theorem writeAlertFor_yields {e : Err} : ¬Yields (writeAlertFor e : M C α) tr a := by
  intro h
  obtain ⟨tr1, tr2, r, rfl, -, hthrow⟩ := yields_bind.mp h
  exact yields_throw hthrow

theorem orAlert_yields {r : Except Err α} : Yields (orAlert r : M C α) tr a ↔ tr = [] ∧ r = .ok a := by
  cases r with
  | ok b => simpa [orAlert] using yields_pure
  | error e => simpa [orAlert] using writeAlertFor_yields

theorem refuseIf_yields {cond : Prop} [Decidable cond] {e : Err} {u : Unit} :
    Yields (refuseIf cond e : M C Unit) tr u ↔ tr = [] ∧ ¬cond := by
  unfold refuseIf
  split
  · rename_i h
    simpa [h] using writeAlertFor_yields
  · rename_i h
    rw [yields_pure]
    simp [h]

theorem orAlertWith_yields {f : Err → Err} {p : M C α} : Yields (orAlertWith f p) tr a ↔ Yields p tr a := by
  unfold orAlertWith
  rw [yields_bind]
  constructor
  · rintro ⟨tr1, tr2, r, rfl, hp, hret⟩
    obtain ⟨rfl, hr⟩ := orAlert_yields.mp hret
    cases r with
    | error e => cases hr
    | ok b =>
      cases hr
      rw [List.append_nil]
      exact yields_lift.mp hp
  · intro h
    exact ⟨tr, [], .ok a, by simp, yields_lift.mpr h, orAlert_yields.mpr ⟨rfl, rfl⟩⟩

variable {body : Bytes}

theorem writeFrame_yields {t : FrameType} {u : Unit} :
    Yields (writeFrame t body : M C Unit) tr u ↔
      body.length ≤ maxFrameBody ∧ tr = [wrote t body none] := by
  constructor
  · intro h
    rcases writeFrame_runs h with ⟨-, -, e, hr⟩ | ⟨hfit, w, rfl, hr⟩
    · cases hr
    · cases w with
      | none => exact ⟨hfit, rfl⟩
      | some e => cases hr
  · rintro ⟨hfit, rfl⟩
    exact writeFrame_run hfit none

theorem frameReads_bytes {t : FrameType} (h : body.length ≤ maxFrameBody) :
    (frameReads t body : List (Event C)).flatMap readBytes = envelope t body :=
  ((readFrame_runs (readFrame_run h)).2 t body rfl).1

theorem readFull_yields {n : Nat} {a : Arr n} : Yields (readFull n : M C (Arr n)) tr a ↔ tr = [gotBytes a] := by
  constructor
  · intro h
    obtain ⟨x, rfl, hx⟩ := readFull_runs h
    cases x with
    | error e => cases hx
    | ok b =>
      cases hx
      rfl
  · rintro rfl
    exact readFull_run a

theorem gotBytes_congr {n m : Nat} {a : Arr n} {b : Arr m} (h : a.bytes = b.bytes) :
    (gotBytes a : Event C) = gotBytes b := by
  obtain ⟨bytes, rfl⟩ := a
  obtain ⟨bytes', rfl⟩ := b
  cases h
  rfl

theorem frameReads_eq {hdr : Arr 5} (hlen : body.length = ofBE (hdr.bytes.drop 1))
    {m : Nat} {b : Arr m} (hb : b.bytes = body) (hfit : body.length ≤ maxFrameBody) :
    (frameReads ⟨hdr.bytes.getD 0 0⟩ body : List (Event C)) =
      if body.length > 0 then [gotBytes hdr, gotBytes b] else [gotBytes hdr] := by
  have hhdr : hdr.bytes = (header ⟨hdr.bytes.getD 0 0⟩ body.length).bytes := by
    have h := header_eq hdr body hlen
    rw [envelope] at h
    exact (append_split (by simp [hdr.len]) h).1.symm
  cases body with
  | nil =>
    rw [if_neg (by simp)]
    exact congrArg (fun e => [e]) (gotBytes_congr hhdr).symm
  | cons c rest =>
    rw [if_pos (by simp)]
    have hcopy := Arr.copy_bytes (ofBE_length (c :: rest) hfit).symm
    rw [gotBytes_congr hhdr, gotBytes_congr (hb.trans hcopy.symm)]
    rfl

/-- **A frame is read on exactly the reads of its bytes.** -/
theorem readFrame_yields {t : FrameType} :
    Yields (readFrame : M C _) tr (t, body) ↔
      body.length ≤ maxFrameBody ∧ tr = frameReads t body := by
  constructor
  · intro h
    obtain ⟨tr1, tr2, hdr, rfl, hhdr, hrest⟩ := yields_bind.mp h
    obtain rfl := readFull_yields.mp hhdr
    change Yields (ite _ _ _ : M C _) _ _ at hrest
    split at hrest
    · exact absurd hrest yields_throw
    rename_i hcap
    split at hrest
    · rename_i hpos
      obtain ⟨tr3, tr4, b, rfl, hb, hret⟩ := yields_bind.mp hrest
      obtain rfl := readFull_yields.mp hb
      obtain ⟨rfl, hsame⟩ := yields_pure.mp hret
      cases hsame
      have hfit : b.bytes.length ≤ maxFrameBody := b.len.trans_le (Nat.le_of_not_lt hcap)
      refine ⟨hfit, ?_⟩
      rw [frameReads_eq b.len (b := b) rfl hfit, if_pos (by rw [b.len]; exact hpos)]
      rfl
    · rename_i hzero
      obtain ⟨rfl, hsame⟩ := yields_pure.mp hrest
      cases hsame
      have hnone : ([] : Bytes).length = ofBE (hdr.bytes.drop 1) := by
        rw [List.length_nil]
        omega
      refine ⟨Nat.zero_le _, ?_⟩
      rw [frameReads_eq hnone (b := Arr.mk [] rfl) rfl (Nat.zero_le _), if_neg (by simp)]
      rfl
  · rintro ⟨hfit, rfl⟩
    exact readFrame_run hfit

theorem expectFrame_yields {want : FrameType} (hwant : want ≠ frameAlert) :
    Yields (expectFrame want : M C _) tr body ↔ body.length ≤ maxFrameBody ∧ tr = frameReads want body := by
  unfold expectFrame
  rw [yields_bind]
  constructor
  · rintro ⟨tr1, tr2, ⟨t, b⟩, rfl, hframe, hrest⟩
    obtain ⟨hfit, rfl⟩ := readFrame_yields.mp hframe
    change Yields (ite _ _ _ : M C _) _ _ at hrest
    split at hrest
    · exact absurd hrest yields_throw
    split at hrest
    · exact absurd hrest yields_throw
    · rename_i hsame
      obtain ⟨rfl, rfl⟩ := yields_pure.mp hrest
      rw [not_not.mp hsame, List.append_nil]
      exact ⟨hfit, rfl⟩
  · rintro ⟨hfit, rfl⟩
    refine ⟨_, [], (want, body), by simp, readFrame_yields.mpr ⟨hfit, rfl⟩, ?_⟩
    change Yields (ite _ _ _ : M C _) _ _
    rw [if_neg hwant, if_neg (by simp)]
    exact yields_pure.mpr ⟨rfl, rfl⟩

end Yields

/-! ## Requests a block does not make -/

/-- A set of requests without transport, clock, entropy and digests: what is left is signatures and
stores. -/
structure Special (bad : Req C → Prop) : Prop where
  read : ∀ n, ¬bad (.readFull n)
  write : ∀ b, ¬bad (.write b)
  rand : ∀ n, ¬bad (.rand n)
  genX25519 : ¬bad .genX25519
  genMLKEM : ¬bad .genMLKEM
  encapsulate : ∀ pk, ¬bad (.encapsulate pk)
  hash : ∀ x, ¬bad (.hash x)
  now : ¬bad .now

theorem special_empty : Special fun _ : Req C => False := by
  constructor <;> simp

theorem special_sign (sk : C.SigSec) (msg ctx : Bytes) : Special fun r => r = .sign sk msg ctx := by
  constructor <;> simp

theorem special_verify (pk : C.SigPub) (msg sig ctx : Bytes) : Special fun r => r = .verify pk msg sig ctx := by
  constructor <;> simp

section Avoids

variable {α : Type} {bad : Req C → Prop}

theorem call_avoids {r : Req C} (h : ¬bad r) : Avoids bad (call r) := avoids_request h

theorem liftExcept_avoids {f : String → Err} (r : Except String α) : Avoids bad (liftExcept f r : M C α) := by
  cases r <;> trivial

theorem orFail_avoids {p : M C (Except String α)} (h : Avoids bad p) : Avoids bad (orFail p) :=
  h.bind liftExcept_avoids

theorem orReturn_avoids (r : Except Err α) : Avoids bad (orReturn r : M C α) := by
  cases r <;> trivial

theorem readFull_avoids (hb : ∀ n, ¬bad (.readFull n)) (n : Nat) : Avoids bad (readFull n : M C (Arr n)) :=
  orFail_avoids (call_avoids (hb n))

theorem readFrame_avoids (hb : ∀ n, ¬bad (.readFull n)) : Avoids bad (readFrame : M C _) := by
  refine (readFull_avoids hb 5).bind fun hdr => ?_
  dsimp only
  split
  · exact avoids_throw
  · split
    · exact (readFull_avoids hb _).bind fun _ => avoids_pure
    · exact avoids_pure

variable (hb : Special bad)

include hb

theorem sum256_avoids (x : Bytes) : Avoids bad (sum256 x : M C _) :=
  (call_avoids (hb.hash x)).bind fun _ => avoids_pure

theorem writeFrame_avoids (t : FrameType) (body : Bytes) :
    Avoids bad (writeFrame t body : M C Unit) := by
  unfold writeFrame
  split
  · exact avoids_throw
  · refine (call_avoids (hb.write _)).bind ?_
    rintro (_ | e)
    · exact avoids_pure
    · exact avoids_throw

theorem writeAlertFor_avoids (e : Err) : Avoids bad (writeAlertFor e : M C α) :=
  (avoids_lift (writeFrame_avoids hb _ _)).bind fun _ => avoids_throw

theorem orAlert_avoids (r : Except Err α) : Avoids bad (orAlert r : M C α) := by
  cases r with
  | ok a => exact avoids_pure
  | error e => exact writeAlertFor_avoids hb e

theorem refuseIf_avoids (cond : Prop) [Decidable cond] (e : Err) :
    Avoids bad (refuseIf cond e : M C Unit) := by
  unfold refuseIf
  split
  · exact writeAlertFor_avoids hb e
  · exact avoids_pure

theorem orAlertWith_avoids {f : Err → Err} {p : M C α} (h : Avoids bad p) :
    Avoids bad (orAlertWith f p) :=
  (avoids_lift h).bind fun _ => orAlert_avoids hb _

theorem expectFrame_avoids (want : FrameType) :
    Avoids bad (expectFrame want : M C Bytes) := by
  refine (readFrame_avoids hb.read).bind fun f => ?_
  dsimp only
  split
  · exact avoids_throw
  · split
    · exact avoids_throw
    · exact avoids_pure

end Avoids

/-! ## The bytes of a trace -/

def sentBytes : Event C → Bytes
  | ⟨.write b, none⟩ => b
  | _ => []

def inBytes (evs : List (Event C)) : Bytes := evs.flatMap readBytes

def outBytes (evs : List (Event C)) : Bytes := evs.flatMap sentBytes

section Traffic

variable {a b : List (Event C)}

@[simp]
theorem inBytes_append : inBytes (a ++ b) = inBytes a ++ inBytes b := List.flatMap_append

@[simp]
theorem outBytes_append : outBytes (a ++ b) = outBytes a ++ outBytes b := List.flatMap_append

@[simp]
theorem inBytes_cons {e : Event C} : inBytes (e :: a) = readBytes e ++ inBytes a := rfl

@[simp]
theorem outBytes_cons {e : Event C} : outBytes (e :: a) = sentBytes e ++ outBytes a := rfl

@[simp]
theorem inBytes_nil : inBytes ([] : List (Event C)) = [] := by simp [inBytes]

@[simp]
theorem outBytes_nil : outBytes ([] : List (Event C)) = [] := by simp [outBytes]

theorem inBytes_frameReads {t : FrameType} {body : Bytes} (h : body.length ≤ maxFrameBody) :
    inBytes (frameReads t body : List (Event C)) = envelope t body :=
  frameReads_bytes h

@[simp]
theorem inBytes_hashes (xs : List Bytes) : inBytes (xs.map (hashEv (C := C))) = [] := by
  induction xs with
  | nil => rfl
  | cons x xs ih => exact ih

@[simp]
theorem outBytes_hashes (xs : List Bytes) : outBytes (xs.map (hashEv (C := C))) = [] := by
  induction xs with
  | nil => rfl
  | cons x xs ih => exact ih

theorem outBytes_frameReads (t : FrameType) (body : Bytes) :
    outBytes (frameReads t body : List (Event C)) = [] := by
  cases body <;> rfl

end Traffic

end Zap.Handshake
