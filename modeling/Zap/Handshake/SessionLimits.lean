/-
# Zap.Handshake.SessionLimits — how much is sealed under one key (`handshake/session.go`).

`Send` rekeys before a payload that would reach the frame, the byte or the time threshold, and a failed rekey
fails the `Send`. The counters move when a DATA frame has been written, so with writes that succeed they are
exactly what was sealed in the epoch (`Metered`), and the limits follow.

There is one gap. The size check is made on lengths that wrap at `2 ^ 32`. A payload of four gigabytes can pass
it, is sealed, and is refused only when the ciphertext turns out longer than it should be; neither counter has
moved by then. The limits hold exactly for payloads that do not wrap (`limits_iff`).
-/
import Zap.Handshake.SessionChannel

namespace Zap.Handshake

open Zap.Lib Zap.Lib.Prog

variable {C : Prims}

/-! ## What is measured -/

/-- The payload of a call of `Seal` in epoch `e`; the epoch is the last byte of the associated data. -/
def sealOf (e : UInt8) : Event C → Option Bytes
  | ⟨.aeadSeal _ _ p aad, _⟩ => if aad.getLast? = some e then some p else none
  | _ => none

def sealedIn (e : UInt8) (evs : List (Event C)) : List Bytes := evs.filterMap (sealOf e)

def bytesIn (e : UInt8) (evs : List (Event C)) : Nat := ((sealedIn e evs).map List.length).sum

def rekeyed : Event C := wrote frameRekey Session.rekeyBody none

/-- The clock reading at which the send epoch began that the events end in. -/
inductive Began (start : Int) : List (Event C) → Int → Prop
  | first {evs : List (Event C)} (hnone : rekeyed ∉ evs) : Began start evs start
  | later {pre post : List (Event C)} {b : Int} (hnone : rekeyed ∉ post) :
      Began start (pre ++ rekeyed :: clock b :: post) b

def LastReading (evs : List (Event C)) (t : Int) : Prop :=
  ∃ pre post, evs = pre ++ clock t :: post ∧ ∀ ev ∈ post, reading ev = none

def Call.SendSide (c : Call C) : Prop :=
  match c.act with
  | .send _ _ | .rekey _ => True
  | .recv _ | .close => False

/-- **The limits of a key.**  In every epoch fewer than `2 ^ 31` payloads and `100 * 2 ^ 30` bytes are sealed, each
at a reading of its `Send` less than an hour after the epoch began; and in the last epoch a `Send` that would have
to rekey fails without sealing. -/
structure Limits (s₀ : Session) (calls : List (Call C)) : Prop where
  frames : ∀ e, (sealedIn e (events calls)).length < 2 ^ 31
  bytes : ∀ e, bytesIn e (events calls) < 100 * 2 ^ 30
  time : ∀ pre p r tr t, Path.Occurs SessionStep s₀ calls pre ⟨.send p r, tr⟩ t →
    ∀ tr₁ ev tr₂, tr = tr₁ ++ ev :: tr₂ → IsSeal ev = true →
      ∃ b now, Began s₀.sendBase (events pre ++ tr₁) b ∧ LastReading tr₁ now ∧ now - b < 3600 * second
  exhausted : ∀ pre p r tr t, Path.Occurs SessionStep s₀ calls pre ⟨.send p r, tr⟩ t → t.sendEpoch = 0xFF →
    t.rekeyDue (UInt64.ofNat p.length) (firstReading tr) = true →
      r = .error (.sentinel .epochExhausted) ∧ seals tr = []

def Written (evs : List (Event C)) : Prop := ∀ b (w : Option String), (⟨.write b, w⟩ : Event C) ∈ evs → w = none

/-- The most that AES-GCM seals; above it `Seal` panics. -/
def gcmMaxPlaintext : Nat := (2 ^ 32 - 2) * 16

/-- `Seal` returns the ciphertext and its tag. -/
def SealsBySize (evs : List (Event C)) : Prop :=
  ∀ a n p aad (ct : Bytes), (⟨.aeadSeal a n p aad, ct⟩ : Event C) ∈ evs →
    ct.length = p.length + aeadTagLen ∧ p.length ≤ gcmMaxPlaintext

/-- A payload that can be sealed and passes the size check only because its length wraps. -/
def Wraps (p : Bytes) : Prop :=
  p.length ≤ gcmMaxPlaintext ∧ Session.outerLen p ≤ maxFrameBody ∧
    Session.outerLen p ≠ nonceCtrLen + 4 + (p.length + aeadTagLen)

section Events

variable {e : UInt8} {evs tr : List (Event C)} {s : Session} {p ct : Bytes} {start b : Int}

theorem sealOf_sealEv : sealOf e (sealEv s p ct : Event C) = if s.sendEpoch = e then some p else none := by
  have hlast : (buildAAD frameData (Session.outerLen p) s.sendDir s.sendEpoch).bytes.getLast? = some s.sendEpoch := by
    exact List.getLast?_eq_some_iff.mpr
      ⟨frameData.byte :: be 4 (Session.outerLen p) ++ [s.sendDir.byte], by simp [buildAAD]⟩
  simp [sealOf, sealEv, hlast]

theorem sealOf_of_not_seal {ev : Event C} (h : IsSeal ev = false) : sealOf e ev = none := by
  obtain ⟨req, x⟩ := ev
  cases req <;> first | rfl | cases h

theorem sealedIn_append : sealedIn e (evs ++ tr) = sealedIn e evs ++ sealedIn e tr := List.filterMap_append

theorem sealedIn_of_no_seal (h : ∀ ev ∈ tr, IsSeal ev = false) : sealedIn e tr = [] :=
  List.filterMap_eq_nil_iff.mpr fun ev hev => sealOf_of_not_seal (h ev hev)

theorem sealedIn_quiet (evs : List (Event C)) (h : ∀ ev ∈ tr, IsSeal ev = false) (e : UInt8) :
    sealedIn e (evs ++ tr) = sealedIn e evs := by
  rw [sealedIn_append, sealedIn_of_no_seal h, List.append_nil]

theorem sealedIn_seal (h : ∀ ev ∈ tr, IsSeal ev = false) :
    sealedIn e (evs ++ (sealEv s p ct : Event C) :: tr) =
      if s.sendEpoch = e then sealedIn e evs ++ [p] else sealedIn e evs := by
  have htail : tr.filterMap (sealOf e) = [] := sealedIn_of_no_seal h
  rw [sealedIn_append]
  simp only [sealedIn, List.filterMap_cons, sealOf_sealEv, htail]
  split_ifs <;> simp

theorem rekeyed_not_quiet : ¬IsQuiet (rekeyed : Event C) := fun h => by
  have hmoves := h frameRekey.byte rfl
  exact absurd hmoves (by decide)

theorem rekeyed_ne_seal : (sealEv s p ct : Event C) ≠ rekeyed := nofun

theorem rekeyed_ne_data (body : Bytes) (w : Option String) : (wrote frameData body w : Event C) ≠ rekeyed := by
  intro h
  have hbytes : envelope frameData body = envelope frameRekey Session.rekeyBody := Req.write.inj (congrArg Ev.req h)
  cases (List.cons.inj hbytes).1

theorem Began.quiet (h : Began start evs b) (htr : rekeyed ∉ tr) : Began start (evs ++ tr) b := by
  cases h with
  | first hnone => exact .first fun hmem => (List.mem_append.mp hmem).elim hnone htr
  | later hnone =>
    rw [List.append_assoc, List.cons_append, List.cons_append]
    exact .later fun hmem => (List.mem_append.mp hmem).elim hnone htr

end Events

/-! ## The counters are what was sealed -/

/-- The send half of a session keeps the account of its epoch. -/
structure Metered (start : Int) (evs : List (Event C)) (s : Session) : Prop where
  isOpen : s.closed = false
  frameCap : s.sendFrameCap = rekeyFrameCap
  bytesCap : s.sendBytesCap = rekeyBytesCap
  timeCap : s.sendTimeCap = rekeyTimeSec * second
  count : (sealedIn s.sendEpoch evs).length = s.sendCounter.toNat
  total : bytesIn s.sendEpoch evs = s.sendBytes.toNat
  within : ∀ e, (sealedIn e evs).length < 2 ^ 31 ∧ bytesIn e evs < 100 * 2 ^ 30
  future : ∀ e, s.sendEpoch.toNat < e.toNat → sealedIn e evs = []
  began : Began start evs s.sendBase

section Step

variable {start : Int} {evs tr pre : List (Event C)} {s s' : Session} {p ct : Bytes} {r : Except Err Unit}

theorem Metered.quiet (h : Metered start evs s) (htr : ∀ ev ∈ tr, IsQuiet ev) : Metered start (evs ++ tr) s := by
  have hsame := sealedIn_quiet evs fun ev hev => (htr ev hev).not_seal
  exact { h with
    count := by rw [hsame, h.count]
    total := by rw [bytesIn, hsame, ← bytesIn, h.total]
    within := fun e => by rw [bytesIn, hsame]; exact h.within e
    future := fun e he => by rw [hsame]; exact h.future e he
    began := h.began.quiet fun hmem => rekeyed_not_quiet (htr _ hmem) }

theorem Metered.ratchet (h : Metered start evs s) (hmax : s.sendEpoch ≠ 0xFF) (base : Int) :
    Metered start (evs ++ [rekeyed, clock base]) (s.ratchetSend C base) := by
  have hlt := s.sendEpoch.toNat_lt
  have hne : s.sendEpoch.toNat ≠ 255 := fun hc => hmax (UInt8.toNat_inj.mp hc)
  have hepoch : (s.ratchetSend C base).sendEpoch.toNat = s.sendEpoch.toNat + 1 := by
    simp only [Session.ratchetSend, UInt8.toNat_add, UInt8.toNat_ofNat]
    omega
  have hsame : ∀ e, sealedIn e (evs ++ [rekeyed, clock base]) = sealedIn e evs :=
    sealedIn_quiet evs (by simp [rekeyed, wrote, clock, IsSeal])
  have hnew : sealedIn (s.ratchetSend C base).sendEpoch evs = [] := h.future _ (by omega)
  exact { h with
    count := by rw [hsame, hnew]; rfl
    total := by rw [bytesIn, hsame, hnew]; rfl
    within := fun e => by rw [bytesIn, hsame]; exact h.within e
    future := fun e he => by rw [hsame]; exact h.future e (by omega)
    began := .later List.not_mem_nil }

theorem Metered.sent (h : Metered start evs s) (body : Bytes) (hframes : s.sendCounter.toNat + 1 < 2 ^ 31)
    (hbytes : s.sendBytes.toNat + p.length < 100 * 2 ^ 30) :
    Metered start (evs ++ [sealEv s p ct, wrote frameData body none]) (s.advance p) := by
  have hseal : ∀ ev ∈ ([wrote frameData body none] : List (Event C)), IsSeal ev = false := by simp [wrote, IsSeal]
  have hnow : sealedIn s.sendEpoch (evs ++ [sealEv s p ct, wrote frameData body none]) =
      sealedIn s.sendEpoch evs ++ [p] := by rw [sealedIn_seal hseal, if_pos rfl]
  have hother : ∀ e, e ≠ s.sendEpoch →
      sealedIn e (evs ++ [sealEv s p ct, wrote frameData body none]) = sealedIn e evs := fun e he => by
    rw [sealedIn_seal hseal, if_neg (Ne.symm he)]
  have hcount : (sealedIn s.sendEpoch evs ++ [p]).length = s.sendCounter.toNat + 1 := by
    rw [List.length_append, h.count]
    rfl
  have htotal : ((sealedIn s.sendEpoch evs ++ [p]).map List.length).sum = s.sendBytes.toNat + p.length := by
    rw [List.map_append, List.sum_append, ← bytesIn, h.total]
    simp
  exact { h with
    count := by
      show (sealedIn s.sendEpoch _).length = (s.sendCounter + 1).toNat
      rw [hnow, hcount, UInt64.toNat_add, UInt64.toNat_one, Nat.mod_eq_of_lt (by omega)]
    total := by
      show bytesIn s.sendEpoch _ = (s.sendBytes + UInt64.ofNat p.length).toNat
      rw [bytesIn, hnow, htotal, UInt64.toNat_add, UInt64.toNat_ofNat', Nat.mod_eq_of_lt (a := p.length) (by omega),
        Nat.mod_eq_of_lt (by omega)]
    within := fun e => by
      by_cases he : e = s.sendEpoch
      · subst he
        rw [bytesIn, hnow, hcount, htotal]
        exact ⟨hframes, hbytes⟩
      · rw [bytesIn, hother e he]
        exact h.within e
    future := fun e he => by
      have hlt : s.sendEpoch.toNat < e.toNat := he
      rw [hother e fun heq => by subst heq; omega]
      exact h.future e hlt
    began := by
      refine h.began.quiet fun hmem => ?_
      rcases List.mem_pair.mp hmem with hseal | hdata
      · exact rekeyed_ne_seal hseal.symm
      · exact rekeyed_ne_data _ _ hdata.symm }

/-- A payload that does not wrap is as long as the size check takes it to be. -/
theorem fits_of_not_wraps (hp : ¬Wraps p) (hmax : p.length ≤ gcmMaxPlaintext)
    (hfit : Session.outerLen p ≤ maxFrameBody) :
    p.length + 28 ≤ 2 ^ 24 ∧ Session.ctLen p = p.length + aeadTagLen := by
  have hlen : Session.outerLen p = nonceCtrLen + 4 + (p.length + aeadTagLen) :=
    by_contra fun hne => hp ⟨hmax, hfit, hne⟩
  simp only [Session.outerLen, Session.ctLen, nonceCtrLen, aeadTagLen, maxFrameBody] at hlen hfit ⊢
  omega

theorem Metered.data (h : Metered start evs s) (hrun : DataRun s p tr s' r) (hwritten : Written tr)
    (hsize : SealsBySize tr) (hp : ¬Wraps p) (hframes : s.sendCounter.toNat + 1 < 2 ^ 31)
    (hbytes : p.length + 28 ≤ 2 ^ 24 → s.sendBytes.toNat + p.length < 100 * 2 ^ 30) :
    Metered start (evs ++ tr) s' := by
  cases hrun with
  | tooLarge => rwa [List.append_nil]
  | refused ct e hfit hbad =>
    obtain ⟨hct, hmax⟩ := hsize _ _ _ _ _ List.mem_cons_self
    obtain ⟨hlen, hctLen⟩ := fits_of_not_wraps hp hmax hfit
    rcases hbad with hbad | hbad
    · exact absurd (hct.trans hctLen.symm) hbad
    · simp only [dataBody, DataFrame.encode, List.length_append, be_length, be64_length, maxFrameBody, hct,
        aeadTagLen] at hbad
      omega
  | failed ct e => cases hwritten _ _ (List.mem_cons_of_mem _ List.mem_cons_self)
  | sent ct hfit =>
    obtain ⟨-, hmax⟩ := hsize _ _ _ _ _ List.mem_cons_self
    exact h.sent _ hframes (hbytes (fits_of_not_wraps hp hmax hfit).1)

theorem bytesCap_room (hlt : s.sendBytes.toNat < 100 * 2 ^ 30) (hcap : s.sendBytesCap = rekeyBytesCap)
    (h : DueRun s (UInt64.ofNat p.length) pre false) (hp : p.length + 28 ≤ 2 ^ 24) :
    s.sendBytes.toNat + p.length < 100 * 2 ^ 30 := by
  generalize hb : false = b at h
  cases h with
  | counted => cases hb
  | timed t _ hbytes =>
    rw [hcap, ge_iff_le, UInt64.le_iff_toNat_le, UInt64.toNat_add, UInt64.toNat_ofNat',
      Nat.mod_eq_of_lt (a := p.length) (by omega), Nat.mod_eq_of_lt (by omega)] at hbytes
    have hval : rekeyBytesCap.toNat = 100 * 2 ^ 30 := rfl
    omega

theorem Metered.counters (h : Metered start evs s) :
    s.sendCounter.toNat < 2 ^ 31 ∧ s.sendBytes.toNat < 100 * 2 ^ 30 := by
  rw [← h.count, ← h.total]
  exact h.within s.sendEpoch

theorem Written.append (h : Written (tr ++ pre)) : Written tr ∧ Written pre :=
  ⟨fun b w hmem => h b w (List.mem_append_left _ hmem), fun b w hmem => h b w (List.mem_append_right _ hmem)⟩

theorem SealsBySize.append (h : SealsBySize (tr ++ pre)) : SealsBySize tr ∧ SealsBySize pre :=
  ⟨fun a n p aad ct hmem => h a n p aad ct (List.mem_append_left _ hmem),
    fun a n p aad ct hmem => h a n p aad ct (List.mem_append_right _ hmem)⟩

theorem Metered.rekey (h : Metered start evs s) (hrun : RekeyRun s tr s' r) (hwritten : Written tr) :
    Metered start (evs ++ tr) s' := by
  cases hrun with
  | exhausted => rwa [List.append_nil]
  | failed hmax e => cases hwritten _ _ List.mem_cons_self
  | done hmax base => exact h.ratchet hmax base

theorem Metered.send (h : Metered start evs s) (hrun : SendRun s p tr s' r) (hwritten : Written tr)
    (hsize : SealsBySize tr) (hp : ¬Wraps p) : Metered start (evs ++ tr) s' := by
  cases hrun with
  | closed => rwa [List.append_nil]
  | stuck hopen hdue hrekey =>
    rw [← List.append_assoc]
    exact (h.quiet hdue.quiet).rekey hrekey hwritten.append.2
  | @rekeyed pre tr tr' s1 _ _ hopen hdue hrekey hdata =>
    have h1 := (h.quiet hdue.quiet).rekey hrekey hwritten.append.1.append.2
    have hzero : s1.sendCounter = 0 ∧ s1.sendBytes = 0 := by
      cases hrekey
      exact ⟨rfl, rfl⟩
    rw [← List.append_assoc, ← List.append_assoc]
    refine h1.data hdata hwritten.append.2 hsize.append.2 hp ?_ fun hlen => ?_
    · rw [hzero.1]
      decide
    · rw [hzero.2, UInt64.toNat_zero]
      omega
  | direct hopen hdue hdata =>
    have h1 := h.quiet hdue.quiet
    rw [← List.append_assoc]
    refine h1.data hdata hwritten.append.2 hsize.append.2 hp (frameCap_room h.counters.1 h.frameCap hdue) ?_
    exact bytesCap_room h.counters.2 h.bytesCap hdue

theorem Metered.step {c : Call C} (h : Metered start evs s) (hstep : SessionStep s c s') (hside : c.SendSide)
    (hwritten : Written c.evs) (hsize : SealsBySize c.evs) (hp : ∀ p r, c.act = .send p r → ¬Wraps p) :
    Metered start (evs ++ c.evs) s' := by
  cases hstep with
  | send hrun => exact h.send (send_runs hrun) hwritten hsize (hp _ _ rfl)
  | rekey hrun =>
    rcases rekey_runs hrun with ⟨-, rfl, rfl⟩ | ⟨-, hrekey⟩
    · rwa [List.append_nil]
    · exact h.rekey hrekey hwritten
  | recv | close => exact hside.elim

end Step

/-! ## Whole runs -/

/-- A run that the limits are about: of `Send` and `Rekey`, with writes that succeed and payloads that are
allowed. -/
structure Admitted (allowed : Bytes → Prop) (calls : List (Call C)) : Prop where
  side : ∀ c ∈ calls, c.SendSide
  payloads : ∀ p ∈ sent calls, allowed p
  written : Written (events calls)
  sized : SealsBySize (events calls)

section Runs

variable {allowed : Bytes → Prop} {s₀ s t : Session} {calls pre : List (Call C)} {c : Call C} {p : Bytes}
  {r : Except Err Unit} {tr evs : List (Event C)} {start : Int}

theorem Admitted.append {post : List (Call C)} (h : Admitted allowed (pre ++ post)) : Admitted allowed pre where
  side c hc := h.side c (List.mem_append_left _ hc)
  payloads p hp := h.payloads p (by rw [sent, List.filterMap_append]; exact List.mem_append_left _ hp)
  written := by
    have hall := h.written
    rw [events, List.flatMap_append] at hall
    exact hall.append.1
  sized := by
    have hall := h.sized
    rw [events, List.flatMap_append] at hall
    exact hall.append.1

theorem Metered.run (hnew : Metered start ([] : List (Event C)) s₀) (hallowed : ∀ p, allowed p → ¬Wraps p)
    (hrun : Path SessionStep s₀ calls s) (h : Admitted allowed calls) : Metered start (events calls) s := by
  induction hrun using Path.concat_induction with
  | init => exact hnew
  | @snoc calls t c u _ hstep ih =>
    have hwritten := h.written
    have hsized := h.sized
    rw [events_concat] at hwritten hsized ⊢
    refine (ih h.append).step hstep (h.side c (by simp)) hwritten.append.2 hsized.append.2 fun p r hact => ?_
    exact hallowed p (h.payloads p (by simp [Zap.Handshake.sent, hact]))

/-- The seal of a `Send` comes after everything else but the write. -/
theorem split_seal {a b tr1 tr2 : List (Event C)} {x ev : Event C} (ha : ∀ ev ∈ a, IsSeal ev = false)
    (hb : ∀ ev ∈ b, IsSeal ev = false) (h : a ++ x :: b = tr1 ++ ev :: tr2) (hev : IsSeal ev = true) : tr1 = a := by
  rcases List.append_eq_append_iff.mp h with ⟨m, rfl, hm⟩ | ⟨m, rfl, hm⟩
  · cases m with
    | nil => exact List.append_nil _
    | cons y m =>
      have hin : ev ∈ b := by
        rw [(List.cons.inj hm).2]
        simp
      rw [hb ev hin] at hev
      cases hev
  · cases m with
    | nil => exact (List.append_nil _).symm
    | cons y m =>
      have hin : ev ∈ tr1 ++ y :: m := by
        rw [(List.cons.inj hm).1]
        simp
      rw [ha ev hin] at hev
      cases hev

theorem DataRun.trace (h : DataRun s p tr t r) :
    tr = [] ∨ ∃ ct post, tr = sealEv s p ct :: post ∧ ∀ ev ∈ post, IsSeal ev = false := by
  cases h with
  | tooLarge => exact .inl rfl
  | refused ct => exact .inr ⟨ct, [], rfl, by simp⟩
  | failed ct | sent ct => exact .inr ⟨ct, _, rfl, by simp [wrote, IsSeal]⟩

theorem RekeyRun.not_seal (h : RekeyRun s tr t r) : ∀ ev ∈ tr, IsSeal ev = false := by
  cases h <;> simp [wrote, clock, IsSeal]

theorem Metered.timed (h : Metered start evs s) (hrun : SendRun s p tr t r) {tr1 tr2 : List (Event C)}
    {ev : Event C} (htr : tr = tr1 ++ ev :: tr2) (hev : IsSeal ev = true) :
    ∃ b now, Began start (evs ++ tr1) b ∧ LastReading tr1 now ∧ now - b < 3600 * second := by
  have hno : ∀ {l : List (Event C)}, l = tr1 ++ ev :: tr2 → ¬∀ ev ∈ l, IsSeal ev = false := by
    rintro l rfl hl
    rw [hl ev (by simp)] at hev
    cases hev
  have hdueSeal : ∀ {n : UInt64} {pre : List (Event C)} {b : Bool}, DueRun s n pre b → ∀ ev ∈ pre, IsSeal ev = false :=
    fun hdue ev hmem => (hdue.quiet ev hmem).not_seal
  cases hrun with
  | closed => exact absurd (by simp) (hno htr)
  | stuck hopen hdue hrekey =>
    refine absurd (fun ev hmem => ?_) (hno htr)
    exact (List.mem_append.mp hmem).elim (hdueSeal hdue ev) (hrekey.not_seal ev)
  | @rekeyed pre tr tr' s1 _ _ hopen hdue hrekey hdata =>
    have hfirst : ∀ ev ∈ pre ++ tr, IsSeal ev = false := fun ev hmem =>
      (List.mem_append.mp hmem).elim (hdueSeal hdue ev) (hrekey.not_seal ev)
    rcases hdata.trace with rfl | ⟨ct, post, rfl, hpost⟩
    · exact absurd hfirst (hno (by rwa [List.append_nil] at htr))
    obtain rfl := split_seal hfirst hpost htr hev
    cases hrekey with
    | done hmax base =>
      refine ⟨base, base, ?_, ⟨pre ++ [rekeyed], [], by simp [rekeyed], by simp⟩, by rw [Int.sub_self]; decide⟩
      rw [← List.append_assoc]
      exact .later List.not_mem_nil
  | @direct pre tr _ _ hopen hdue hdata =>
    rcases hdata.trace with rfl | ⟨ct, post, rfl, hpost⟩
    · exact absurd (hdueSeal hdue) (hno (by rwa [List.append_nil] at htr))
    obtain rfl := split_seal (hdueSeal hdue) hpost htr hev
    have hquiet := h.quiet hdue.quiet
    generalize hb : false = b at hdue
    cases hdue with
    | counted => cases hb
    | timed now =>
      refine ⟨s.sendBase, now, hquiet.began, ⟨[], [], rfl, by simp⟩, ?_⟩
      rw [h.timeCap] at hb
      simpa [rekeyTimeSec] using hb

theorem Metered.exhausted (h : Metered start evs s) (hrun : SendRun s p tr t r) (hmax : s.sendEpoch = 0xFF)
    (hdue : s.rekeyDue (UInt64.ofNat p.length) (firstReading tr) = true) :
    r = .error (.sentinel .epochExhausted) ∧ seals tr = [] := by
  cases hrun with
  | closed hclosed =>
    rw [h.isOpen] at hclosed
    cases hclosed
  | stuck hopen hpre hrekey =>
    cases hrekey with
    | exhausted =>
      refine ⟨rfl, List.filter_eq_nil_iff.mpr fun ev hmem => ?_⟩
      rw [List.append_nil] at hmem
      simp [(hpre.quiet ev hmem).not_seal]
    | failed hne => exact absurd hmax hne
  | rekeyed hopen hpre hrekey hdata =>
    cases hrekey with
    | done hne => exact absurd hmax hne
  | direct hopen hpre hdata =>
    rw [hpre.rekeyDue] at hdue
    cases hdue

theorem Metered.limits (hnew : Metered s₀.sendBase ([] : List (Event C)) s₀) (hallowed : ∀ p, allowed p → ¬Wraps p)
    (hrun : Path SessionStep s₀ calls s) (h : Admitted allowed calls) : Limits s₀ calls := by
  have hend := hnew.run hallowed hrun h
  have hat : ∀ {pre c t}, Path.Occurs SessionStep s₀ calls pre c t →
      Metered s₀.sendBase (events pre) t ∧ ∃ u, SessionStep t c u := by
    rintro pre c t ⟨⟨post, rfl⟩, hpre⟩
    obtain ⟨t', hpre', hrest⟩ := Path.append_iff.mp hrun
    obtain ⟨u, hstep, -⟩ := Path.cons_iff.mp hrest
    obtain rfl := hpre.det (fun h h' => h.det h') hpre'
    exact ⟨hnew.run hallowed hpre h.append, u, hstep⟩
  refine ⟨fun e => (hend.within e).1, fun e => (hend.within e).2, ?_, ?_⟩
  · intro pre p r tr t hocc tr1 ev tr2 htr hev
    obtain ⟨hmet, u, hstep⟩ := hat hocc
    cases hstep with
    | send hsend => exact hmet.timed (send_runs hsend) htr hev
  · intro pre p r tr t hocc hmax hdue
    obtain ⟨hmet, u, hstep⟩ := hat hocc
    cases hstep with
    | send hsend => exact hmet.exhausted (send_runs hsend) hmax hdue

theorem IsNew.metered {role : AuthRole} {keys : SessionKeys} (h : IsNew C role keys s₀) :
    Metered s₀.sendBase ([] : List (Event C)) s₀ := by
  obtain ⟨peerID, suite, now, ⟨-, psk, rfl⟩ | ⟨-, psk, rfl⟩⟩ := h.cases
  all_goals exact ⟨rfl, rfl, rfl, rfl, rfl, rfl, fun _ => ⟨Nat.two_pow_pos 31, by simp [bytesIn, sealedIn]⟩,
    fun _ _ => rfl, .first List.not_mem_nil⟩

/-! ## Payloads that wrap -/

theorem send_wrapping (hopen : s.closed = false) (hdue : s.rekeyDue (UInt64.ofNat p.length) s.sendBase = false)
    (hp : Wraps p) {ct : Bytes} (hct : ct.length = p.length + aeadTagLen) :
    ∃ e, Runs (s.send p : P C _) [clock s.sendBase, sealEv s p ct] (s, .error e) := by
  obtain ⟨-, hfit, hne⟩ := hp
  simp only [Session.rekeyDue, Bool.or_eq_false_iff, decide_eq_false_iff_not] at hdue
  obtain ⟨⟨hframes, hbytes⟩, htime⟩ := hdue
  have hdata : ∃ e, Runs (s.sendData p : P C _) [sealEv s p ct] (s, .error e) := by
    by_cases hlen : ct.length = Session.ctLen p
    · -- the ciphertext is as long as announced, so it is the body that is too long for a frame
      have hbody : (dataBody s ct).length > maxFrameBody := by
        simp only [Session.outerLen, nonceCtrLen, ← hlen, hct, aeadTagLen, maxFrameBody] at hfit hne
        simp only [dataBody, DataFrame.encode, List.length_append, be_length, be64_length, hct, aeadTagLen,
          maxFrameBody]
        omega
      refine ⟨decodeErr s!"frame body {(dataBody s ct).length} exceeds {maxFrameBody}", ?_⟩
      unfold Session.sendData
      rw [if_neg (Nat.not_lt.mpr hfit)]
      refine .step ?_
      change Reach (ite _ _ _ : P C _) _ _
      rw [if_neg (not_not.mpr hlen)]
      refine runs_bind.mpr ⟨[], [], .error _, rfl, ?_, .here _⟩
      rw [← dataBody, writeFrame, if_pos hbody]
      exact .here _
    · refine ⟨.other s!"zap-pq: AEAD seal length unexpected {ct.length} != {Session.ctLen p}", ?_⟩
      unfold Session.sendData
      rw [if_neg (Nat.not_lt.mpr hfit)]
      refine .step ?_
      change Reach (ite _ _ _ : P C _) _ _
      rw [if_pos hlen]
      exact .here _
  obtain ⟨e, hdata⟩ := hdata
  refine ⟨e, ?_⟩
  unfold Session.send Session.needsRekeyLocked
  rw [if_neg (by simp [hopen]), if_neg hframes, if_neg hbytes]
  refine .step ?_
  change Reach (ite _ _ _ : P C _) _ _
  rw [if_neg (by simpa using htime)]
  exact hdata

/-- A session that has sealed nothing is below the thresholds for anything that can be sealed. -/
theorem Metered.below (h : Metered start ([] : List (Event C)) s) (hp : p.length ≤ gcmMaxPlaintext) :
    s.rekeyDue (UInt64.ofNat p.length) s.sendBase = false := by
  have hcounter : s.sendCounter = 0 := UInt64.toNat_inj.mp h.count.symm
  have hzero : s.sendBytes = 0 := UInt64.toNat_inj.mp h.total.symm
  have hlt : UInt64.ofNat p.length < rekeyBytesCap := by
    have hval : rekeyBytesCap.toNat = 107374182400 := rfl
    simp only [gcmMaxPlaintext] at hp
    rw [UInt64.lt_iff_toNat_lt, UInt64.toNat_ofNat', hval, Nat.mod_eq_of_lt (by omega)]
    omega
  simp only [Session.rekeyDue, h.frameCap, h.bytesCap, h.timeCap, hcounter, hzero, UInt64.zero_add, Int.sub_self,
    Bool.or_eq_false_iff, decide_eq_false_iff_not, ge_iff_le, UInt64.not_le]
  exact ⟨⟨by decide, hlt⟩, by decide⟩

/-- **A payload that wraps breaks the limit**: it can be sealed again and again in one epoch. -/
theorem Metered.spills (h : Metered s₀.sendBase ([] : List (Event C)) s₀) (hp : Wraps p) :
    ∃ calls : List (Call C), Path SessionStep s₀ calls s₀ ∧ Admitted (fun q => q = p) calls ∧
      ¬bytesIn s₀.sendEpoch (events calls) < 100 * 2 ^ 30 := by
  let ct : Bytes := List.replicate (p.length + aeadTagLen) 0
  have hct : ct.length = p.length + aeadTagLen := List.length_replicate
  obtain ⟨e, hrun⟩ := send_wrapping (C := C) h.isOpen (h.below hp.1) hp hct
  let c : Call C := ⟨.send p (.error e), [clock s₀.sendBase, sealEv s₀ p ct]⟩
  have hall : ∀ c' ∈ List.replicate 26 c, c' = c := fun c' hc' => List.eq_of_mem_replicate hc'
  have hevs : ∀ ev ∈ events (List.replicate 26 c), ev = clock s₀.sendBase ∨ ev = sealEv s₀ p ct := by
    intro ev hev
    obtain ⟨c', hc', hin⟩ := List.mem_flatMap.mp hev
    rw [hall c' hc'] at hin
    exact List.mem_pair.mp hin
  refine ⟨List.replicate 26 c, Path.stay fun c' hc' => hall c' hc' ▸ .send hrun, ⟨?_, ?_, ?_, ?_⟩, ?_⟩
  · intro c' hc'
    rw [hall c' hc']
    trivial
  · intro q hq
    obtain ⟨c', hc', hin⟩ := List.mem_filterMap.mp hq
    rw [hall c' hc'] at hin
    exact (Option.some.inj hin).symm
  · intro b w hmem
    rcases hevs _ hmem with heq | heq <;> cases heq
  · intro a n q aad ct' hmem
    rcases hevs _ hmem with heq | heq <;> cases heq
    exact ⟨hct, hp.1⟩
  · have hbytes : ∀ n, bytesIn s₀.sendEpoch (events (List.replicate n c)) = n * p.length := by
      intro n
      induction n with
      | zero => simp [bytesIn, sealedIn, events]
      | succ n ih =>
        have hone : sealedIn s₀.sendEpoch c.evs = [p] := by
          have hsplit : c.evs = [clock s₀.sendBase] ++ [sealEv s₀ p ct] := rfl
          rw [hsplit, sealedIn_seal (by simp), if_pos rfl, sealedIn_of_no_seal (by simp [clock, IsSeal])]
          rfl
        rw [List.replicate_succ, events, List.flatMap_cons, ← events, bytesIn, sealedIn_append, hone, List.map_append,
          List.sum_append, ← bytesIn, ih]
        simp [Nat.succ_mul, Nat.add_comm]
    obtain ⟨-, hfit, hne⟩ := hp
    rw [hbytes]
    simp only [Session.outerLen, Session.ctLen, nonceCtrLen, aeadTagLen, maxFrameBody] at hfit hne
    omega

end Runs

/-- **When the limits of a key hold**: for all runs of `Send` and `Rekey` from a new session with writes that
succeed, any clock and payloads from some set, exactly if no payload of the set wraps. -/
theorem limits_iff {role : AuthRole} {keys : SessionKeys} {s₀ : Session} (hnew : IsNew C role keys s₀)
    (allowed : Bytes → Prop) :
    (∀ (calls : List (Call C)) (s : Session), Path SessionStep s₀ calls s → Admitted allowed calls →
      Limits s₀ calls) ↔ ∀ p, allowed p → ¬Wraps p := by
  constructor
  · intro h p hp hwraps
    obtain ⟨calls, hrun, hadmitted, hbytes⟩ := hnew.metered.spills hwraps
    refine hbytes ((h calls s₀ hrun ⟨hadmitted.side, fun q hq => ?_, hadmitted.written, hadmitted.sized⟩).bytes _)
    rw [hadmitted.payloads q hq]
    exact hp
  · exact fun hallowed calls s hrun h => hnew.metered.limits hallowed hrun h

theorem limits_sample : IsNew samplePrims roleInitiator sampleKeys sampleSession ∧
    Limits sampleSession [sampleSend 1 none] := by
  refine ⟨sampleSession_new, ?_⟩
  refine (limits_iff sampleSession_new fun p => p = [1]).mpr ?_ _ _ (.cons (sampleSend_step 1 none) (.nil _)) ?_
  · rintro p rfl ⟨-, -, hne⟩
    exact hne rfl
  refine ⟨?_, ?_, ?_, ?_⟩
  · simp [Call.SendSide, sampleSend]
  · simp [sent, sampleSend]
  · simp [Written, events, sampleSend, clock, sealEv, wrote]
  · intro a n p aad ct hmem
    simp only [events, sampleSend, List.flatMap_cons, List.flatMap_nil, List.append_nil, List.mem_cons,
      List.not_mem_nil, or_false] at hmem
    rcases hmem with hmem | hmem | hmem <;> cases hmem
    exact ⟨rfl, by decide⟩

/-- Twenty-six payloads of four gigabytes each are sealed in the first epoch of the sample session. -/
theorem limits_spilled : IsNew samplePrims roleInitiator sampleKeys sampleSession ∧
    ∃ calls : List (Call samplePrims), Path SessionStep sampleSession calls sampleSession ∧
      (∀ p ∈ sent calls, p.length = 2 ^ 32) ∧ (∀ c ∈ calls, c.SendSide) ∧ Written (events calls) ∧
      SealsBySize (events calls) ∧ ¬bytesIn sampleSession.sendEpoch (events calls) < 100 * 2 ^ 30 := by
  -- a payload that is never written out
  obtain ⟨p, hlen⟩ : ∃ p : Bytes, p.length = 2 ^ 32 := ⟨List.replicate _ 0, List.length_replicate⟩
  have hwraps : Wraps p := by
    simp only [Wraps, Session.outerLen, Session.ctLen, hlen, gcmMaxPlaintext, nonceCtrLen, aeadTagLen, maxFrameBody]
    decide
  obtain ⟨calls, hrun, hadmitted, hbytes⟩ := sampleSession_new.metered.spills hwraps
  refine ⟨sampleSession_new, calls, hrun, fun q hq => ?_, hadmitted.side, hadmitted.written, hadmitted.sized, hbytes⟩
  rw [hadmitted.payloads q hq, hlen]

end Zap.Handshake
