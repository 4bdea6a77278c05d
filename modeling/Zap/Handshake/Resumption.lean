/-
# Zap.Handshake.Resumption — chains of resumed handshakes on one PSK store.

A full handshake issues a PSK for the client it verified; a resumed one redeems a PSK and issues the next for
the client it read from the store. Along any interleaving of connections, sweeps and clock advances:

* each connection speaks for one client (`Speaks`), known from its own trace alone;
* an entry in the store was issued, unredeemed since, by a line of the log (`Stocked`);
* so a redemption leads back, connection by connection, to a full handshake, and the client found there is the
  one the session reports (`resumption`).

That distinct handshakes derive distinct PSK ids is assumed of the ids in the log, as `Nodup`.
-/
import Zap.Handshake.Admission
import Mathlib.Logic.Relation

namespace Zap.Handshake

open Zap.Lib Zap.Lib.Proc

variable {C : Prims}

/-! ## Each connection speaks for one client -/

def idOfKey (pk : C.SigPub) : Arr idLen := C.sha3 (C.sigPubBytes pk)

def storeEv (id : Arr pskIDLen) (psk : Arr pskKeyLen) (clientID : Arr idLen) : Event C :=
  ⟨.issue id psk clientID, ()⟩

/-- The requests that name a client, or find one. -/
def Req.Names : Req C → Prop
  | .verify .. | .issue .. | .redeem _ => True
  | _ => False

theorem special_names : Special (Req.Names (C := C)) := by
  constructor <;> simp [Req.Names]

/-- All a trace says about clients is about `client`; what it issues rests on a verification or on a
redemption. -/
structure Speaks (evs : List (Event C)) (client : Arr idLen) : Prop where
  verified : ∀ {pk msg sig}, verifyEv pk msg sig ∈ evs → idOfKey pk = client
  redeemed : ∀ {id psk cid}, redeemEv id psk cid ∈ evs → cid = client
  issued : ∀ {id psk cid}, storeEv id psk cid ∈ evs → cid = client ∧
    ((∃ pk msg sig, verifyEv pk msg sig ∈ evs) ∨ ∃ id psk, redeemEv id psk client ∈ evs)

theorem Speaks.of_subset {evs tr : List (Event C)} {client : Arr idLen} (h : Speaks tr client)
    (hkeep : ∀ e ∈ evs, e.req.Names → e ∈ tr) (hsub : ∀ e ∈ tr, e ∈ evs) : Speaks evs client where
  verified he := h.verified (hkeep _ he trivial)
  redeemed he := h.redeemed (hkeep _ he trivial)
  issued he := by
    obtain ⟨hcid, ⟨pk, msg, sig, hver⟩ | ⟨id, psk, hred⟩⟩ := h.issued (hkeep _ he trivial)
    · exact ⟨hcid, .inl ⟨pk, msg, sig, hsub _ hver⟩⟩
    · exact ⟨hcid, .inr ⟨id, psk, hsub _ hred⟩⟩

theorem Speaks.of_silent {evs : List (Event C)} (h : ∀ e ∈ evs, ¬e.req.Names) (client : Arr idLen) :
    Speaks evs client where
  verified he := absurd trivial (h _ he)
  redeemed he := absurd trivial (h _ he)
  issued he := absurd trivial (h _ he)

section Traces

variable {rs : Responder C} {evs tr : List (Event C)} {q : Prog (pkg C) (Except Err Session)}

/-- The requests the rest of a full handshake with `client` does not make. -/
def Req.Foreign (client : Arr idLen) : Req C → Prop
  | .verify pk _ _ _ => idOfKey pk ≠ client
  | .issue _ _ cid => cid ≠ client
  | .redeem _ => True
  | _ => False

theorem special_foreign (client : Arr idLen) : Special (Req.Foreign (C := C) client) := by
  constructor <;> simp [Req.Foreign]

def Req.Issues : Req C → Prop
  | .issue .. => True
  | _ => False

theorem special_issues : Special (Req.Issues (C := C)) := by
  constructor <;> simp [Req.Issues]

theorem runFull_speaks {me : Identity C} {helloBody : Bytes}
    (hreach : Prog.Reach (rs.runFull me helloBody).run tr q) (hq : Beyond Req.Names tr q) :
    ∃ client, Speaks tr client := by
  obtain ⟨caller, r, tr1, tr2, tail, -, -, htr, hrest, hkeep⟩ :=
    Responder.runFull_past special_names (by simp [Req.Names]) hreach hq
  have hsub : ∀ e ∈ tail, e ∈ tr := by
    intro e he
    rw [htr]
    simp [he]
  refine ⟨caller.initIdentity.idValue, ?_⟩
  have hown : ∀ pk ∈ caller.initIdentity.publicKey, idOfKey pk = caller.initIdentity.idValue := by
    intro pk hpk
    unfold Identity.idValue
    rw [Option.mem_def.mp hpk]
    rfl
  have hb := special_foreign (C := C) caller.initIdentity.idValue
  have havoid := (authenticate_avoids hb (by simp [Req.Foreign])
    (fun pk hpk _ _ _ hne => hne (hown pk hpk)) (by simp [Req.Foreign])).reach hrest
  refine ⟨fun {pk msg sig} he => ?_, fun {id psk cid} he => ?_, fun {id psk cid} he => ?_⟩
  · exact not_not.mp (havoid _ (hkeep _ he trivial))
  · exact absurd trivial (havoid _ (hkeep _ he trivial))
  · have hin := hkeep _ he trivial
    refine ⟨not_not.mp (havoid _ hin), .inl ?_⟩
    -- an issue comes after the AUTH that was read and verified
    obtain ⟨_, _, u1, rfl, -, h1, hq1, -⟩ := reach_past hrest
      (sendAuth_avoids special_issues me _ _ _ (by simp [Req.Issues])) (.inl ⟨_, hin, trivial⟩)
    obtain ⟨_, _, u2, rfl, yread, -⟩ := reach_past h1
      (readAuth_avoids special_issues _ (by simp [Req.Issues]) ..) hq1
    obtain ⟨pk, sig, -, -, rfl⟩ := (readAuth_yields (.inl rfl)).mp yread
    exact ⟨pk, _, sig, hsub _ (List.mem_append_right _ (List.mem_append_left _
      (List.mem_append_right _ (List.mem_singleton.mpr rfl))))⟩

/-- What follows the gates of a resumed handshake: the store's answer decides. -/
theorem redeem_speaks {hello : HelloPSKFrame} {helloBody : Bytes}
    (hreach : Prog.Reach (rs.redeemPSK hello.pskID >>= fun (psk, clientID) =>
      finishResume hello helloBody psk clientID : M C Session).run tr q) (hq : Beyond Req.Names tr q) :
    ∃ client, Speaks tr client := by
  unfold Responder.redeemPSK at hreach
  split at hreach
  · obtain ⟨_, _, _, -, hyes, -⟩ := reach_past hreach (writeAlertFor_avoids special_names _) hq
    exact absurd hyes writeAlertFor_yields
  rw [bind_assoc] at hreach
  rcases reach_request hreach with rfl | ⟨found, tr, rfl, hrest⟩
  · exact ⟨.zero _, .of_silent (by simp) _⟩
  cases found with
  | none =>
    -- the alert is all that follows
    have hsilent : ∀ e ∈ tr, ¬e.req.Names := by
      intro e he hname
      obtain ⟨_, _, _, -, hyes, -⟩ := reach_past hrest (orAlert_avoids special_names _) (.inl ⟨e, he, hname⟩)
      exact nomatch (orAlert_yields.mp hyes).2
    refine ⟨.zero _, fun he => ?_, fun he => ?_, fun he => ?_⟩
    all_goals
      rcases List.mem_cons.mp he with heq | hin
      · cases heq
      · exact absurd trivial (hsilent _ hin)
  | some entry =>
    obtain ⟨psk, clientID⟩ := entry
    have hfin : Prog.Reach (finishResume hello helloBody psk clientID : M C _).run tr q := hrest
    have havoid := (finishResume_avoids (special_foreign (C := C) clientID) hello helloBody psk
      (by simp [Req.Foreign])).reach hfin
    refine ⟨clientID, fun he => ?_, fun he => ?_, fun he => ?_⟩
    · rcases List.mem_cons.mp he with heq | hin
      · cases heq
      · exact not_not.mp (havoid _ hin)
    · rcases List.mem_cons.mp he with heq | hin
      · cases heq
        rfl
      · exact absurd trivial (havoid _ hin)
    · rcases List.mem_cons.mp he with heq | hin
      · cases heq
      · exact ⟨not_not.mp (havoid _ hin), .inr ⟨hello.pskID, psk, List.mem_cons_self ..⟩⟩

/-- **Each connection speaks for one client**, however far it has come. -/
theorem Responder.speaks (hreach : Prog.Reach rs.run.run evs q) : ∃ client, Speaks evs client := by
  by_cases hsilent : ∀ e ∈ evs, ¬e.req.Names
  · exact ⟨.zero _, .of_silent hsilent _⟩
  have hq : Beyond Req.Names evs q := by
    push Not at hsilent
    exact .inl hsilent
  obtain ⟨me, t, body, tr, -, -, -, rfl, hkeep, hpath⟩ := Responder.run_past special_names hreach hq
  have hsub : ∀ e ∈ tr, e ∈ greetingEvs t body ++ tr := fun e he => List.mem_append_right _ he
  suffices h : ∃ client, Speaks tr client from h.imp fun _ hs => hs.of_subset hkeep hsub
  have hq1 := hq.later hkeep
  rcases hpath with ⟨-, hfull⟩ | ⟨-, hresume⟩
  · exact runFull_speaks hfull hq1
  unfold Responder.runResume at hresume
  obtain ⟨tr1, tr2, hello, rfl, -, h1, hq2, k1⟩ :=
    reach_past hresume (admitPSK_avoids special_names (by simp [Req.Names]) _) hq1
  obtain ⟨client, hs⟩ := redeem_speaks h1 hq2
  exact ⟨client, hs.of_subset k1 fun e he => List.mem_append_right _ he⟩

theorem peerID_of_redeemed {s : Session} {id : Arr pskIDLen} {psk : Arr pskKeyLen} {cid : Arr idLen}
    (hdone : Yields rs.run evs s) (he : redeemEv id psk cid ∈ evs) : s.peerID = cid := by
  obtain ⟨me, t, body, tr, -, -, -, rfl, hkeep, hpath⟩ := Responder.run_past special_names hdone (.inr ⟨s, rfl⟩)
  obtain ⟨client, hs⟩ := Responder.speaks hdone
  rcases hpath with ⟨-, hfull⟩ | ⟨-, hresume⟩
  · -- a full handshake redeems nothing
    have hb : Special fun r : Req C => r = .redeem id := by constructor <;> simp
    exact absurd rfl ((Responder.runFull_avoids hb (by simp) (by simp) (by simp) (by simp) me body).reach hfull
      _ (hkeep _ he trivial))
  · obtain ⟨hello, psk', tr1, tail, -, rfl, -⟩ := runResume_done hresume
    have hin : redeemEv hello.pskID psk' s.peerID ∈
        greetingEvs t body ++ (tr1 ++ redeemEv hello.pskID psk' s.peerID :: tail) := by simp
    rw [hs.redeemed he, hs.redeemed hin]

end Traces

/-! ## The ids in the log -/

variable {ι : Type}

/-- The id of the entry a line puts into the store. -/
def issuedID : Line ι Chore (pkg C) → Option (Arr pskIDLen)
  | .proc _ ⟨.issue id _ _, _⟩ => some id
  | _ => none

def issuedIDs (log : Log ι C) : List (Arr pskIDLen) := log.filterMap issuedID

variable {id : Arr pskIDLen} {log : Log ι C} {psk : Arr pskKeyLen} {cid : Arr idLen}

theorem mem_issuedIDs {c : ι} (h : .proc c (storeEv id psk cid) ∈ log) : id ∈ issuedIDs log :=
  List.mem_filterMap.mpr ⟨_, h, rfl⟩

@[simp]
theorem issuedIDs_snoc (log : Log ι C) (a : Line ι Chore (pkg C)) :
    issuedIDs (log ++ [a]) = issuedIDs log ++ (issuedID a).toList := by
  unfold issuedIDs
  cases hid : issuedID a <;> simp [hid]

theorem issue_unique (hids : (issuedIDs log).Nodup) {c c' : ι}
    {psk psk' : Arr pskKeyLen} {cid cid' : Arr idLen} (h : .proc c (storeEv id psk cid) ∈ log)
    (h' : .proc c' (storeEv id psk' cid') ∈ log) : c = c' ∧ psk = psk' ∧ cid = cid' := by
  induction log using List.reverseRecOn with
  | nil => cases h
  | append_singleton log a ih =>
    rw [issuedIDs_snoc, List.nodup_append] at hids
    obtain ⟨hlog, -, hnew⟩ := hids
    -- a line of the earlier log cannot share its id with the last line
    have hold : ∀ {c psk cid}, .proc c (storeEv id psk cid) ∈ log →
        ∀ {c' psk' cid'}, a ≠ .proc c' (storeEv id psk' cid') := by
      rintro c psk cid hin c' psk' cid' rfl
      exact hnew id (mem_issuedIDs hin) id (by simp [issuedID, storeEv]) rfl
    rcases List.mem_append.mp h with hin | hlast
    · rcases List.mem_append.mp h' with hin' | hlast'
      · exact ih hlog hin hin'
      · exact absurd (List.mem_singleton.mp hlast').symm (hold hin)
    · rcases List.mem_append.mp h' with hin' | hlast'
      · exact absurd (List.mem_singleton.mp hlast).symm (hold hin')
      · have heq := (List.mem_singleton.mp hlast).trans (List.mem_singleton.mp hlast').symm
        simpa [storeEv] using heq

/-! ## What is in the store -/

variable {a : Line ι Chore (pkg C)}

/-- How an entry comes to be in the store after a line: it was there and the line did not redeem it, or the
line issued it. -/
theorem step_entry {w w' : World} {e : PskEntry}
    (h : ServerStep w a w') (he : w'.store.entries id = some e) :
    (w.store.entries id = some e ∧ ∀ c psk cid, a ≠ .proc c (redeemEv id psk cid)) ∨
      ∃ c, a = .proc c (storeEv id e.psk e.clientID) ∧ e.expires = w.clock + w.store.ttl ∧ e.redeemed = false := by
  cases a with
  | env ch =>
    refine .inl ⟨?_, nofun⟩
    cases (h : Moves w ch w') with
    | tick d => exact he
    | sweepCache => exact he
    | sweepStore => exact sweep_entries he
  | proc c ev =>
    cases (h : Serves w ev w') with
    | now => exact .inl ⟨he, nofun⟩
    | seenOrAdd => exact .inl ⟨he, nofun⟩
    | issue id' psk cid =>
      by_cases hid : id = id'
      · subst hid
        rw [issue_entries, if_pos rfl] at he
        cases he
        exact .inr ⟨c, rfl, rfl, rfl⟩
      · rw [issue_entries, if_neg hid] at he
        exact .inl ⟨he, nofun⟩
    | redeem id' =>
      rw [redeem_entries] at he
      split at he
      · cases he
      rename_i hid
      refine .inl ⟨he, ?_⟩
      intro c' psk cid heq
      simp only [redeemEv, Line.proc.injEq, Ev.mk.injEq, Req.redeem.injEq] at heq
      exact hid heq.2.1.symm
    | own _ hown =>
      refine .inl ⟨he, ?_⟩
      rintro c' psk cid ⟨⟩
      exact hown.elim

theorem step_ttl {w w' : World} (h : ServerStep w a w') : w'.store.ttl = w.store.ttl := by
  cases a with
  | env ch => cases (h : Moves w ch w') <;> rfl
  | proc c ev =>
    cases (h : Serves w ev w') with
    | redeem id => exact redeem_ttl ..
    | _ => rfl

/-- **The store and the log**: an entry was put there by a line of the log and not redeemed since; what was
redeemed had been issued. -/
structure Stocked (w₀ : World) (log : Log ι C) (w : World) : Prop where
  ttl : w.store.ttl = w₀.store.ttl
  entry : ∀ {id e}, w.store.entries id = some e →
    (∃ pre c w₁, Path.Occurs ServerStep w₀ log pre (.proc c (storeEv id e.psk e.clientID)) w₁ ∧
      e.expires = w₁.clock + w₀.store.ttl) ∧
    ∀ c psk cid, .proc c (redeemEv id psk cid) ∉ log
  issued : ∀ {c id psk cid}, .proc c (redeemEv id psk cid) ∈ log → id ∈ issuedIDs log

/-- A redemption finds what a line of the log issued, within its lifetime. -/
theorem Stocked.redeem {w₀ w w' : World} (h : Stocked w₀ log w)
    (hstep : Serves w (redeemEv id psk cid : Event C) w') :
    (∃ pre c w1, Path.Occurs ServerStep w₀ log pre (.proc c (storeEv id psk cid)) w1 ∧
      w.clock ≤ w1.clock + w₀.store.ttl) ∧ ∀ c psk cid, .proc c (redeemEv id psk cid) ∉ log := by
  obtain ⟨hfound, -⟩ := serves_redeem hstep
  obtain ⟨expires, hentry, hlive⟩ := redeem_eq_some.mp hfound.symm
  obtain ⟨⟨pre, c, w1, hocc, hexp⟩, hfresh⟩ := h.entry hentry
  exact ⟨⟨pre, c, w1, hocc, le_of_le_of_eq hlive hexp⟩, hfresh⟩

theorem Stocked.step {w₀ w w' : World} (h : Stocked w₀ log w)
    (hpath : Path ServerStep w₀ log w) (hstep : ServerStep w a w') (hids : (issuedIDs (log ++ [a])).Nodup) :
    Stocked w₀ (log ++ [a]) w' := by
  refine ⟨(step_ttl hstep).trans h.ttl, fun {id e} he => ?_, fun {c id psk cid} hmem => ?_⟩
  · rcases step_entry hstep he with ⟨hbefore, hkeep⟩ | ⟨c, rfl, hexp, -⟩
    · obtain ⟨⟨pre, c, w1, hocc, hexp⟩, hfresh⟩ := h.entry hbefore
      refine ⟨⟨pre, c, w1, hocc.snoc a, hexp⟩, ?_⟩
      intro c psk cid hmem
      rcases List.mem_append.mp hmem with hin | hlast
      · exact hfresh c psk cid hin
      · exact hkeep c psk cid (List.mem_singleton.mp hlast).symm
    · refine ⟨⟨log, c, w, ⟨⟨[], rfl⟩, hpath⟩, by rw [hexp, h.ttl]⟩, ?_⟩
      intro c' psk cid hmem
      rcases List.mem_append.mp hmem with hin | hlast
      · -- a redemption of this id would mean that it was issued before
        rw [issuedIDs_snoc, List.nodup_append] at hids
        exact hids.2.2 id (h.issued hin) id (by simp [issuedID, storeEv]) rfl
      · cases List.mem_singleton.mp hlast
  · rw [issuedIDs_snoc, List.mem_append]
    left
    rcases List.mem_append.mp hmem with hin | hlast
    · exact h.issued hin
    · obtain rfl := List.mem_singleton.mp hlast
      obtain ⟨⟨pre, c', w1, hocc, -⟩, -⟩ := h.redeem hstep
      exact mem_issuedIDs hocc.mem

theorem stocked {w₀ w : World} (hstore : w₀.store = newPskStore)
    (hpath : Path ServerStep w₀ log w) (hids : (issuedIDs log).Nodup) : Stocked w₀ log w := by
  induction log using List.reverseRecOn generalizing w with
  | nil =>
    obtain rfl := Path.nil_iff.mp hpath
    refine ⟨rfl, fun he => ?_, nofun⟩
    rw [hstore] at he
    cases he
  | append_singleton log a ih =>
    obtain ⟨w1, hfirst, hstep⟩ := Path.concat_iff.mp hpath
    have hids1 : (issuedIDs log).Nodup := by
      rw [issuedIDs_snoc, List.nodup_append] at hids
      exact hids.1
    exact (ih hfirst hids1).step hfirst hstep hids

/-- **Where a redeemed PSK comes from**: an earlier line issued it, less than a lifetime ago, and no earlier
line redeemed it. -/
theorem redeemed_issued {w₀ w w1 : World} {log pre : Log ι C} (hstore : w₀.store = newPskStore)
    (hpath : Path ServerStep w₀ log w) (hids : (issuedIDs log).Nodup) {c : ι}
    (hocc : Path.Occurs ServerStep w₀ log pre (.proc c (redeemEv id psk cid)) w1) :
    (∃ pre' c' w2, Path.Occurs ServerStep w₀ pre pre' (.proc c' (storeEv id psk cid)) w2 ∧
      w1.clock ≤ w2.clock + pskLifetimeSec * second) ∧
    ∀ c psk cid, .proc c (redeemEv id psk cid) ∉ pre := by
  obtain ⟨⟨post, rfl⟩, hpre⟩ := hocc
  have hids1 : (issuedIDs pre).Nodup := hids.sublist ((List.sublist_append_left ..).filterMap _)
  obtain ⟨w2, hfirst, hrest⟩ := Path.append_iff.mp hpath
  obtain ⟨w3, hstep, -⟩ := Path.cons_iff.mp hrest
  have hstock := stocked hstore hfirst hids1
  obtain rfl := path_det hpre hfirst
  have hfound := hstock.redeem hstep
  rw [hstore] at hfound
  exact hfound

/-! ## Chains -/

section Chains

variable [DecidableEq ι]

/-- Connection `c` redeemed a PSK that connection `c'` issued. -/
def Resumes (log : Log ι C) (c c' : ι) : Prop :=
  ∃ id psk cid psk' cid', .proc c (redeemEv id psk cid) ∈ log ∧ .proc c' (storeEv id psk' cid') ∈ log

/-- Connection `c₀` ran a full handshake up to the verification of its client's signature under `pk`. -/
def Verified (log : Log ι C) (c₀ : ι) (pk : C.SigPub) : Prop := ∃ msg sig, verifyEv pk msg sig ∈ traceOf c₀ log

/-- `c₀` is the full handshake at the root of the chain of PSKs that `c` stands on. -/
def Root (log : Log ι C) (c c₀ : ι) : Prop := Relation.ReflTransGen (Resumes log) c c₀ ∧ ∃ pk, Verified log c₀ pk

theorem Root.snoc {log : Log ι C} {c c0 : ι} (h : Root log c c0) (a : Line ι Chore (pkg C)) :
    Root (log ++ [a]) c c0 := by
  obtain ⟨hchain, pk, msg, sig, hver⟩ := h
  refine ⟨Relation.ReflTransGen.mono ?_ c c0 hchain, pk, msg, sig, ?_⟩
  · rintro c1 c2 ⟨id, psk, cid, psk', cid', hred, hiss⟩
    exact ⟨id, psk, cid, psk', cid', List.mem_append_left _ hred, List.mem_append_left _ hiss⟩
  · rw [traceOf_append]
    exact List.mem_append_left _ hver

variable {rss : ι → Responder C} {w₀ w : World} {log : Log ι C}

/-- **Every chain has a root**: what touched a PSK of the store leads back to a full handshake. -/
theorem root_exists (hstore : w₀.store = newPskStore) (hrun : ServerRun rss w₀ log w)
    (hids : (issuedIDs log).Nodup) {c : ι} {id : Arr pskIDLen} {psk : Arr pskKeyLen} {cid : Arr idLen}
    (htouch : .proc c (redeemEv id psk cid) ∈ log ∨ .proc c (storeEv id psk cid) ∈ log) :
    ∃ c0, Root log c c0 := by
  induction hrun using PoolRun.induction generalizing c id psk cid with
  | init => simp at htouch
  | @snoc log w a w' hrun' hrun hstep ih =>
    have hids' : (issuedIDs log).Nodup := by
      rw [issuedIDs_snoc, List.nodup_append] at hids
      exact hids.1
    -- what an earlier line did, it still has done
    have hold : ∀ {c id psk cid}, .proc c (redeemEv id psk cid) ∈ log ∨ .proc c (storeEv id psk cid) ∈ log →
        ∃ c0, Root (log ++ [a]) c c0 := fun h => (ih hids' h).imp fun _ hroot => hroot.snoc a
    rcases htouch with hred | hiss
    · rcases List.mem_append.mp hred with hin | hlast
      · exact hold (.inl hin)
      obtain rfl := List.mem_singleton.mp hlast
      obtain ⟨⟨pre, c', w1, hocc, -⟩, -⟩ := (stocked hstore hrun.steps hids').redeem hstep
      obtain ⟨c0, hchain, hver⟩ := hold (.inr hocc.mem)
      refine ⟨c0, hchain.head ?_, hver⟩
      exact ⟨id, psk, cid, psk, cid, hred, List.mem_append_left _ hocc.mem⟩
    · rcases List.mem_append.mp hiss with hin | hlast
      · exact hold (.inr hin)
      obtain rfl := List.mem_singleton.mp hlast
      obtain ⟨q, hq⟩ := hrun'.procs c
      obtain ⟨client, hs⟩ := Responder.speaks hq
      obtain ⟨-, ⟨pk, msg, sig, hver⟩ | ⟨id', psk', hred⟩⟩ := hs.issued (mem_traceOf.mpr hiss)
      · exact ⟨c, .refl, pk, msg, sig, hver⟩
      · rcases List.mem_append.mp (mem_traceOf.mp hred) with hin | hlast'
        · exact hold (.inl hin)
        · cases List.mem_singleton.mp hlast'

theorem resumes_client (hstore : w₀.store = newPskStore) (hrun : ServerRun rss w₀ log w)
    (hids : (issuedIDs log).Nodup) {c c' : ι} (h : Resumes log c c') {client client' : Arr idLen}
    (hs : Speaks (traceOf c log) client) (hs' : Speaks (traceOf c' log) client') : client = client' := by
  obtain ⟨id, psk, cid, psk', cid', hred, hiss⟩ := h
  obtain ⟨pre, w1, hocc⟩ := Path.occurs_of_mem hrun.steps hred
  obtain ⟨⟨pre', c'', w2, hsrc, -⟩, -⟩ := redeemed_issued hstore hrun.steps hids hocc
  obtain ⟨⟨post, rfl⟩, -⟩ := hocc
  obtain ⟨-, -, rfl⟩ := issue_unique hids (List.mem_append_left _ hsrc.mem) hiss
  rw [← hs.redeemed (mem_traceOf.mpr hred), (hs'.issued (mem_traceOf.mpr hiss)).1]

theorem chain_client (hstore : w₀.store = newPskStore) (hrun : ServerRun rss w₀ log w)
    (hids : (issuedIDs log).Nodup) {c c0 : ι} (h : Relation.ReflTransGen (Resumes log) c c0)
    {client : Arr idLen} (hs : Speaks (traceOf c log) client) : Speaks (traceOf c0 log) client := by
  induction h with
  | refl => exact hs
  | @tail c1 c2 _ hlink ih =>
    obtain ⟨q, hq⟩ := hrun.procs c2
    obtain ⟨client', hs'⟩ := Responder.speaks hq
    rw [resumes_client hstore hrun hids hlink ih hs']
    exact hs'

/-- **Resumption keeps identity and is single use.**  On a server that starts with an empty PSK store, along
every interleaving in which distinct handshakes issue distinct PSK ids:

* a connection that redeemed a PSK stands on a full handshake, and the client verified in every such root is
  the one redeemed and the one its session reports;
* a PSK id is redeemed at one line of the log only;
* it is redeemed within its lifetime after the line that issued it. -/
theorem resumption (hstore : w₀.store = newPskStore) (hrun : ServerRun rss w₀ log w)
    (hids : (issuedIDs log).Nodup) {pre : Log ι C} {c : ι} {id : Arr pskIDLen} {psk : Arr pskKeyLen}
    {cid : Arr idLen} {w₁ : World}
    (hocc : Path.Occurs ServerStep w₀ log pre (.proc c (redeemEv id psk cid)) w₁) :
    (∃ c₀, Root log c c₀) ∧
    (∀ c₀, Root log c c₀ → ∀ pk, Verified log c₀ pk → idOfKey pk = cid) ∧
    (∀ s, Yields (rss c).run (traceOf c log) s → s.peerID = cid) ∧
    (∀ pre' c' psk' cid' w₂,
      Path.Occurs ServerStep w₀ log pre' (.proc c' (redeemEv id psk' cid')) w₂ → pre' = pre ∧ c' = c) ∧
    ∃ pre' c' w₂, Path.Occurs ServerStep w₀ pre pre' (.proc c' (storeEv id psk cid)) w₂ ∧
      w₁.clock ≤ w₂.clock + pskLifetimeSec * second := by
  obtain ⟨hsource, hfirst⟩ := redeemed_issued hstore hrun.steps hids hocc
  have hmem := mem_traceOf.mpr hocc.mem
  refine ⟨root_exists hstore hrun hids (.inl hocc.mem), ?_, ?_, ?_, hsource⟩
  · rintro c₀ ⟨hchain, -⟩ pk ⟨msg, sig, hver⟩
    obtain ⟨q, hq⟩ := hrun.procs c
    obtain ⟨client, hs⟩ := Responder.speaks hq
    rw [(chain_client hstore hrun hids hchain hs).verified hver, hs.redeemed hmem]
  · intro s hdone
    exact peerID_of_redeemed hdone hmem
  · intro pre' c' psk' cid' w₂ hocc'
    obtain ⟨-, hfirst'⟩ := redeemed_issued hstore hrun.steps hids hocc'
    obtain ⟨hplace, hline⟩ := hocc.first_unique (P := fun a => ∃ c psk cid, a = .proc c (redeemEv id psk cid))
      hocc' ⟨c, psk, cid, rfl⟩ ⟨c', psk', cid', rfl⟩
      (by rintro _ hin ⟨c, psk, cid, rfl⟩; exact hfirst c psk cid hin)
      (by rintro _ hin ⟨c, psk, cid, rfl⟩; exact hfirst' c psk cid hin)
    exact ⟨hplace, (Line.proc.inj hline).1⟩

end Chains

/-! ### A resumed connection

The sample meeting, then a second connection that redeems the PSK of the first. -/

def HelloPSKFrame.replayKey (C : Prims) (hello : HelloPSKFrame) : ReplayKey :=
  ⟨C.sha3 hello.pskID.bytes, hello.clientRandom⟩

/-- A connection that has redeemed its PSK, with every clock reading at `t`. -/
def redeemingEvs (hello : HelloPSKFrame) (psk : Arr pskKeyLen) (clientID : Arr idLen) (t : Int) :
    List (Event C) :=
  greetingEvs frameHelloPSK hello.encode ++ ([clock t, hashEv hello.pskID.bytes, clock t,
    seenEv t (hello.replayKey C) false] ++ [redeemEv hello.pskID psk clientID])

theorem redeeming_reach {rs : Responder C} {me : Identity C} {hello : HelloPSKFrame} {t : Int}
    (psk : Arr pskKeyLen) (clientID : Arr idLen) (hme : signer rs.localIdentity = some me)
    (hcache : rs.hasReplayCache = true) (hpsk : rs.hasPSKStore = true)
    (haccept : rs.acceptsSuite hello.suite = true) (hdown : rs.Undowngraded hello.pqMode [])
    (hwindow : checkTimestampAt t hello.timestampNS = .ok ()) :
    Prog.Reach rs.run.run (redeemingEvs hello psk clientID t)
      (finishResume hello hello.encode psk clientID : M C _).run := by
  have hfit : hello.encode.length ≤ maxFrameBody := by
    rw [hello.encode_length]
    decide
  have hadmit : Yields (rs.admitPSK hello.encode)
      [clock t, hashEv hello.pskID.bytes, clock t, seenEv t (hello.replayKey C) false] hello := by
    refine admitPSK_yields.mpr ⟨decodeHelloPSK_encode hello, haccept, hdown, ?_⟩
    unfold Responder.FreshEvs
    rw [if_pos hcache]
    exact ⟨t, _, _, t, hwindow, pskReplayKey_yields.mpr ⟨rfl, rfl⟩, rfl⟩
  refine Responder.run_intro hme (fun _ => hcache) hfit ?_
  unfold Responder.dispatch
  rw [if_neg (by decide), if_pos rfl]
  refine reach_bind hadmit ?_
  rw [← List.append_nil [_]]
  exact reach_bind (redeemPSK_yields.mpr ⟨hpsk, rfl⟩) (.here _)

def sampleHelloPSK : HelloPSKFrame where
  suite := sampleMeeting.suite
  pqMode := sampleMeeting.i.pqModeOrDefault
  clientRandom := tagged _ 6
  timestampNS := 0
  pskID := pskIDOf samplePrims sampleMeeting.keys.resumptionPSK
  x25519EphPub := tagged _ 3

/-- The log: connection `false` runs the sample meeting, connection `true` redeems its PSK. -/
def sampleChain : Log Bool samplePrims :=
  sampleMeeting.responderEvs.map (.proc false) ++
    (redeemingEvs sampleHelloPSK sampleMeeting.keys.resumptionPSK sampleMeeting.caller.initIdentity.idValue
      0).map (.proc true)

theorem sampleChain_run : ∃ w, ServerRun (fun _ => sampleMeeting.rs) sampleWorld sampleChain w := by
  obtain ⟨w, hw⟩ := Option.isSome_iff_exists.mp (by decide +kernel :
    (sampleChain.foldlM World.line sampleWorld).isSome)
  refine ⟨w, path_of_lines hw, fun c => ?_⟩
  unfold sampleChain
  rw [traceOf_append]
  cases c with
  | false =>
    rw [traceOf_map_proc, traceOf_map_proc_ne (by decide), List.append_nil]
    exact ⟨_, Meeting.responder_completes samplePrims_lawful sampleMeeting_undisturbed⟩
  | true =>
    rw [traceOf_map_proc, traceOf_map_proc_ne (by decide), List.nil_append]
    have hme : signer sampleMeeting.rs.localIdentity = some sampleMeeting.meR := rfl
    exact ⟨_, redeeming_reach _ _ hme rfl rfl sampleMeeting_undisturbed.accepts
      (fun hstrict => ⟨(sampleMeeting_undisturbed.undowngraded hstrict).1, nofun⟩) rfl⟩

theorem sampleChain_ids : (issuedIDs sampleChain).Nodup := by
  decide

/-- The second connection stands on the first, and redeems the client verified there. -/
theorem resumption_sample : (∃ c₀, Root sampleChain true c₀) ∧ ∀ c₀, Root sampleChain true c₀ →
    ∀ pk, Verified sampleChain c₀ pk → idOfKey pk = sampleMeeting.caller.initIdentity.idValue := by
  obtain ⟨w, hrun⟩ := sampleChain_run
  have hlast : .proc true (redeemEv sampleHelloPSK.pskID sampleMeeting.keys.resumptionPSK
      sampleMeeting.caller.initIdentity.idValue) ∈ sampleChain := by
    unfold sampleChain redeemingEvs
    simp
  obtain ⟨pre, w₁, hocc⟩ := Path.occurs_of_mem hrun.steps hlast
  obtain ⟨hroot, hclient, -⟩ := resumption rfl hrun sampleChain_ids hocc
  exact ⟨hroot, hclient⟩

end Zap.Handshake
