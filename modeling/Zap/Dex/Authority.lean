/-
# Zap.Dex.Authority — what the operations of a session may call, and when a capability is good.

Tokens are 32 random bytes: that nobody names one before it is issued is a hypothesis (`Fresh`), used for the
checks only.
-/
import Zap.Dex.Operations

namespace Zap.Dex

open Zap.Lib Zap.Wire Proc
open Prog (Ensures)

/-! ## Calls within the grant -/

def classOf (type : Nat) : Option Authority :=
  if type = msgQuote ∨ type = msgGetState then some authQuote
  else if type = msgNotify ∨ type = msgRoutePrepare then some authIntent
  else if type = msgWatchPoll ∨ type = msgRouteStatus then some authWatch
  else if type = msgImport then some authSettlement
  else none

def WithinGrant (grant : Authority) (type : Nat) : Prop := ∃ a, classOf type = some a ∧ grant &&& a = a

def OutsideGrant (grant : Authority) : DexReq → Prop
  | .call msg => ¬WithinGrant grant (msgType msg)
  | .register _ bits => grant &&& bits ≠ bits
  | _ => False

/-- An answer of a table all of whose entries are within the grant. -/
def Bounded (grant : Authority) : Ev dexSig → Prop
  | ⟨.lookup _, x⟩ => ∀ g, x = some g → grant &&& g.bits = g.bits
  | _ => True

theorem includes_trans {a b c : Authority} (hab : a &&& b = b) (hbc : b &&& c = c) : a &&& c = c := by
  rw [← hbc, ← UInt32.and_assoc, hab]

variable {grant need : Authority} {w w' : Table} {e : Ev dexSig}

section Within

variable {sha256 : List UInt8 → ID} {dex : Session} {α β : Type}

/-- The operation stays within the grant, as long as the table does. -/
abbrev Within (grant : Authority) (p : Op α) : Prop := Spares (Bounded grant) (OutsideGrant grant) p

/-- Behind a scoped check the need is in the grant, by way of the token's entry. -/
theorem within_authorized {cap : ScopedCap} {p : Op α} (h : grant &&& need = need → Within grant p) :
    Within grant (do
      cap.authorizeSelf sha256 need
      p) := by
  refine spares_bind.mpr ⟨spares_authorizeSelf not_false, ScopedCap.ensures_authorizeScoped.mpr ?_⟩
  split_ifs
  · trivial
  · intro x hx
    unfold scopedResult
    cases hcheck : checkResult need x with
    | error e => trivial
    | ok u =>
      obtain ⟨g, rfl, -, hbits⟩ := checkResult_ok.mp hcheck
      split_ifs
      · exact h (includes_trans (hx g rfl) hbits)
      · trivial
  · trivial

theorem within_call {x : Go (Except WireError Message)} {type : Nat} (htag : Tagged x type)
    (htype : classOf type = some need) (hgrant : grant &&& need = need) (msg : Message) (hmsg : x = .ok (.ok msg)) :
    ¬OutsideGrant grant (.call msg) :=
  not_not.mpr ⟨need, htag msg hmsg ▸ htype, hgrant⟩

theorem within_routePoll (grant : Authority) (w : RouteWatch) : Within grant (w.poll sha256) := by
  unfold RouteWatch.poll
  refine within_authorized fun hgrant => ?_
  exact spares_exchange (within_call (routeWatchPoll_tagged w.intentID) rfl hgrant) fun _ => spares_eval _

/-- The notify of a route is the one call behind a scoped check that no grant of the session is asked for. -/
theorem within_notifyRoute (s : V4RouteSession) (intent : Except DexError PreparedIntent) :
    Within grant (s.writeNotifyCToDExport sha256 intent) := by
  refine within_authorized fun hgrant => spares_thenAsync not_false fun pi => ?_
  unfold V4RouteSession.notifyRoute
  refine (spares_guardIntent _ _).bind fun _ => ?_
  have htag := routeRequest_tagged s.req
  generalize buildRouteRequest s.req = msg at htag ⊢
  exact spares_exchange (within_call htag rfl hgrant) fun _ => spares_pure

theorem within_issue (bits : Authority) : Within dex.grant (dex.issue bits) := by
  unfold Session.issue
  refine spares_granted fun hgrant => (spares_ask not_false).bind fun t => ?_
  split_ifs
  · exact spares_throw_bind
  · exact (spares_ask (not_not.mpr hgrant)).bind fun _ => spares_pure

theorem within_sites : Sites sha256 dex (fun _ => True) (Bounded dex.grant) (OutsideGrant dex.grant) where
  cancelled := not_false
  emit _ := not_false
  lookup _ _ := not_false
  quote q := spares_quote q (within_call (quoteRequest_tagged q) rfl)
  getState q := spares_getState q (within_call (stateRequest_tagged q) rfl)
  notify pi := spares_notify pi (within_call (preparedIntent_tagged pi (by decide)) rfl)
  poll w := spares_poll w (within_call (watchPollRequest_tagged w.intentID) rfl)
  settle ref := spares_settle ref (within_call (dExportRef_tagged ref) rfl)
  routePoll w _ := within_routePoll _ w
  routeNotify s intent _ := within_notifyRoute s intent

/-- **Every operation stays within the grant**, as long as the table does. -/
theorem within_body (op : Operation) : Within dex.grant (op.body sha256 dex) :=
  within_sites.operation (fun _ => not_false) (fun _ _ => not_false) within_issue op

end Within

/-! ## Runs -/

section Pool

variable {ι : Type} [DecidableEq ι] {sha256 : List UInt8 → ID} {dex : Session} {ops : ι → Operation}
  {log : List (Line ι Empty dexSig)} {w : Table}

def Table.Within (grant : Authority) (w : Table) : Prop := ∀ t g, w t = some g → grant &&& g.bits = g.bits

theorem Table.Within.bounded (h : w.Within grant) (hserve : w.Serves e w') : Bounded grant e := by
  rcases e with ⟨r, x⟩
  cases r with
  | lookup t =>
    intro g hg
    exact h t g (hserve.1.symm.trans hg)
  | _ => trivial

theorem Table.Within.step (h : w.Within grant) (hserve : w.Serves e w') (he : ¬OutsideGrant grant e.req) :
    w'.Within grant := by
  rcases e with ⟨r, x⟩
  cases r with
  | lookup t => exact hserve.2 ▸ h
  | register t bits =>
    obtain rfl : w' = Function.update w t (some ⟨bits, false⟩) := hserve
    intro t' g hg
    by_cases ht : t' = t
    · subst ht
      rw [Function.update_self, Option.some.injEq] at hg
      subst hg
      exact not_not.mp he
    · rw [Function.update_of_ne ht] at hg
      exact h t' g hg
  | revoke t =>
    obtain rfl : w' = Function.update w t ((w t).map fun g => { g with revoked := true }) := hserve
    intro t' g hg
    by_cases ht : t' = t
    · subst ht
      rw [Function.update_self, Option.map_eq_some_iff] at hg
      obtain ⟨g', hg', rfl⟩ := hg
      exact h t' g' hg'
    · rw [Function.update_of_ne ht] at hg
      exact h t' g hg
  | call msg | cancelled | newToken | emit ev | send toAddr calldata =>
    obtain rfl : w' = w := hserve
    exact h

theorem run_within (h : SessionRun sha256 dex ops log w) :
    w.Within dex.grant ∧ ∀ i e, .proc i e ∈ log → Bounded dex.grant e ∧ ¬OutsideGrant dex.grant e.req := by
  induction h using PoolRun.induction with
  | init => exact ⟨nofun, nofun⟩
  | @snoc log w a w' hrun _ hstep ih =>
    obtain ⟨htable, hevents⟩ := ih
    obtain ⟨i, e⟩ | a := a
    swap
    · exact a.elim
    have hserve : w.Serves e w' := hstep
    have hbounded : Bounded dex.grant e := htable.bounded hserve
    obtain ⟨q, hq⟩ := hrun.procs i
    have hall : ∀ e' ∈ traceOf i (log ++ [.proc i e]), Bounded dex.grant e' := by
      intro e' he'
      rcases List.mem_append.mp (mem_traceOf.mp he') with hold | hnew
      · exact (hevents i e' hold).1
      · cases List.mem_singleton.mp hnew
        exact hbounded
    have hspared := ((within_body (ops i)).reach hq hall).1
    have he : ¬OutsideGrant dex.grant e.req := hspared e (mem_traceOf.mpr (by simp))
    refine ⟨htable.step hserve he, fun j e' he' => ?_⟩
    rcases List.mem_append.mp he' with hold | hnew
    · exact hevents j e' hold
    · cases List.mem_singleton.mp hnew
      exact ⟨hbounded, he⟩

end Pool

/-! ## Checks of a token -/

section Tokens

variable {ι : Type} {log : List (Line ι Empty dexSig)} {w : Table}

def Line.Names (t : Token) : Line ι Empty dexSig → Prop
  | .proc _ ⟨.register t' _, _⟩ => t' = t
  | .proc _ ⟨.revoke t', _⟩ => t' = t
  | _ => False

/-- No token is named before it is issued. -/
def Fresh (log : List (Line ι Empty dexSig)) : Prop :=
  ∀ pre i t bits post, log = pre ++ .proc i ⟨.register t bits, ()⟩ :: post → ∀ l ∈ pre, ¬Line.Names t l

def Issued (log : List (Line ι Empty dexSig)) (t : Token) (bits : Authority) : Prop :=
  ∃ i, .proc i ⟨.register t bits, ()⟩ ∈ log

def Revoked (log : List (Line ι Empty dexSig)) (t : Token) : Prop := ∃ i, .proc i ⟨.revoke t, ()⟩ ∈ log

variable {a : Line ι Empty dexSig}

theorem Fresh.init (h : Fresh (log ++ [a])) : Fresh log := by
  intro pre i t bits post hlog
  exact h pre i t bits (post ++ [a]) (by rw [hlog]; simp)

variable {t : Token}

theorem issued_concat {bits : Authority} :
    Issued (log ++ [a]) t bits ↔ Issued log t bits ∨ ∃ i, .proc i ⟨.register t bits, ()⟩ = a := by
  simp only [Issued, List.mem_append, List.mem_singleton, exists_or]

theorem revoked_concat : Revoked (log ++ [a]) t ↔ Revoked log t ∨ ∃ i, .proc i ⟨.revoke t, ()⟩ = a := by
  simp only [Revoked, List.mem_append, List.mem_singleton, exists_or]

theorem unnamed_concat (log : List (Line ι Empty dexSig)) (h : ¬Line.Names t a) :
    (∀ bits, Issued (log ++ [a]) t bits ↔ Issued log t bits) ∧ (Revoked (log ++ [a]) t ↔ Revoked log t) := by
  refine ⟨fun bits => issued_concat.trans (or_iff_left ?_), revoked_concat.trans (or_iff_left ?_)⟩
  · rintro ⟨i, rfl⟩
    exact h rfl
  · rintro ⟨i, rfl⟩
    exact h rfl

theorem Table.Serves.unnamed {i : ι} (hserve : w.Serves e w') (h : ¬Line.Names t (.proc i e)) : w' t = w t := by
  rcases e with ⟨r, x⟩
  cases r with
  | lookup t' => rw [hserve.2]
  | register t' bits =>
    obtain rfl : w' = Function.update w t' (some ⟨bits, false⟩) := hserve
    exact Function.update_of_ne (fun ht => h ht.symm) _ _
  | revoke t' =>
    obtain rfl : w' = Function.update w t' ((w t').map fun g => { g with revoked := true }) := hserve
    exact Function.update_of_ne (fun ht => h ht.symm) _ _
  | call msg | cancelled | newToken | emit ev | send toAddr calldata =>
    obtain rfl : w' = w := hserve
    rfl

/-- **What the table says** of a token: what it was issued with, and whether it was revoked. -/
theorem table_iff (h : Path (PoolStep Table.Serves fun _ _ _ => False) (fun _ => none) log w)
    (hfresh : Fresh log) (t : Token) (g : Grant) :
    w t = some g ↔ Issued log t g.bits ∧ (g.revoked = true ↔ Revoked log t) := by
  induction h using Path.concat_induction generalizing g with
  | init => simp [Issued]
  | @snoc log w a w' _ hstep ih =>
    have ih := ih hfresh.init
    obtain ⟨i, e⟩ | a := a
    swap
    · exact a.elim
    have hserve : w.Serves e w' := hstep
    by_cases hnames : Line.Names t (.proc i e)
    swap
    · obtain ⟨hissued, hrevoked⟩ := unnamed_concat log hnames
      rw [hserve.unnamed hnames, hissued, hrevoked, ih]
    rcases e with ⟨r, x⟩
    cases r with
    | register t' bits =>
      obtain rfl : t' = t := hnames
      obtain rfl : w' = Function.update w t' (some ⟨bits, false⟩) := hserve
      -- the token is new, so nothing of it is in the log before
      have hnew := hfresh log i t' bits [] rfl
      have hissued : ∀ b, ¬Issued log t' b := fun b ⟨j, hj⟩ => hnew _ hj rfl
      have hrevoked : ¬Revoked log t' := fun ⟨j, hj⟩ => hnew _ hj rfl
      rw [Function.update_self, issued_concat, revoked_concat]
      cases g with
      | mk gbits grevoked => simp [hissued, hrevoked, eq_comm]
    | revoke t' =>
      obtain rfl : t' = t := hnames
      obtain rfl : w' = Function.update w t' ((w t').map fun g => { g with revoked := true }) := hserve
      rw [Function.update_self, issued_concat, revoked_concat, Option.map_eq_some_iff]
      constructor
      · rintro ⟨g', hg', rfl⟩
        exact ⟨.inl ((ih g').mp hg').1, by simp⟩
      rintro ⟨hissued | ⟨j, hj⟩, hrevoked⟩
      · classical
        have hrevoked' : g.revoked = true := hrevoked.mpr (.inr ⟨i, rfl⟩)
        refine ⟨⟨g.bits, decide (Revoked log t')⟩, (ih _).mpr ⟨hissued, by simp⟩, ?_⟩
        rw [← hrevoked']
      · cases hj
    | _ => exact hnames.elim

theorem answered_authorize {c : Session.CapCore} :
    Prog.Answered Table.Serves (c.authorize need).run w (.ok ()) w ↔
      c.bits &&& need = need ∧ ∃ g, w c.tok = some g ∧ g.revoked = false ∧ g.bits &&& need = need := by
  constructor
  · rintro ⟨tr, hrun, hpath⟩
    obtain ⟨hbits, g, rfl, hrest⟩ := Session.CapCore.yields_authorize.mp hrun
    obtain ⟨w1, hserve, -⟩ := Path.cons_iff.mp hpath
    exact ⟨hbits, g, hserve.1.symm, hrest⟩
  · rintro ⟨hbits, g, hg, hrest⟩
    exact ⟨_, Session.CapCore.yields_authorize.mpr ⟨hbits, g, rfl, hrest⟩, .cons ⟨hg.symm, rfl⟩ (.nil _)⟩

theorem answered_authorizeScoped {sha256 : List UInt8 → ID} {c : ScopedCap} {want : V4ActionScope}
    (hset : c.sessionID ≠ .zero 32) :
    Prog.Answered Table.Serves (c.authorizeScoped sha256 need want).run w (.ok ()) w ↔
      Prog.Answered Table.Serves (c.core.authorize need).run w (.ok ()) w ∧
        deriveSessionID sha256 want = c.sessionID := by
  constructor
  · rintro ⟨tr, hrun, hpath⟩
    obtain ⟨-, hfits, hbits⟩ := ScopedCap.yields_authorizeScoped.mp hrun
    exact ⟨⟨tr, Session.CapCore.yields_authorize.mpr hbits, hpath⟩, hfits⟩
  · rintro ⟨⟨tr, hrun, hpath⟩, hfits⟩
    exact ⟨tr, ScopedCap.yields_authorizeScoped.mpr
      ⟨hset, hfits, Session.CapCore.yields_authorize.mp hrun⟩, hpath⟩

/-- A check succeeds for a token that was issued with the bits and not revoked. -/
theorem authorize_iff (h : Path (PoolStep Table.Serves fun _ _ _ => False) (fun _ => none) log w)
    (hfresh : Fresh log) (c : Session.CapCore) (need : Authority) :
    Prog.Answered Table.Serves (c.authorize need).run w (.ok ()) w ↔
      c.bits &&& need = need ∧ (∃ bits, Issued log c.tok bits ∧ bits &&& need = need) ∧ ¬Revoked log c.tok := by
  rw [answered_authorize]
  refine and_congr_right fun _ => ?_
  constructor
  · rintro ⟨g, hg, hlive, hbits⟩
    obtain ⟨hissued, hrevoked⟩ := (table_iff h hfresh c.tok g).mp hg
    exact ⟨⟨g.bits, hissued, hbits⟩, fun hr => by simp [hrevoked.mpr hr] at hlive⟩
  · rintro ⟨⟨bits, hissued, hbits⟩, hrevoked⟩
    exact ⟨⟨bits, false⟩, (table_iff h hfresh c.tok _).mpr ⟨hissued, by simp [hrevoked]⟩, rfl, hbits⟩

end Tokens

/-- **Capabilities confine.**  In every run of any operations on one session, each call has a message type
whose class the session's grant includes. And at the end of the run, which may be any point of a longer one,
the check of a capability succeeds exactly if its token was issued and has not been revoked and its bits include
the need; that of a scoped capability, if besides the wanted scope hashes to its session id. -/
theorem calls_within_grant {ι : Type} [DecidableEq ι] (sha256 : List UInt8 → ID) (dex : Session)
    (ops : ι → Operation) (log : List (Line ι Empty dexSig)) (w : Table)
    (h : SessionRun sha256 dex ops log w) :
    (∀ i msg answer, .proc i ⟨.call msg, answer⟩ ∈ log → WithinGrant dex.grant (msgType msg)) ∧
    (Fresh log → ∀ need,
      (∀ c : Session.CapCore, Prog.Answered Table.Serves (c.authorize need).run w (.ok ()) w ↔
        c.bits &&& need = need ∧ (∃ bits, Issued log c.tok bits ∧ bits &&& need = need) ∧
          ¬Revoked log c.tok) ∧
      ∀ (c : ScopedCap) (want : V4ActionScope), c.sessionID ≠ .zero 32 →
        (Prog.Answered Table.Serves (c.authorizeScoped sha256 need want).run w (.ok ()) w ↔
          (c.core.bits &&& need = need ∧ (∃ bits, Issued log c.core.tok bits ∧ bits &&& need = need) ∧
            ¬Revoked log c.core.tok) ∧ deriveSessionID sha256 want = c.sessionID)) := by
  refine ⟨fun i msg answer hcall => not_not.mp ((run_within h).2 i _ hcall).2, fun hfresh need => ⟨?_, ?_⟩⟩
  · exact fun c => authorize_iff h.steps hfresh c need
  · intro c want hset
    rw [answered_authorizeScoped hset, authorize_iff h.steps hfresh]

/-- A capability is derived and a quote is asked for: the call is within the grant, the capability is good. -/
theorem derived_checks : ∃ log w m, SessionRun lastByte trader
      (fun i : Bool => if i then .quote ⟨.zero 32, 1, true⟩ else .derive authQuote) log w ∧
    .proc true ⟨.call m, none⟩ ∈ log ∧ WithinGrant trader.grant (msgType m) ∧
    Prog.Answered Table.Serves (Session.CapCore.authorize ⟨fill 1, authQuote⟩ authQuote).run w (.ok ()) w := by
  let m := made (buildQuoteRequest ⟨.zero 32, 1, true⟩)
  let log : List (Line Bool Empty dexSig) := [.proc false ⟨.newToken, fill 1⟩,
    .proc false ⟨.register (fill 1) authQuote, ()⟩, .proc true ⟨.call m, none⟩]
  have hrun : SessionRun lastByte trader
      (fun i : Bool => if i then .quote ⟨.zero 32, 1, true⟩ else .derive authQuote) log
      (Function.update (fun _ => none) (fill 1) (some ⟨authQuote, false⟩)) := by
    refine ⟨.cons rfl (.cons rfl (.cons rfl (.nil _))), fun i => Prog.reach_of_follow ?_⟩
    cases i <;> decide
  have hfresh : Fresh log := by
    intro pre i t bits post hlog l hl
    match pre with
    | [] => cases hl
    | [a] =>
      obtain ⟨rfl, -⟩ := List.cons.inj hlog
      cases List.mem_singleton.mp hl
      exact not_false
    | a :: b :: pre =>
      obtain ⟨-, h₁⟩ := List.cons.inj hlog
      obtain ⟨-, h₂⟩ := List.cons.inj h₁
      match pre with
      | [] => cases h₂
      | c :: pre => simp at h₂
  have hresult := calls_within_grant lastByte trader _ log _ hrun
  refine ⟨log, _, m, hrun, by simp [log], hresult.1 true m none (by simp [log]), ?_⟩
  refine ((hresult.2 hfresh authQuote).1 ⟨fill 1, authQuote⟩).mpr
    ⟨by decide, ⟨authQuote, ⟨false, by simp [log]⟩, by decide⟩, ?_⟩
  rintro ⟨i, hi⟩
  simp [log] at hi

end Zap.Dex
