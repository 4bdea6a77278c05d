/-
# Zap.Dex.Capability — what a capability allows.

A capability is a token in a table of grants. Its check reads the table once; the operations of the session
underneath do not look at the table but at the session's own grant.
-/
import Zap.Dex.V4

namespace Zap.Dex

open Zap.Lib Zap.Wire Proc
open Prog (Ensures)

/-! ## Checks -/

section Checks

variable {sha256 : List UInt8 → ID} {ok : Ev dexSig → Prop} {need : Authority}

def checkResult (need : Authority) : Option Grant → Except DexError Unit
  | none => .error .noAuthority
  | some g =>
    if g.revoked then .error .revoked
    else if g.bits &&& need ≠ need then .error .noAuthority
    else .ok ()

theorem checkResult_ok {x : Option Grant} :
    checkResult need x = .ok () ↔ ∃ g, x = some g ∧ g.revoked = false ∧ g.bits &&& need = need := by
  cases x with
  | none => simp [checkResult]
  | some g =>
    simp only [checkResult]
    split_ifs with hrev hbits
    · simp [hrev]
    · simp [hbits]
    · simpa [hrev] using hbits

variable {Q : Except DexError Unit → Prop} {t : Token} {c : Session.CapCore} {want : V4ActionScope}

theorem Session.ensures_checkGrant :
    Ensures ok Q (Session.checkGrant t need).run ↔ ∀ x, ok ⟨DexReq.lookup t, x⟩ → Q (checkResult need x) := by
  refine ensures_bind.trans (ensures_ask.trans (forall_congr' fun x => imp_congr_right fun _ => ?_))
  cases x with
  | none => exact Iff.rfl
  | some g =>
    simp only [checkResult]
    split_ifs <;> exact Iff.rfl

theorem Session.CapCore.ensures_authorize :
    Ensures ok Q (c.authorize need).run ↔
      if c.bits &&& need = need then ∀ x, ok ⟨DexReq.lookup c.tok, x⟩ → Q (checkResult need x)
      else Q (.error .noAuthority) := by
  unfold Session.CapCore.authorize
  by_cases h : c.bits &&& need = need
  · rw [if_neg (not_not.mpr h), if_pos h]
    exact Session.ensures_checkGrant
  · rw [if_pos h, if_neg h]
    exact Iff.rfl

def scopedResult (need : Authority) (fits : Bool) (x : Option Grant) : Except DexError Unit := do
  checkResult need x
  if fits then .ok () else .error .scopeMismatch

theorem ScopedCap.ensures_authorizeScoped {c : ScopedCap} :
    Ensures ok Q (c.authorizeScoped sha256 need want).run ↔
      if c.sessionID = .zero 32 then Q (.error .scopeUnset)
      else if c.core.bits &&& need = need then
        ∀ x, ok ⟨DexReq.lookup c.core.tok, x⟩ → Q (scopedResult need (deriveSessionID sha256 want = c.sessionID) x)
      else Q (.error .noAuthority) := by
  unfold ScopedCap.authorizeScoped
  by_cases hset : c.sessionID = .zero 32
  · rw [if_pos hset, if_pos hset]
    exact Iff.rfl
  rw [if_neg hset, if_neg hset]
  by_cases hbits : c.core.bits &&& need = need
  · rw [if_pos hbits]
    refine ensures_bind.trans (Session.CapCore.ensures_authorize.trans ?_)
    rw [if_pos hbits]
    refine forall_congr' fun x => imp_congr_right fun _ => ?_
    unfold scopedResult
    cases checkResult need x with
    | error e => exact Iff.rfl
    | ok u =>
      by_cases hfits : deriveSessionID sha256 want = c.sessionID
      · simp only [hfits, ne_eq, not_true_eq_false, if_false, decide_true]
        exact Iff.rfl
      · simp only [hfits, ne_eq, not_false_eq_true, if_true, decide_false]
        exact Iff.rfl
  · rw [if_neg hbits]
    refine ensures_bind.trans (Session.CapCore.ensures_authorize.trans ?_)
    rw [if_neg hbits]

variable {tr : List (Ev dexSig)} {u : Unit}

theorem Session.yields_checkGrant :
    Yields (Session.checkGrant t need) tr u ↔
      ∃ g, tr = [⟨DexReq.lookup t, some g⟩] ∧ g.revoked = false ∧ g.bits &&& need = need := by
  constructor
  · intro h
    obtain ⟨tr1, tr2, x, rfl, hx, hg⟩ := yields_bind.mp h
    obtain rfl := yields_ask.mp hx
    cases x with
    | none => exact absurd hg yields_throw
    | some g =>
      simp only at hg
      split_ifs at hg with hrev hbits
      · exact absurd hg yields_throw
      · exact absurd hg yields_throw
      · obtain ⟨rfl, -⟩ := yields_pure.mp hg
        exact ⟨g, rfl, by simpa using hrev, not_not.mp hbits⟩
  · rintro ⟨g, rfl, hrev, hbits⟩
    refine yields_bind.mpr ⟨_, [], some g, rfl, yields_ask.mpr rfl, ?_⟩
    simp only [hrev, hbits, ne_eq, not_true_eq_false, if_false, Bool.false_eq_true]
    exact yields_pure.mpr ⟨rfl, rfl⟩

theorem Session.CapCore.yields_authorize :
    Yields (c.authorize need) tr u ↔
      c.bits &&& need = need ∧
        ∃ g, tr = [⟨DexReq.lookup c.tok, some g⟩] ∧ g.revoked = false ∧ g.bits &&& need = need := by
  unfold Session.CapCore.authorize
  rw [yields_refuse, not_not, Session.yields_checkGrant]

/-- **A scoped check that succeeds**: the capability is bound, its bits and those of its grant include the
need, the grant is not revoked, and the wanted scope hashes to the bound session id. -/
theorem ScopedCap.yields_authorizeScoped {c : ScopedCap} :
    Yields (c.authorizeScoped sha256 need want) tr u ↔
      c.sessionID ≠ .zero 32 ∧ deriveSessionID sha256 want = c.sessionID ∧ c.core.bits &&& need = need ∧
        ∃ g, tr = [⟨DexReq.lookup c.core.tok, some g⟩] ∧ g.revoked = false ∧ g.bits &&& need = need := by
  unfold ScopedCap.authorizeScoped
  simp only [yields_refuse, yields_bind, Session.CapCore.yields_authorize, yields_pure, not_not, existsAndEq,
    exists_const, true_and, and_true, List.append_nil]
  exact and_congr_right fun _ => and_comm

end Checks

end Zap.Dex
