/-
# Zap.Forwarding.Relay — the gateway relay (`relay.go`): decode, gate, encode again.

A gate may change the envelope in place, deny it or fail; an allowed envelope is built again and sent to
the backend its path picks. `relay` stops at that call.

A gate that leaves some of the identity fields alone leaves them to the client (`relay_same_iff`).
-/
import Zap.Forwarding.Envelope

namespace Zap.Forwarding

open Zap.Lib Zap.Wire

/-! ## The relay -/

inductive Verdict (E : Type)
  | allow
  | deny (r : Response)
  | fail (e : E)
  deriving DecidableEq

/-- `Gate`: its verdict, and the envelope as it leaves it. -/
abbrev Gate (E : Type) := Forward → Verdict E × Forward

/-- What the relay's handler does in the end: call a backend, or return. -/
inductive Relayed (E : Type)
  | call (peer : Str) (msg : Message)
  | reply (r : Except WireError Message)
  | failed (e : E)
  | unbuilt (e : WireError)

def relay {E : Type} (gate : Gate E) (pick : Str → Str) (msg : Message) : Go (Relayed E) := do
  let f ← readForward msg
  match gate f with
  | (.fail e, _) => return .failed e
  | (.deny r, _) => return .reply (← buildResponse r)
  | (.allow, f) =>
    match ← buildForward f with
    | .error e => return .unbuilt e
    | .ok augmented => return .call (pick f.path) augmented

/-- What the relay sends a backend, if anything: a handler that faults sends nothing. -/
def sentBy {E : Type} (gate : Gate E) (pick : Str → Str) (msg : Message) : Option (Str × Message) :=
  match relay gate pick msg with
  | .ok (.call peer augmented) => some (peer, augmented)
  | _ => none

/-! ## Fields a gate leaves alone -/

inductive IdentityField
  | tenantID
  | userID
  | isAdmin
  | permissions

def IdentityField.Agree (x : IdentityField) (f g : Forward) : Prop :=
  match x with
  | .tenantID => f.tenantID = g.tenantID
  | .userID => f.userID = g.userID
  | .isAdmin => f.isAdmin = g.isAdmin
  | .permissions => f.permissions = g.permissions

/-- Two envelopes differ at most in the identity fields of `S`. -/
structure AgreeOutside (S : IdentityField → Prop) (f g : Forward) : Prop where
  method : f.method = g.method
  path : f.path = g.path
  headers : f.headers = g.headers
  body : f.body = g.body
  connID : f.connID = g.connID
  identity : ∀ x, ¬S x → x.Agree f g

/-- The gate neither reads nor writes the fields of `S`. -/
structure Ignores {E : Type} (gate : Gate E) (S : IdentityField → Prop) : Prop where
  /-- envelopes that differ in `S` alone get one verdict, and still differ in `S` alone -/
  reads : ∀ {f g}, AgreeOutside S f g → (gate f).1 = (gate g).1 ∧ AgreeOutside S (gate f).2 (gate g).2
  /-- a field of `S` leaves the gate as it came -/
  writes : ∀ f x, S x → x.Agree (gate f).2 f

section Agree

variable {S : IdentityField → Prop} {f g : Forward}

theorem AgreeOutside.eq (h : AgreeOutside S f g) (hS : ∀ x, S x → x.Agree f g) : f = g := by
  have hall : ∀ x : IdentityField, x.Agree f g := fun x =>
    (Classical.em (S x)).elim (hS x) (h.identity x)
  exact Forward.ext (hall .tenantID) (hall .userID) (hall .isAdmin) (hall .permissions) h.method h.path
    h.headers h.body h.connID

theorem IdentityField.Agree.symm {x : IdentityField} (h : x.Agree f g) : x.Agree g f := by
  cases x <;> exact Eq.symm h

theorem IdentityField.Agree.trans {x : IdentityField} {k : Forward} (h : x.Agree f g) (h' : x.Agree g k) :
    x.Agree f k := by
  cases x <;> exact Eq.trans h h'

end Agree

/-! ## What the backend gets -/

section Sent

variable {E : Type} {gate : Gate E} {pick : Str → Str} {m m' : Message} {f g : Forward}

theorem sentBy_refused (hread : readForward m = .ok f) (hgate : (gate f).1 ≠ .allow) :
    sentBy gate pick m = none := by
  rw [sentBy, relay, hread, go_bind_ok]
  rcases hv : gate f with ⟨verdict, f'⟩
  rw [hv] at hgate
  cases verdict with
  | allow => exact absurd rfl hgate
  | fail e => rfl
  | deny r =>
    simp only
    cases buildResponse r <;> rfl

theorem sentBy_allowed (hread : readForward m = .ok f) (hgate : (gate f).1 = .allow)
    (hfits : (gate f).2.Fits) :
    ∃ augmented, sentBy gate pick m = some (pick (gate f).2.path, augmented) ∧
      readForward augmented = .ok (gate f).2 ∧ buildForward (gate f).2 = .ok (.ok augmented) := by
  obtain ⟨augmented, hbuild, -, -, hback⟩ := forward_carries _ hfits.lt
  refine ⟨augmented, ?_, hback, hbuild⟩
  rw [sentBy, relay, hread, go_bind_ok]
  rcases hv : gate f with ⟨verdict, f'⟩
  rw [hv] at hgate hbuild
  subst hgate
  simp only [hbuild, go_bind_ok, go_pure]

/-- **What the client gains**: two envelopes that differ only in identity fields the gate leaves alone are
relayed alike exactly when the gate refuses them or they do not differ at all. -/
theorem relay_same_iff {S : IdentityField → Prop} (hgate : Ignores gate S) (hf : readForward m = .ok f)
    (hg : readForward m' = .ok g) (hsame : AgreeOutside S f g) (hfits : (gate f).2.Fits)
    (hfits' : (gate g).2.Fits) :
    sentBy gate pick m = sentBy gate pick m' ↔
      (gate f).1 ≠ .allow ∨ ∀ x, S x → x.Agree f g := by
  obtain ⟨hverdict, hout⟩ := hgate.reads hsame
  by_cases hallow : (gate f).1 = .allow
  · obtain ⟨a, hsent, hread, hbuild⟩ := @sentBy_allowed E gate pick m f hf hallow hfits
    obtain ⟨a', hsent', hread', hbuild'⟩ :=
      @sentBy_allowed E gate pick m' g hg (hverdict ▸ hallow) hfits'
    rw [hsent, hsent']
    constructor
    · intro heq
      simp only [Option.some.injEq, Prod.mk.injEq] at heq
      have hforward : (gate f).2 = (gate g).2 := by
        rw [heq.2, hread', Except.ok.injEq] at hread
        exact hread.symm
      refine .inr fun x hx => ?_
      -- the gate hands the field through on both sides
      have hthrough := (hgate.writes f x hx).symm
      rw [hforward] at hthrough
      exact hthrough.trans (hgate.writes g x hx)
    · rintro (hne | hagree)
      · exact absurd hallow hne
      · obtain rfl := hsame.eq hagree
        rw [hbuild, Except.ok.injEq, Except.ok.injEq] at hbuild'
        rw [hbuild']
  · have hallow' : (gate g).1 ≠ .allow := hverdict ▸ hallow
    rw [sentBy_refused hf hallow, sentBy_refused hg hallow']
    simp [hallow]

end Sent

def openGate : Gate Empty := fun f => (.allow, f)

theorem openGate_ignores (S : IdentityField → Prop) : Ignores openGate S where
  reads h := ⟨rfl, h⟩
  writes f x _ := by cases x <;> rfl

/-- A request of no tenant, with the admin flag as the client likes it. -/
def clientForward (isAdmin : Bool) : Forward where
  tenantID := []
  userID := []
  isAdmin := isAdmin
  permissions := 0
  method := []
  path := []
  headers := []
  body := []
  connID := []

theorem clientForward_fits (isAdmin : Bool) : (clientForward isAdmin).Fits := by
  unfold Forward.Fits
  cases isAdmin <;> decide

theorem clientForward_agree : AgreeOutside (· = .isAdmin) (clientForward true) (clientForward false) := by
  refine ⟨rfl, rfl, rfl, rfl, rfl, fun x hx => ?_⟩
  cases x
  case isAdmin => exact absurd rfl hx
  all_goals rfl

/-- A gate that asserts the tenant, and lets every request pass or none. -/
def tenantGate (pass : Bool) : Gate Unit := fun f =>
  (if pass then .allow else .fail (), { f with tenantID := str "tenant" })

theorem tenantGate_ignores (pass : Bool) : Ignores (tenantGate pass) (· = .isAdmin) where
  reads h := by
    refine ⟨rfl, h.method, h.path, h.headers, h.body, h.connID, fun x hx => ?_⟩
    cases x
    case tenantID => rfl
    all_goals exact h.identity _ hx
  writes f x hx := by
    subst hx
    rfl

/-- Behind a gate that asserts the tenant, a client's admin flag makes a difference exactly if the gate lets the
request pass. -/
theorem tenantGate_same_iff :
    ∃ m m' : Message, readForward m = .ok (clientForward true) ∧ readForward m' = .ok (clientForward false) ∧
      sentBy (tenantGate true) id m ≠ sentBy (tenantGate true) id m' ∧
      sentBy (tenantGate false) id m = sentBy (tenantGate false) id m' := by
  obtain ⟨m, -, -, -, hread⟩ := forward_carries _ (clientForward_fits true).lt
  obtain ⟨m', -, -, -, hread'⟩ := forward_carries _ (clientForward_fits false).lt
  have hiff : ∀ pass, sentBy (tenantGate pass) id m = sentBy (tenantGate pass) id m' ↔
      (tenantGate pass (clientForward true)).1 ≠ .allow ∨
        ∀ x : IdentityField, x = .isAdmin → x.Agree (clientForward true) (clientForward false) := by
    intro pass
    refine relay_same_iff (tenantGate_ignores pass) hread hread' clientForward_agree ?_ ?_
    all_goals
      unfold Forward.Fits
      cases pass <;> decide
  refine ⟨m, m', hread, hread', fun h => ?_, (hiff false).mpr (.inl (by simp [tenantGate]))⟩
  rcases (hiff true).mp h with hdenied | hagree
  · exact hdenied rfl
  · exact Bool.noConfusion (hagree .isAdmin rfl)

/-- A client that fills in the admin flag itself has it relayed. -/
theorem admin_relayed :
    ∃ m m' : Message, readForward m = .ok (clientForward true) ∧
      readForward m' = .ok (clientForward false) ∧ Ignores openGate (· = .isAdmin) ∧
      AgreeOutside (· = .isAdmin) (clientForward true) (clientForward false) ∧
      sentBy openGate id m ≠ sentBy openGate id m' := by
  obtain ⟨m, -, -, -, hread⟩ := forward_carries _ (clientForward_fits true).lt
  obtain ⟨m', -, -, -, hread'⟩ := forward_carries _ (clientForward_fits false).lt
  refine ⟨m, m', hread, hread', openGate_ignores _, clientForward_agree, ?_⟩
  obtain ⟨a, hsent, hback, -⟩ := @sentBy_allowed Empty openGate id m _ hread rfl (clientForward_fits true)
  obtain ⟨a', hsent', hback', -⟩ := @sentBy_allowed Empty openGate id m' _ hread' rfl (clientForward_fits false)
  rw [hsent, hsent']
  intro heq
  simp only [Option.some.injEq, Prod.mk.injEq] at heq
  rw [heq.2, hback', Except.ok.injEq] at hback
  exact absurd (congrArg Forward.isAdmin hback) (by decide)

end Zap.Forwarding
