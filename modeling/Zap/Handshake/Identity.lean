/-
# Zap.Handshake.Identity — static ML-DSA-65 identities and AUTH signatures (`handshake/identity.go`).

An identity is built by hand as easily as by the constructors of the package, so its two keys are
independent optional fields: a pinned peer has no private key, and nothing ties a private key to the
public key beside it. The sign input is unambiguous (`signInput_inj`): suite, digest and role can be read
off the message, which is what keeps an initiator's signature from passing for a responder's.
-/
import Zap.Handshake.Transcript

namespace Zap.Handshake

open Zap.Lib Zap.Lib.Proc

structure Identity (C : Prims) where
  publicKey : Option C.SigPub
  privateKey : Option C.SigSec

variable {C : Prims}

/-! ## Public keys -/

def Identity.idValue (id : Identity C) : Arr idLen :=
  match id.publicKey with
  | none => .zero _
  | some pk => C.sha3 (C.sigPubBytes pk)

def Identity.id (id : Identity C) : M C (Arr idLen) :=
  match id.publicKey with
  | none => pure (.zero _)
  | some pk => sum256 (C.sigPubBytes pk)

/-- An identity that can sign: `Local == nil || Local.PrivateKey == nil` is what both sides refuse. -/
def signer (id : Option (Identity C)) : Option (Identity C) := id.filter fun i => i.privateKey.isSome

variable {me id : Identity C}

theorem signer_eq_some {id : Option (Identity C)} : signer id = some me ↔ id = some me ∧ me.privateKey.isSome = true :=
  Option.filter_eq_some_iff

def Identity.publicBytes (id : Identity C) : Bytes :=
  match id.publicKey with
  | none => []
  | some pk => C.sigPubBytes pk

@[simp]
theorem Identity.idValue_some (pk : C.SigPub) (sk : Option C.SigSec) :
    (Identity.mk (some pk) sk).idValue = C.sha3 (C.sigPubBytes pk) := rfl

def identityFromPublicBytes (pub : Bytes) : Except String (Identity C) := do
  let pk ← C.sigPubOfBytes pub
  pure { publicKey := some pk, privateKey := none }

def Identity.idEvs (id : Identity C) : List (Event C) :=
  match id.publicKey with
  | none => []
  | some pk => [hashEv (C.sigPubBytes pk)]

theorem id_yields {tr : List (Event C)} {h : Arr idLen} : Yields id.id tr h ↔ tr = id.idEvs ∧ h = id.idValue := by
  unfold Identity.id Identity.idEvs Identity.idValue
  cases id.publicKey with
  | none =>
    rw [yields_pure]
    exact and_congr_right fun _ => eq_comm
  | some pk => exact sum256_yields

@[simp]
theorem inBytes_idEvs (id : Identity C) : inBytes id.idEvs = [] := by
  unfold Identity.idEvs
  cases id.publicKey <;> rfl

@[simp]
theorem outBytes_idEvs (id : Identity C) : outBytes id.idEvs = [] := by
  unfold Identity.idEvs
  cases id.publicKey <;> rfl

theorem identityFromPublicBytes_ok {pub : Bytes} :
    identityFromPublicBytes pub = .ok id ↔ ∃ pk, C.sigPubOfBytes pub = .ok pk ∧ id = ⟨some pk, none⟩ := by
  unfold identityFromPublicBytes
  cases C.sigPubOfBytes pub with
  | error e => simp [bind, Except.bind]
  | ok pk => simp [bind, Except.bind, pure, Except.pure, eq_comm]

/-! ## Signatures -/

/-- `LBL_PROTOCOL ∥ 0x00 ∥ suite ∥ 0x00 ∥ H_2 ∥ role label`. -/
def signInput (h2 : Arr transcriptLen) (role : AuthRole) (suite : SuiteID) : Bytes :=
  lblProtocol ++ ([0x00, suite.byte, 0x00] ++ (h2.bytes ++ role.label))

def Identity.sign (id : Identity C) (h2 : Arr transcriptLen) (role : AuthRole) (suite : SuiteID) : M C Bytes :=
  match id.privateKey with
  | none => throw (.other "zap-pq: identity has no private key")
  | some sk => do
    let r : Except String Bytes ← call (.sign sk (signInput h2 role suite) signCtx)
    let sig ← liftExcept .other r
    if sig.length ≠ mldsa65SigLen then
      throw (.other "zap-pq: unexpected ML-DSA signature length")
    else pure sig

def Identity.verifyAuth (id : Identity C) (h2 : Arr transcriptLen) (role : AuthRole)
    (suite : SuiteID) (sig : Bytes) : M C Unit :=
  match id.publicKey with
  | none => throw (.sentinel .authFailed)
  | some pk =>
    if sig.length ≠ mldsa65SigLen then throw (.sentinel .authFailed)
    else do
      let ok : Bool ← call (.verify pk (signInput h2 role suite) sig signCtx)
      if ok then pure () else throw (.sentinel .authFailed)

def signEv (sk : C.SigSec) (msg sig : Bytes) : Event C := ⟨.sign sk msg signCtx, .ok sig⟩

def verifyEv (pk : C.SigPub) (msg sig : Bytes) : Event C := ⟨.verify pk msg sig signCtx, true⟩

section Signatures

variable {id : Identity C} {h2 : Arr transcriptLen} {role : AuthRole} {suite : SuiteID} {sig : Bytes}
  {tr : List (Event C)}

theorem sign_yields :
    Yields (id.sign h2 role suite) tr sig ↔ ∃ sk, id.privateKey = some sk ∧
      sig.length = mldsa65SigLen ∧ tr = [signEv sk (signInput h2 role suite) sig] := by
  unfold Identity.sign
  cases id.privateKey with
  | none => simpa using yields_throw
  | some sk =>
    have hcall : ∀ {tr r}, Yields (α := Except String Bytes) (call (.sign sk (signInput h2 role suite) signCtx))
        tr r ↔ tr = [⟨.sign sk (signInput h2 role suite) signCtx, r⟩] := call_yields
    simp only [yields_bind, hcall, liftExcept_yields, yields_refuse, yields_pure, not_not, existsAndEq, true_and,
      and_true, List.append_nil]
    exact ⟨fun h => ⟨sk, rfl, h.2, h.1⟩, fun ⟨_, hsk, hlen, htr⟩ => ⟨by cases hsk; exact htr, hlen⟩⟩

theorem verifyAuth_yields {u : Unit} :
    Yields (id.verifyAuth h2 role suite sig) tr u ↔ ∃ pk, id.publicKey = some pk ∧
      sig.length = mldsa65SigLen ∧ tr = [verifyEv pk (signInput h2 role suite) sig] := by
  unfold Identity.verifyAuth
  cases id.publicKey with
  | none => simpa using yields_throw
  | some pk =>
    dsimp only
    rw [yields_refuse, not_not, yields_bind]
    constructor
    · rintro ⟨hlen, tr1, tr2, ok, rfl, hcall, h⟩
      obtain rfl := call_yields.mp hcall
      split at h
      · rename_i hok
        obtain ⟨rfl, -⟩ := yields_pure.mp h
        obtain rfl : ok = true := hok
        exact ⟨pk, rfl, hlen, rfl⟩
      · exact absurd h yields_throw
    · rintro ⟨_, ⟨⟩, hlen, rfl⟩
      exact ⟨hlen, [_], [], true, rfl, call_yields.mpr rfl, yields_pure.mpr ⟨rfl, rfl⟩⟩

/-- **The sign input is unambiguous**: suite, digest and role label are determined by the message. -/
theorem signInput_inj {h2' : Arr transcriptLen} {role' : AuthRole} {suite' : SuiteID}
    (h : signInput h2 role suite = signInput h2' role' suite') :
    h2 = h2' ∧ role.label = role'.label ∧ suite = suite' := by
  have htail := List.append_cancel_left h
  simp only [List.cons_append, List.nil_append, List.cons.injEq, true_and] at htail
  obtain ⟨hbytes, hlabel⟩ := append_split (h2.len.trans h2'.len.symm) htail.2
  exact ⟨Arr.bytes_injective hbytes, hlabel, congrArg SuiteID.mk htail.1⟩

theorem role_labels_ne : roleInitiator.label ≠ roleResponder.label := by
  decide

end Signatures

/-! ## The AUTH exchange -/

def sendAuth (me : Identity C) (h2 : Arr transcriptLen) (role : AuthRole) (suite : SuiteID) :
    M C Unit := do
  let mySig ← orAlertWith (fun e => .wrap .authFailed ("sign: " ++ e.error)) (me.sign h2 role suite)
  let myAuthBody ← orAlert (AuthFrame.encode { role := role, signature := mySig })
  writeFrame frameAuth myAuthBody

/-- Read the peer's AUTH frame, which must carry `role`, and verify it; `want` opens the error for a
frame of another role. -/
def readAuth (peer : Identity C) (h2 : Arr transcriptLen) (role : AuthRole) (want : String)
    (suite : SuiteID) : M C Unit := do
  let authBody ← expectFrame frameAuth
  let auth ← orAlert (decodeAuth authBody)
  refuseIf (auth.role ≠ role) (.wrap .authFailed (want ++ hex02 auth.role.byte))
  orAlertWith (fun e => e) (peer.verifyAuth h2 role suite auth.signature)

section Auth

variable {h2 : Arr transcriptLen} {role : AuthRole} {suite : SuiteID} {tr : List (Event C)} {u : Unit}

theorem sendAuth_yields (hrole : role = roleInitiator ∨ role = roleResponder) :
    Yields (sendAuth me h2 role suite) tr u ↔ ∃ sk sig, me.privateKey = some sk ∧
      sig.length = mldsa65SigLen ∧ tr = [signEv sk (signInput h2 role suite) sig,
        wrote frameAuth (role.byte :: sig) none] := by
  unfold sendAuth
  have henc : ∀ {sig body}, AuthFrame.encode ⟨role, sig⟩ = .ok body ↔
      sig.length = mldsa65SigLen ∧ body = role.byte :: sig := encode_auth_ok hrole
  simp only [yields_bind, orAlertWith_yields, sign_yields, orAlert_yields, henc, writeFrame_yields, existsAndEq,
    true_and, and_true]
  constructor
  · rintro ⟨sig, sk, rfl, ⟨hsk, hlen⟩, -⟩
    exact ⟨sk, sig, hsk, hlen, rfl⟩
  rintro ⟨sk, sig, hsk, hlen, rfl⟩
  have hfit : (role.byte :: sig).length ≤ maxFrameBody := by
    rw [List.length_cons, hlen]
    decide
  exact ⟨sig, sk, rfl, ⟨hsk, hlen⟩, hlen, hfit⟩

theorem decodeAuth_ok {body : Bytes} {a : AuthFrame} (h : decodeAuth body = .ok a) :
    body = a.role.byte :: a.signature ∧ a.signature.length = mldsa65SigLen := by
  unfold decodeAuth at h
  split at h
  · cases h
  rename_i hlen
  have hlen := not_not.mp hlen
  dsimp only at h
  split at h
  · cases h
  cases h
  cases body with
  | nil => simp at hlen
  | cons b rest =>
    refine ⟨rfl, ?_⟩
    rw [List.length_cons, Nat.add_comm] at hlen
    exact Nat.add_left_cancel hlen

theorem readAuth_yields {peer : Identity C} {want : String}
    (hrole : role = roleInitiator ∨ role = roleResponder) :
    Yields (readAuth peer h2 role want suite) tr u ↔ ∃ pk sig, peer.publicKey = some pk ∧
      sig.length = mldsa65SigLen ∧ tr = frameReads frameAuth (role.byte :: sig) ++
        [verifyEv pk (signInput h2 role suite) sig] := by
  have hwant : frameAuth ≠ frameAlert := by decide
  unfold readAuth
  simp only [yields_bind, expectFrame_yields hwant, orAlert_yields, refuseIf_yields, orAlertWith_yields,
    verifyAuth_yields, existsAndEq, true_and, and_true, not_not]
  constructor
  · rintro ⟨body, auth, -, pk, rfl, -, hdec, rfl, hpk, hlen⟩
    obtain ⟨rfl, -⟩ := decodeAuth_ok hdec
    exact ⟨pk, auth.signature, hpk, hlen, rfl⟩
  rintro ⟨pk, sig, hpk, hlen, rfl⟩
  have hfit : (role.byte :: sig).length ≤ maxFrameBody := by
    rw [List.length_cons, hlen]
    decide
  exact ⟨_, ⟨role, sig⟩, (), pk, rfl, hfit, decodeAuth_cons hlen hrole, rfl, hpk, hlen⟩

variable {bad : Req C → Prop}

theorem id_avoids (hb : Special bad) (id : Identity C) : Avoids bad id.id := by
  unfold Identity.id
  cases id.publicKey with
  | none => exact avoids_pure
  | some pk => exact sum256_avoids hb _

theorem readAuth_avoids (hb : Special bad) (peer : Identity C)
    (hverify : ∀ pk ∈ peer.publicKey, ∀ msg sig ctx, ¬bad (.verify pk msg sig ctx)) (h2 : Arr transcriptLen)
    (role : AuthRole) (want : String) (suite : SuiteID) : Avoids bad (readAuth peer h2 role want suite) := by
  refine (expectFrame_avoids hb _).bind fun _ => ?_
  refine (orAlert_avoids hb _).bind fun auth => ?_
  refine (refuseIf_avoids hb _ _).bind fun _ => orAlertWith_avoids hb ?_
  unfold Identity.verifyAuth
  cases hkey : peer.publicKey with
  | none => exact avoids_throw
  | some pk =>
    dsimp only
    split
    · exact avoids_throw
    · refine (call_avoids (hverify pk hkey _ _ _)).bind fun ok => ?_
      split
      · exact avoids_pure
      · exact avoids_throw

theorem sendAuth_avoids (hb : Special bad) (me : Identity C) (h2 : Arr transcriptLen) (role : AuthRole)
    (suite : SuiteID) (hsign : ∀ sk ∈ me.privateKey, ¬bad (.sign sk (signInput h2 role suite) signCtx)) :
    Avoids bad (sendAuth me h2 role suite) := by
  refine (orAlertWith_avoids hb ?_).bind fun sig => ?_
  · unfold Identity.sign
    cases hkey : me.privateKey with
    | none => exact avoids_throw
    | some sk =>
      refine (call_avoids (hsign sk hkey)).bind fun r => ?_
      refine (liftExcept_avoids _).bind fun sig => ?_
      split
      · exact avoids_throw
      · exact avoids_pure
  · exact (orAlert_avoids hb _).bind fun _ => writeFrame_avoids hb _ _

end Auth

end Zap.Handshake
