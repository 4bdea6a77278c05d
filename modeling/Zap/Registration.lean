/-
# Zap.Registration — VM registrations and their verification (`identity_pq.go`).

A registration binds a VM's ML-DSA-65 key to its id. `VerifyRegistration` has two modes, one for the first
registration of an id and one for a rotation, where the key in force must have signed for the new one. But the
id is the hash of the key, and the check that ties them (`verify_ok`) comes before the mode is looked at. So a
registration of an id that is taken passes in neither mode unless it carries the key that is there already
(`rotation_iff`): nothing can be rotated without consent, because nothing can be rotated.

Signature verification is a parameter, as the hash is; nothing is assumed of it.
-/
import Zap.Handshake.Kdf

namespace Zap.Registration

open Zap.Lib Zap.Handshake

/-! ## `VerifyRegistration` -/

structure VMRegistration where
  vmID : Arr 32
  vmPubKey : Bytes
  authoritySig : Bytes
  prevVMSig : Bytes
  prevVMPubKey : Bytes

/-- The mode is an `int`; two values are named. -/
structure RegistrationMode where
  value : Int
  deriving DecidableEq

def modeInitial : RegistrationMode := ⟨0⟩
def modeRotation : RegistrationMode := ⟨1⟩

inductive RegErr
  /-- `ErrRegistrationMalformed`, with its detail if it has one. -/
  | malformed (detail : Option String)
  /-- A sentinel of the handshake package. -/
  | handshake (e : Err)
  /-- An error of the signature library. -/
  | library (msg : String)
  deriving DecidableEq

def VMRegistration.payload (reg : VMRegistration) : Bytes := reg.vmID.bytes ++ reg.vmPubKey

section Verify

variable {C : Prims} (verify : C.SigPub → (msg sig ctx : Bytes) → Bool)

def checkMode (reg : VMRegistration) (mode : RegistrationMode) : Except RegErr Unit :=
  if mode = modeInitial then
    if reg.prevVMSig.length ≠ 0 ∨ reg.prevVMPubKey.length ≠ 0 then
      .error (.malformed (some "PrevVMSig/PrevVMPubKey present under ModeInitial"))
    else .ok ()
  else if mode = modeRotation then
    if reg.prevVMPubKey.length ≠ mldsa65PubLen then
      .error (.malformed (some s!"PrevVMPubKey length {reg.prevVMPubKey.length} under ModeRotation"))
    else if reg.prevVMSig.length ≠ mldsa65SigLen then
      .error (.malformed (some s!"PrevVMSig length {reg.prevVMSig.length} under ModeRotation"))
    else
      match C.sigPubOfBytes reg.prevVMPubKey with
      | .error e => .error (.malformed (some s!"PrevVMPubKey: {e}"))
      | .ok prev =>
        if !verify prev reg.payload reg.prevVMSig signCtx then
          .error (.handshake (.sentinel .authoritySigFailed))
        else .ok ()
  else .error (.malformed (some s!"unknown RegistrationMode {mode.value}"))

def verifyRegistration (reg : Option VMRegistration) (chainAuthority : Option C.SigPub)
    (mode : RegistrationMode) : Except RegErr C.SigPub :=
  match reg with
  | none => .error (.malformed none)
  | some reg =>
    if reg.vmPubKey.length ≠ mldsa65PubLen then
      .error (.malformed (some s!"VMPubKey length {reg.vmPubKey.length}"))
    else if reg.authoritySig.length ≠ mldsa65SigLen then
      .error (.malformed (some s!"AuthoritySig length {reg.authoritySig.length}"))
    else
      match chainAuthority with
      | none => .error (.malformed (some "nil chain authority"))
      | some authority =>
        if reg.vmID ≠ C.sha3 reg.vmPubKey then
          .error (.handshake (.wrap .vmIdentityMismatch "VMID ≠ SHA3-256(VMPubKey)"))
        else if !verify authority reg.payload reg.authoritySig signCtx then
          .error (.handshake (.sentinel .authoritySigFailed))
        else
          match checkMode verify reg mode with
          | .error e => .error e
          | .ok _ => (C.sigPubOfBytes reg.vmPubKey).mapError .library

variable {verify} {reg : VMRegistration} {authority : C.SigPub} {mode : RegistrationMode} {pk : C.SigPub}

theorem verify_ok :
    verifyRegistration verify (some reg) (some authority) mode = .ok pk ↔
      reg.vmPubKey.length = mldsa65PubLen ∧ reg.authoritySig.length = mldsa65SigLen ∧
        reg.vmID = C.sha3 reg.vmPubKey ∧ verify authority reg.payload reg.authoritySig signCtx = true ∧
        checkMode verify reg mode = .ok () ∧ C.sigPubOfBytes reg.vmPubKey = .ok pk := by
  simp only [verifyRegistration]
  split_ifs with hkey hsig hid hauth
  · simp [hkey]
  · simp [hsig]
  · simp [hid]
  · simp_all
  · rw [not_not] at hkey hsig hid
    simp only [Bool.not_eq_true] at hauth
    cases checkMode verify reg mode with
    | error e => simp
    | ok u => cases C.sigPubOfBytes reg.vmPubKey <;> simp_all [Except.mapError]

/-- The rotation a VM's owner and the chain authority agree on: the new key and id are well formed, and the
authority and the key in force have both signed. -/
structure Consented (verify : C.SigPub → (msg sig ctx : Bytes) → Bool) (authority : C.SigPub) (current : Bytes)
    (reg : VMRegistration) : Prop where
  key : reg.vmPubKey.length = mldsa65PubLen ∧ ∃ pk, C.sigPubOfBytes reg.vmPubKey = .ok pk
  approved : reg.authoritySig.length = mldsa65SigLen ∧ verify authority reg.payload reg.authoritySig signCtx = true
  previous : reg.prevVMPubKey = current ∧ current.length = mldsa65PubLen
  signed : reg.prevVMSig.length = mldsa65SigLen ∧
    ∃ prev, C.sigPubOfBytes current = .ok prev ∧ verify prev reg.payload reg.prevVMSig signCtx = true

theorem Consented.checkMode_eq {current : Bytes} (h : Consented verify authority current reg) :
    checkMode verify reg modeRotation = .ok () := by
  obtain ⟨hprev, hlen⟩ := h.previous
  obtain ⟨hsig, prev, hof, hverify⟩ := h.signed
  unfold checkMode
  rw [if_neg (by decide), if_pos rfl, hprev, if_neg (not_not.mpr hlen), if_neg (not_not.mpr hsig), hof]
  simp [hverify]

end Verify

/-! ## The registry -/

structure StaticVMRegistry where
  entries : Arr 32 → Option VMRegistration

def newStaticVMRegistry : StaticVMRegistry := ⟨fun _ => none⟩

def StaticVMRegistry.add (r : StaticVMRegistry) (reg : VMRegistration) : StaticVMRegistry :=
  ⟨Function.update r.entries reg.vmID (some reg)⟩

def StaticVMRegistry.lookup (r : StaticVMRegistry) (vmID : Arr 32) : Option VMRegistration := r.entries vmID

@[simp]
theorem lookup_add_self (r : StaticVMRegistry) (reg : VMRegistration) : (r.add reg).lookup reg.vmID = some reg :=
  Function.update_self ..

theorem lookup_add_of_ne (r : StaticVMRegistry) {reg : VMRegistration} {vmID : Arr 32} (h : vmID ≠ reg.vmID) :
    (r.add reg).lookup vmID = r.lookup vmID :=
  Function.update_of_ne h ..

section Loaded

variable {C : Prims} {verify : C.SigPub → (msg sig ctx : Bytes) → Bool} {authority : C.SigPub}

/-- A registry filled as the package asks of its callers: a registration is verified before it is added, as a
rotation if its id is taken. -/
inductive Loaded (verify : C.SigPub → (msg sig ctx : Bytes) → Bool) (authority : C.SigPub) :
    StaticVMRegistry → Prop
  | empty : Loaded verify authority newStaticVMRegistry
  | add {r : StaticVMRegistry} {reg : VMRegistration} {pk : C.SigPub} : Loaded verify authority r →
      verifyRegistration verify (some reg) (some authority)
        (if (r.lookup reg.vmID).isSome then modeRotation else modeInitial) = .ok pk →
      Loaded verify authority (r.add reg)

theorem Loaded.bound {r : StaticVMRegistry} (h : Loaded verify authority r) {vmID : Arr 32} {reg : VMRegistration}
    (hreg : r.lookup vmID = some reg) : vmID = C.sha3 reg.vmPubKey := by
  induction h with
  | empty => cases hreg
  | @add r reg' pk _ hok ih =>
    by_cases hid : vmID = reg'.vmID
    · subst hid
      rw [lookup_add_self] at hreg
      cases hreg
      exact (verify_ok.mp hok).2.2.1
    · rw [lookup_add_of_ne r hid] at hreg
      exact ih hreg

/-- **A taken id keeps its key.**  A VM is registered under an id with a key, and another registration of the id
comes in; the hash has no collision between the two keys. With all the signatures a rotation asks for it is
accepted just when it carries the key that is there already; and in no mode and with no signatures is one with
another key accepted. -/
theorem rotation_iff {r : StaticVMRegistry} (hload : Loaded verify authority r) {vmID : Arr 32}
    {current : VMRegistration} (hreg : r.lookup vmID = some current) {reg : VMRegistration}
    (hid : reg.vmID = vmID)
    (hcr : C.sha3 reg.vmPubKey = C.sha3 current.vmPubKey → reg.vmPubKey = current.vmPubKey) :
    (Consented verify authority current.vmPubKey reg →
      ((∃ pk, verifyRegistration verify (some reg) (some authority) modeRotation = .ok pk) ↔
        reg.vmPubKey = current.vmPubKey)) ∧
    ∀ mode pk, verifyRegistration verify (some reg) (some authority) mode = .ok pk →
      reg.vmPubKey = current.vmPubKey := by
  have hbound : reg.vmID = C.sha3 current.vmPubKey := hid.trans (hload.bound hreg)
  have hsame : ∀ mode pk, verifyRegistration verify (some reg) (some authority) mode = .ok pk →
      reg.vmPubKey = current.vmPubKey := by
    intro mode pk hok
    obtain ⟨-, -, hhash, -⟩ := verify_ok.mp hok
    exact hcr (hhash.symm.trans hbound)
  refine ⟨fun hcons => ⟨fun ⟨pk, hok⟩ => hsame _ pk hok, fun heq => ?_⟩, hsame⟩
  obtain ⟨hlen, pk, hof⟩ := hcons.key
  obtain ⟨hsig, hverify⟩ := hcons.approved
  exact ⟨pk, verify_ok.mpr ⟨hlen, hsig, heq ▸ hbound, hverify, hcons.checkMode_eq, hof⟩⟩

end Loaded

/-! ## A rotation that is refused -/

/-- Keys are tags, padded, and a key signs with its tag. -/
def sampleVerify (pk : samplePrims.SigPub) (_ sig _ : Bytes) : Bool := sig = (tagged mldsa65SigLen pk).bytes

/-- The VM's first registration, with key 1, approved by authority 9. -/
def sampleFirst : VMRegistration where
  vmID := samplePrims.sha3 (tagged mldsa65PubLen 1).bytes
  vmPubKey := (tagged mldsa65PubLen 1).bytes
  authoritySig := (tagged mldsa65SigLen 9).bytes
  prevVMSig := []
  prevVMPubKey := []

/-- The same id with the key of a tag, signed by authority 9 and key 1. -/
def sampleRotation (tag : UInt8) : VMRegistration :=
  { sampleFirst with
    vmPubKey := (tagged mldsa65PubLen tag).bytes
    prevVMSig := (tagged mldsa65SigLen 1).bytes
    prevVMPubKey := (tagged mldsa65PubLen 1).bytes }

def sampleRegistry : StaticVMRegistry := newStaticVMRegistry.add sampleFirst

theorem sampleKey_parses (tag : UInt8) : samplePrims.sigPubOfBytes (tagged mldsa65PubLen tag).bytes = .ok tag := by
  show sampleParse _ = _
  rw [sampleParse, tagged_head (by decide), if_pos rfl]
  rfl

theorem sampleVerify_tagged (pk : UInt8) (msg ctx : Bytes) :
    sampleVerify pk msg (tagged mldsa65SigLen pk).bytes ctx = true := by
  simp [sampleVerify]

theorem sampleRegistry_loaded : Loaded (C := samplePrims) sampleVerify (9 : UInt8) sampleRegistry := by
  suffices hok : verifyRegistration (C := samplePrims) sampleVerify (some sampleFirst) (some (9 : UInt8))
      modeInitial = .ok (1 : UInt8) from .add .empty hok
  decide +kernel

theorem sampleRotation_consented (tag : UInt8) :
    Consented (C := samplePrims) sampleVerify (9 : UInt8) sampleFirst.vmPubKey (sampleRotation tag) where
  key := ⟨(tagged mldsa65PubLen tag).len, tag, sampleKey_parses tag⟩
  approved := ⟨(tagged mldsa65SigLen 9).len, sampleVerify_tagged 9 _ _⟩
  previous := ⟨rfl, (tagged mldsa65PubLen 1).len⟩
  signed := ⟨(tagged mldsa65SigLen 1).len, (1 : UInt8), sampleKey_parses 1, sampleVerify_tagged 1 _ _⟩

/-- The VM's own key, registered again with all signatures, passes as a rotation. -/
theorem rotation_iff_same : ∃ pk,
    verifyRegistration (C := samplePrims) sampleVerify (some (sampleRotation 1)) (some (9 : UInt8)) modeRotation =
      .ok pk := by
  have hid : (sampleRotation 1).vmID = sampleFirst.vmID := rfl
  have hrotate := rotation_iff sampleRegistry_loaded (lookup_add_self _ sampleFirst) hid fun _ => rfl
  exact (hrotate.1 (sampleRotation_consented 1)).mpr rfl

/-- Key 2 for the VM of key 1, with the signatures of the authority and of key 1, is refused. -/
theorem rotation_refused :
    Loaded (C := samplePrims) sampleVerify (9 : UInt8) sampleRegistry ∧
      sampleRegistry.lookup sampleFirst.vmID = some sampleFirst ∧ (sampleRotation 2).vmID = sampleFirst.vmID ∧
      Consented (C := samplePrims) sampleVerify (9 : UInt8) sampleFirst.vmPubKey (sampleRotation 2) ∧
      verifyRegistration (C := samplePrims) sampleVerify (some (sampleRotation 2)) (some (9 : UInt8)) modeRotation =
        .error (.handshake (.wrap .vmIdentityMismatch "VMID ≠ SHA3-256(VMPubKey)")) := by
  refine ⟨sampleRegistry_loaded, lookup_add_self _ sampleFirst, rfl, sampleRotation_consented 2, ?_⟩
  decide +kernel

end Zap.Registration
