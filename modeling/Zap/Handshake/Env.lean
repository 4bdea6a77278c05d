/-
# Zap.Handshake.Env — what the handshake package asks of the world.

Everything the package does not compute by itself is a request (`Req`): transport reads and writes, the
clock, randomness, signatures, AEAD calls, and the critical sections of the two stores that several
connections share. The deterministic primitives (hash, HKDF, Diffie–Hellman, the KEM, key encodings) are
the fields of `Prims`; a theorem that needs a law of them takes `Prims.Lawful` or names the law.

`Req.hash` marks a call of SHA3-256 in the trace: its digest is `Prims.sha3` of the input, and what it
adds is the record of which inputs were ever hashed, so that collision freedom can be assumed of those
inputs alone.
-/
import Zap.Lib.Prog
import Zap.Handshake.Errors

namespace Zap.Handshake

open Zap.Lib

/-- The deterministic primitives, from `crypto/ecdh`, `x/crypto/{sha3,hkdf}`, `luxfi/crypto/{mlkem,mldsa}`. -/
structure Prims where
  /-- X25519 private keys. -/
  XSec : Type
  /-- ML-KEM-768 private and public keys, and the randomness of one encapsulation. -/
  KemSec : Type
  KemPub : Type
  Coins : Type
  /-- ML-DSA-65 private and public keys. -/
  SigSec : Type
  SigPub : Type
  sha3 : Bytes → Arr transcriptLen
  /-- `hkdf.Extract(sha3.New256, secret, salt)`. -/
  hkdfExtract : (secret salt : Bytes) → Bytes
  /-- The first `n` bytes of `hkdf.Expand(sha3.New256, prk, info)`. -/
  hkdfExpand : (prk info : Bytes) → (n : Nat) → Arr n
  xPub : XSec → Arr x25519PubLen
  ecdh : XSec → Arr x25519PubLen → Except String (Arr x25519SharedLen)
  kemPub : KemSec → KemPub
  kemPubBytes : KemPub → Bytes
  kemPubOfBytes : Bytes → Except String KemPub
  /-- Ciphertext and shared secret of one encapsulation. -/
  encaps : KemPub → Coins → Bytes × Bytes
  decaps : KemSec → Bytes → Except String Bytes
  /-- The `PublicKey` field of a private key. -/
  sigPub : SigSec → SigPub
  sigPubBytes : SigPub → Bytes
  sigPubOfBytes : Bytes → Except String SigPub

/-- The documented behaviour of the key-exchange primitives and the key encodings. -/
structure Prims.Lawful (C : Prims) : Prop where
  /-- Both ends of a Diffie–Hellman exchange compute one secret, or both fail. -/
  ecdh_comm : ∀ a b, C.ecdh a (C.xPub b) = C.ecdh b (C.xPub a)
  kemPubBytes_length : ∀ pk, (C.kemPubBytes pk).length = mlkem768PubLen
  kemPubOfBytes_bytes : ∀ pk, C.kemPubOfBytes (C.kemPubBytes pk) = .ok pk
  decaps_encaps : ∀ sk coins, C.decaps sk (C.encaps (C.kemPub sk) coins).1 = .ok (C.encaps (C.kemPub sk) coins).2
  sigPubOfBytes_bytes : ∀ pk, C.sigPubOfBytes (C.sigPubBytes pk) = .ok pk
  sigPubBytes_ofBytes : ∀ b pk, C.sigPubOfBytes b = .ok pk → C.sigPubBytes pk = b

/-- A `cipher.AEAD` value: `nil`, or AES-256-GCM under a key. -/
inductive AEAD
  | null
  | gcm (key : Arr aeadKeyLen)

structure ReplayKey where
  clientID : Arr idLen
  clientRandom : Arr clientRandLen
  deriving DecidableEq

variable (C : Prims)

inductive Req
  /-- `io.ReadFull` of `n` bytes from the connection. -/
  | readFull (n : Nat)
  /-- One `Write` on the connection. -/
  | write (b : Bytes)
  /-- `io.ReadFull` of `n` bytes from the entropy source. -/
  | rand (n : Nat)
  | genX25519
  | genMLKEM
  | encapsulate (pk : C.KemPub)
  | hash (x : Bytes)
  | sign (sk : C.SigSec) (msg ctx : Bytes)
  | verify (pk : C.SigPub) (msg sig ctx : Bytes)
  /-- A clock reading, in nanoseconds since the Unix epoch. -/
  | now
  /-- The locked part of `ReplayCache.SeenOrAdd`, entered with the reading taken before the lock. -/
  | seenOrAdd (now : Int) (key : ReplayKey)
  /-- The locked part of `PSKStore.Issue`. -/
  | issue (id : Arr pskIDLen) (psk : Arr pskKeyLen) (clientID : Arr idLen)
  /-- `PSKStore.Redeem`, all of it under the lock. -/
  | redeem (id : Arr pskIDLen)
  | aeadSeal (aead : AEAD) (nonce : Arr aeadNonceLen) (plain aad : Bytes)
  | aeadOpen (aead : AEAD) (nonce : Arr aeadNonceLen) (ct aad : Bytes)

/-- What each request is answered with; transport and library failures carry their message. -/
@[reducible]
def Req.Resp {C : Prims} : Req C → Type
  | .readFull n => Except String (Arr n)
  | .write _ => Option String
  | .rand n => Except String (Arr n)
  | .genX25519 => Except String C.XSec
  | .genMLKEM => Except String C.KemSec
  | .encapsulate _ => Except String C.Coins
  | .hash _ => Unit
  | .sign .. => Except String Bytes
  | .verify .. => Bool
  | .now => Int
  | .seenOrAdd .. => Bool
  | .issue .. => Unit
  | .redeem _ => Option (Arr pskKeyLen × Arr idLen)
  | .aeadSeal .. => Bytes
  | .aeadOpen .. => Option Bytes

abbrev pkg : Sig := ⟨Req C, Req.Resp⟩

/-- Code that returns a value or fails with an error. -/
abbrev M (α : Type) := Proc (pkg C) Err α

/-- Code that cannot fail. -/
abbrev P (α : Type) := Prog (pkg C) α

section Calls

variable {C}

def call (r : Req C) : M C r.Resp := Proc.request (S := pkg C) r

def ask (r : Req C) : P C r.Resp := Prog.request (S := pkg C) r

/-- An answer that may be a failure, as a computation that fails with `f` of its message. -/
def liftExcept {α : Type} (f : String → Err) : Except String α → M C α
  | .ok a => pure a
  | .error e => throw (f e)

/-- `x, err := call; if err != nil { return nil, err }`. -/
def orFail {α : Type} (p : M C (Except String α)) : M C α := do
  let r ← p
  liftExcept .other r

/-- `x, err := f(); if err != nil { return nil, err }` for a pure `f` of the package. -/
def orReturn {α : Type} : Except Err α → M C α
  | .ok a => pure a
  | .error e => throw e

def sum256 (x : Bytes) : M C (Arr transcriptLen) := do
  let _ ← call (.hash x)
  pure (C.sha3 x)

end Calls

end Zap.Handshake
