/-
# Zap.Handshake.Transcript — the chained transcript hash (`handshake/transcript.go`).

Each step replaces the state by SHA3-256 of the previous state and the new material. The material is
concatenated without length prefixes, so what the digest commits to rests on the fixed lengths around it:
`h2Of_inj` says which lengths are needed, and that collision freedom is only ever used on inputs that were
hashed.
-/
import Zap.Handshake.FrameRuns

namespace Zap.Handshake

open Zap.Lib Zap.Lib.Proc

variable {C : Prims}

/-! ## The state machine -/

inductive TranscriptStage
  | new
  | h0
  | h1
  | h2

structure Transcript where
  state : Arr transcriptLen
  suite : SuiteID
  stage : TranscriptStage

def newTranscript (suite : SuiteID) : Transcript := ⟨.zero _, suite, .new⟩

/-- What `H_0` is the digest of; the suite enters here. -/
def h0Input (suite : SuiteID) (hello : Bytes) : Bytes := lblProtocol ++ ([0x00, suite.byte] ++ hello)

def Transcript.absorbHello (t : Transcript) (hello : Bytes) : M C Transcript := do
  let state ← sum256 (h0Input t.suite hello)
  pure { t with state := state, stage := .h0 }

def Transcript.absorbKEM (t : Transcript) (init reply : Bytes) : M C Transcript := do
  let state ← sum256 (t.state.bytes ++ (init ++ reply))
  pure { t with state := state, stage := .h1 }

def Transcript.finishFull (t : Transcript) (pkI pkR : Bytes) (schemes : List SuiteID) :
    M C (Arr transcriptLen) :=
  sum256 (t.state.bytes ++ (pkI ++ (pkR ++ encodeSchemes schemes)))

def Transcript.finishPSK (t : Transcript) (serverEphX25519Pub : Bytes) : M C (Arr transcriptLen) :=
  sum256 (t.state.bytes ++ serverEphX25519Pub)

/-- `NewTranscript`, `AbsorbHello`, `AbsorbKEM`, `FinishFull`: the lines both full handshakes run. -/
def fullTranscript (suite : SuiteID) (hello init reply pkI pkR : Bytes) (schemes : List SuiteID) :
    M C (Arr transcriptLen) := do
  let t ← (newTranscript suite).absorbHello hello
  let t ← t.absorbKEM init reply
  t.finishFull pkI pkR schemes

/-- `NewTranscript`, `AbsorbHello`, `FinishPSK`: the lines both resumed handshakes run. -/
def pskTranscript (suite : SuiteID) (hello serverEphX25519Pub : Bytes) : M C (Arr transcriptLen) := do
  let t ← (newTranscript suite).absorbHello hello
  t.finishPSK serverEphX25519Pub

/-! ## The digests -/

/-- What a full handshake hashes, field by field. -/
structure FullInput where
  suite : SuiteID
  hello : Bytes
  init : Bytes
  reply : Bytes
  pkI : Bytes
  pkR : Bytes
  schemes : List SuiteID

namespace FullInput

/-- The lengths the codecs enforce on both sides. -/
structure Sized (x : FullInput) : Prop where
  init : x.init.length = x25519PubLen + mlkem768PubLen
  pkI : x.pkI.length = mldsa65PubLen
  pkR : x.pkR.length = mldsa65PubLen

def h1Input (C : Prims) (x : FullInput) : Bytes := (C.sha3 (h0Input x.suite x.hello)).bytes ++ (x.init ++ x.reply)

def h2Input (C : Prims) (x : FullInput) : Bytes :=
  (C.sha3 (x.h1Input C)).bytes ++ (x.pkI ++ (x.pkR ++ encodeSchemes x.schemes))

def h2 (C : Prims) (x : FullInput) : Arr transcriptLen := C.sha3 (x.h2Input C)

def hashed (C : Prims) (x : FullInput) : List Bytes := [h0Input x.suite x.hello, x.h1Input C, x.h2Input C]

end FullInput

section Yields

variable {tr : List (Event C)} {t t' : Transcript} {hello : Bytes} {h : Arr transcriptLen}

theorem absorbHello_yields :
    Yields (t.absorbHello hello : M C _) tr t' ↔ tr = [hashEv (h0Input t.suite hello)] ∧
      t' = { t with state := C.sha3 (h0Input t.suite hello), stage := .h0 } :=
  digest_yields

theorem absorbKEM_yields {init reply : Bytes} :
    Yields (t.absorbKEM init reply : M C _) tr t' ↔
      tr = [hashEv (t.state.bytes ++ (init ++ reply))] ∧
        t' = { t with state := C.sha3 (t.state.bytes ++ (init ++ reply)), stage := .h1 } :=
  digest_yields

theorem fullTranscript_yields {x : FullInput} :
    Yields (fullTranscript x.suite x.hello x.init x.reply x.pkI x.pkR x.schemes : M C _) tr h ↔
      tr = (x.hashed C).map hashEv ∧ h = x.h2 C := by
  unfold fullTranscript Transcript.finishFull
  simp only [yields_bind, absorbHello_yields, absorbKEM_yields, sum256_yields, existsAndEq, true_and, and_true]
  exact Iff.rfl

/-- What a resumed handshake's digest is of. -/
def pskInput (C : Prims) (suite : SuiteID) (hello eph : Bytes) : Bytes := (C.sha3 (h0Input suite hello)).bytes ++ eph

theorem pskTranscript_yields {suite : SuiteID} {eph : Bytes} :
    Yields (pskTranscript suite hello eph : M C _) tr h ↔
      tr = [hashEv (h0Input suite hello), hashEv (pskInput C suite hello eph)] ∧
        h = C.sha3 (pskInput C suite hello eph) := by
  unfold pskTranscript Transcript.finishPSK
  simp only [yields_bind, absorbHello_yields, sum256_yields, existsAndEq, true_and, and_true]
  exact Iff.rfl

end Yields

variable {bad : Req C → Prop}

theorem fullTranscript_avoids (hb : Special bad) (suite : SuiteID) (hello init reply pkI pkR : Bytes)
    (schemes : List SuiteID) : Avoids bad (fullTranscript suite hello init reply pkI pkR schemes : M C _) := by
  refine ((sum256_avoids hb _).bind fun _ => avoids_pure).bind fun t => ?_
  exact ((sum256_avoids hb _).bind fun _ => avoids_pure).bind fun _ => sum256_avoids hb _

theorem pskTranscript_avoids (hb : Special bad) (suite : SuiteID) (hello eph : Bytes) :
    Avoids bad (pskTranscript suite hello eph : M C _) :=
  ((sum256_avoids hb _).bind fun _ => avoids_pure).bind fun _ => sum256_avoids hb _

/-! ## The digest commits to every field -/

theorem encodeSchemes_injective : Function.Injective encodeSchemes := by
  intro a b h
  obtain ⟨-, hbytes⟩ := append_split (by simp) h
  exact (List.map_inj_right fun _ _ hb => congrArg SuiteID.mk hb).mp hbytes

theorem h0Input_inj {s s' : SuiteID} {a b : Bytes} (h : h0Input s a = h0Input s' b) : s = s' ∧ a = b := by
  have htail := List.append_cancel_left h
  simp only [List.cons_append, List.nil_append, List.cons.injEq] at htail
  exact ⟨congrArg SuiteID.mk htail.2.1, htail.2.2⟩

/-- **The full transcript is unambiguous.**  Equal digests of sized inputs have equal fields, if SHA3-256
does not collide on the six strings involved. -/
theorem FullInput.h2_inj {x y : FullInput} {H : Bytes → Prop}
    (hcf : ∀ a b, H a → H b → C.sha3 a = C.sha3 b → a = b)
    (hx : ∀ a ∈ x.hashed C, H a) (hy : ∀ a ∈ y.hashed C, H a)
    (sx : x.Sized) (sy : y.Sized) (h : x.h2 C = y.h2 C) : x = y := by
  have h2 : x.h2Input C = y.h2Input C := hcf _ _ (hx _ (by simp [hashed])) (hy _ (by simp [hashed])) h
  obtain ⟨hd1, hrest⟩ := append_split (by rw [Arr.len, Arr.len]) h2
  obtain ⟨hpkI, hrest⟩ := append_split (sx.pkI.trans sy.pkI.symm) hrest
  obtain ⟨hpkR, hsch⟩ := append_split (sx.pkR.trans sy.pkR.symm) hrest
  have h1 : x.h1Input C = y.h1Input C :=
    hcf _ _ (hx _ (by simp [hashed])) (hy _ (by simp [hashed])) (Arr.bytes_injective hd1)
  obtain ⟨hd0, hrest⟩ := append_split (by rw [Arr.len, Arr.len]) h1
  obtain ⟨hinit, hreply⟩ := append_split (sx.init.trans sy.init.symm) hrest
  have h0 := hcf _ _ (hx _ (by simp [hashed])) (hy _ (by simp [hashed])) (Arr.bytes_injective hd0)
  obtain ⟨hsuite, hhello⟩ := h0Input_inj h0
  cases x
  cases y
  simp only [FullInput.mk.injEq]
  exact ⟨hsuite, hhello, hinit, hreply, hpkI, hpkR, encodeSchemes_injective hsch⟩

end Zap.Handshake
