/-
# Zap.Handshake.Pinning — which peer a pinning initiator ends up with.

`Expected` is compared with the responder's static key in step 6 of the full handshake. A resumed
handshake never sees a static key: the session's peer is the identity cached with the PSK, and nothing
compares that with `Expected`.
-/
import Zap.Handshake.Meeting

namespace Zap.Handshake

open Zap.Lib Zap.Lib.Proc

variable {C : Prims} {i : Initiator C} {e : Identity C}

/-! ## The two paths -/

variable {suite : SuiteID} {pqMode : PQMode} {now : Int} {tr : List (Event C)} {s : Session}

theorem Initiator.runFull_pinned (hC : C.Lawful) (hexp : i.expected = some e) {me : Identity C} {schemes : List SuiteID}
    (h : Yields (i.runFull me suite pqMode schemes now) tr s) : s.peerID = e.idValue := by
  obtain ⟨o, r, _, _, _, tail, -, hreply, -, -, hfin, -⟩ :=
    Initiator.runFull_past special_empty (by simp) h (.inr ⟨s, rfl⟩)
  obtain ⟨_, pk, -, -, -, -, hkey, hpeer, hpin, -⟩ := readReply_yields.mp hreply
  obtain ⟨_, _, t, -, -, rfl, -⟩ := Initiator.finish_yields.mp hfin
  show r.respIdentity.idValue = e.idValue
  rw [hpeer, Identity.idValue_some, hC.sigPubBytes_ofBytes _ _ hkey, hpin e hexp]

/-- **The resumed handshake reports the cached identity**, whatever the peer sends. -/
theorem Initiator.runResume_peerID {resume : ClientPSK}
    (h : Yields (Initiator.runResume resume suite pqMode now : M C _) tr s) : s.peerID = resume.peerID := by
  obtain ⟨_, _, _, _, t, -, rfl, -⟩ := Initiator.runResume_yields.mp h
  rfl

/-- A peer with any X25519 share completes a resumed handshake. -/
theorem Initiator.runResume_completes (hX : ∃ a b shared, C.ecdh a (C.xPub b) = .ok shared)
    (resume : ClientPSK) (suite : SuiteID) (pqMode : PQMode) (now : Int) :
    ∃ tr s, Yields (Initiator.runResume resume suite pqMode now : M C _) tr s := by
  obtain ⟨a, b, shared, hx⟩ := hX
  exact ⟨_, _, Initiator.runResume_yields.mpr ⟨a, .zero _, C.xPub b, shared, now, hx, rfl, rfl⟩⟩

/-! ## The pin -/

/-- An initiator `Run` does not refuse before it writes a byte. -/
def Initiator.CanStart (i : Initiator C) : Prop :=
  (∃ me, signer i.localIdentity = some me) ∧ i.suiteOrDefault.isValid = true

/-- **When the pin holds.**  For an initiator that pins `e` and reads the clock `now`: every session that
any peer makes `Run` return has `e`'s id exactly when a PSK that is live at `now` was cached for `e`. -/
theorem pinned_iff (hC : C.Lawful) (hX : ∃ a b shared, C.ecdh a (C.xPub b) = .ok shared)
    (hexp : i.expected = some e) (now : Int) :
    (∀ tr s, Yields i.run (clock now :: tr) s → s.peerID = e.idValue) ↔
      (i.CanStart → ∀ psk, i.livePSK now = some psk → psk.peerID = e.idValue) := by
  constructor
  · rintro hall ⟨⟨me, hme⟩, hvalid⟩ psk hlive
    obtain ⟨tr, s, hrun⟩ :=
      Initiator.runResume_completes hX psk i.suiteOrDefault i.pqModeOrDefault now
    have hdone : Yields i.run (openingEvs now ++ tr) s := by
      refine Initiator.run_intro hme hvalid ?_
      rw [hlive]
      exact hrun
    rw [← Initiator.runResume_peerID hrun]
    exact hall _ s hdone
  · intro hlive tr s hdone
    obtain ⟨me, now', tr', hme, hvalid, hevs, -, hrest⟩ :=
      Initiator.run_past special_empty hdone (.inr ⟨s, rfl⟩)
    obtain rfl : now = now' := by
      simp only [openingEvs, clock, List.cons_append, List.cons.injEq, Ev.mk.injEq, heq_eq_eq,
        true_and] at hevs
      exact hevs.1
    cases hpsk : i.livePSK now with
    | none =>
      rw [hpsk] at hrest
      exact Initiator.runFull_pinned hC hexp hrest
    | some psk =>
      rw [hpsk] at hrest
      rw [Initiator.runResume_peerID hrest]
      exact hlive ⟨⟨me, hme⟩, hvalid⟩ psk hpsk

/-! ### A PSK of another peer -/

/-- An initiator that pins identity 2 and holds a PSK cached for the all-zero id. -/
def sampleResumer : Initiator samplePrims :=
  { sampleMeeting.i with
    resume := some { id := .zero _, psk := .zero _, peerID := .zero _, validUntil := 1 } }

theorem sample_ecdh : ∃ a b shared, samplePrims.ecdh a (samplePrims.xPub b) = .ok shared :=
  ⟨(1 : UInt8), (1 : UInt8), _, rfl⟩

/-- **The pin is not checked on resumption**: `Run` returns a session with a peer that is not the pinned
one. -/
theorem resumed_past_pin : ∃ evs s, sampleResumer.expected = some (sampleIdentity 2) ∧
    Yields sampleResumer.run evs s ∧ s.peerID ≠ (sampleIdentity 2).idValue := by
  have hlive : sampleResumer.livePSK 0 = some ⟨.zero _, .zero _, .zero _, 1⟩ := rfl
  obtain ⟨tr, s, hrun⟩ := Initiator.runResume_completes sample_ecdh
    ⟨.zero _, .zero _, .zero _, 1⟩ sampleResumer.suiteOrDefault sampleResumer.pqModeOrDefault 0
  refine ⟨openingEvs 0 ++ tr, s, rfl, ?_, ?_⟩
  · refine Initiator.run_intro (signer_eq_some.mpr ⟨rfl, rfl⟩) rfl ?_
    rw [hlive]
    exact hrun
  · rw [Initiator.runResume_peerID hrun]
    show (Arr.zero idLen : Arr idLen) ≠ (sampleIdentity 2).idValue
    decide +kernel

/-- The condition holds of the sample initiator without a PSK, and decides it. -/
theorem pinned_iff_sample : sampleMeeting.i.livePSK 0 = none ∧
    ∀ tr s, Yields sampleMeeting.i.run (clock 0 :: tr) s → s.peerID = (sampleIdentity 2).idValue := by
  refine ⟨rfl, (pinned_iff samplePrims_lawful sample_ecdh rfl 0).mpr ?_⟩
  intro _ psk hlive
  cases hlive

end Zap.Handshake
