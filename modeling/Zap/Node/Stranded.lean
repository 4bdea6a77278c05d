/-
# Zap.Node.Stranded — slabs that never come back.

`recycled_unreferenced` says a slab does not come back too early. Here is the other half: whether it comes back
at all. At rest, with every loop at its read and no `Call` at work, a slab that is out is still in somebody's
hands, since no open hold is ever forgotten (`Covers`). There are two kinds of hands left. A message that a
`Call` returned can still be released by its owner. A message in the channel of a `Call` that has returned
cannot: nobody receives from that channel again.
-/
import Zap.Node.Slabs

namespace Zap.Slabs

open Zap.Lib

variable {H B : Type}

/-! ## At rest -/

/-- Nothing is under way: every loop is at its read or has returned, no `Call` has anything to do, and every
release is over. -/
structure Quiescent (σ : Node H B) : Prop where
  loops : ∀ i, σ.loops i = .top ∨ σ.loops i = .stopped
  calls : ∀ c, σ.calls c = .fresh ∨ σ.calls c = .waiting none ∨ ∃ ch, σ.calls c = .returned ch
  releases : ∀ (k : Nat) (d : Hold H B), σ.store.holds[k]? = some d → d.status = .held ∨ d.status = .gone

def Holds (σ : Node H B) (k : Nat) (b : B) : Prop :=
  ∃ d, σ.store.holds[k]? = some d ∧ d.status = .held ∧ d.block = some b

/-- Every slab that is out of its pool is held, and by nothing but messages that a `Call` returned and their
owners have not released. -/
def Accounted (σ : Node H B) : Prop :=
  ∀ b, σ.store.blocks.Away b → (∃ m, Holds σ m b) ∧ ∀ m, Holds σ m b → σ.kept m = true

/-- The message lies in the channel of a `Call` that no longer receives. -/
def Left (σ : Node H B) (c m : Nat) : Prop := σ.calls c = .returning (some m) ∨ σ.calls c = .returned (some m)

/-- The step leaves the message in the channel: the `Call` gives up although it is there, or has already made up
its mind when the loop puts it there. -/
def Leaves (σ : Node H B) (c m : Nat) : Event H B → Prop
  | .cancel c' => c' = c ∧ σ.calls c = .waiting (some m)
  | .send i (some c') => c' = c ∧ (∃ k, σ.loops i = .offering k m) ∧ σ.calls c = .returning none
  | _ => False

variable [DecidableEq H] [DecidableEq B] {σ τ : Node H B}

theorem left_step {e : Event H B} (h : step σ e = some τ) (c m : Nat) :
    Left τ c m ↔ Left σ c m ∨ Leaves σ c m e := by
  -- one call goes to `s`, the others stay
  have hset : ∀ c' s, τ.calls = Function.update σ.calls c' s → (c' ≠ c → ¬Leaves σ c m e) →
      (c' = c → (s = .returning (some m) ∨ s = .returned (some m) ↔ Left σ c m ∨ Leaves σ c m e)) →
      (Left τ c m ↔ Left σ c m ∨ Leaves σ c m e) := by
    intro c' s hcalls hother hsame
    by_cases hc : c' = c
    · rw [← hsame hc, Left, hcalls, hc, Function.update_self]
    · rw [Left, hcalls, Function.update_of_ne (Ne.symm hc), or_iff_left (hother hc)]
      rfl
  cases e
  case call c' =>
    simp only [step] at h
    split at h <;> cases h
    case h_1 hc => exact hset c' _ rfl (fun _ => id) fun heq => by subst heq; simp [Left, Leaves, hc]
  case receive c' =>
    simp only [step] at h
    split at h <;> cases h
    case h_1 hc => exact hset c' _ rfl (fun _ => id) fun heq => by subst heq; simp [Left, Leaves, hc]
  case cancel c' =>
    simp only [step] at h
    split at h <;> cases h
    case h_1 hc => exact hset c' _ rfl (fun hne h => hne h.1) fun heq => by subst heq; simp [Left, Leaves, hc]
  case unregister c' =>
    simp only [step] at h
    split at h <;> cases h
    case h_1 hc => exact hset c' _ rfl (fun _ => id) fun heq => by subst heq; simp [Left, Leaves, hc]
  case send i c' =>
    simp only [step] at h
    split at h <;> cases h
    case h_1 k m' hl =>
      cases c' with
      | none => exact (or_iff_left id).symm
      | some c' =>
        by_cases hacc : (σ.calls c').accepts = true
        · have hput : sendMessage σ i k m' (some c') = _ := if_pos hacc
          refine hset c' ((σ.calls c').put m') (by rw [hput]; rfl) (fun hne h => hne h.1) fun heq => ?_
          subst heq
          rcases hc : σ.calls c' with _ | (_ | _) | (_ | _) | _ <;>
            simp_all [Call.accepts, Call.put, Left, Leaves]
        · have hkeep : sendMessage σ i k m' (some c') = _ := if_neg hacc
          rw [hkeep]
          refine (or_iff_left ?_).symm
          rintro ⟨rfl, -, hc⟩
          simp [hc, Call.accepts] at hacc
  case next i =>
    simp only [step] at h
    split at h
    case h_3 => cases h
    all_goals split_ifs at h <;> cases h <;> exact (or_iff_left id).symm
  case releaseMessage m' =>
    simp only [step] at h
    split_ifs at h
    obtain ⟨s, -, rfl⟩ := Option.map_eq_some_iff.mp h
    exact (or_iff_left id).symm
  case getBuf | retain | dropMessage | release =>
    simp only [step] at h
    split at h
    case h_2 => cases h
    obtain ⟨s, -, rfl⟩ := Option.map_eq_some_iff.mp h
    exact (or_iff_left id).symm
  case recycle | shelve =>
    obtain ⟨s, -, rfl⟩ := Option.map_eq_some_iff.mp h
    exact (or_iff_left id).symm
  all_goals
    simp only [step] at h
    split at h <;> cases h
    exact (or_iff_left id).symm

theorem Run.left_iff {tr : List (Event H B)} (h : Run tr σ) (c m : Nat) :
    Left σ c m ↔ ∃ pre e ρ, Path.Occurs (fun s e t => step s e = some t) Node.init tr pre e ρ ∧ Leaves ρ c m e := by
  constructor
  · intro hleft
    induction h using Path.concat_induction with
    | init => rcases hleft with h | h <;> cases h
    | @snoc tr σ e τ hpath hstep ih =>
      rcases (left_step hstep c m).mp hleft with hleft | hleaves
      · obtain ⟨pre, e', ρ, hocc, hleaves⟩ := ih hleft
        exact ⟨pre, e', ρ, hocc.snoc e, hleaves⟩
      · exact ⟨tr, e, σ, ⟨⟨[], rfl⟩, hpath⟩, hleaves⟩
  · rintro ⟨pre, e, ρ, ⟨⟨post, rfl⟩, hpre⟩, hleaves⟩
    obtain ⟨ρ', hpre', hpost⟩ := Path.append_iff.mp h
    obtain ⟨τ, hstep, hpost⟩ := Path.cons_iff.mp hpost
    have hdet : ρ' = ρ := Path.det (fun h h' => Option.some.inj (h.symm.trans h')) hpre' hpre
    subst hdet
    exact Path.invariant (I := fun σ => Left σ c m) (fun hl hstep => (left_step hstep c m).mpr (.inl hl)) hpost
      ((left_step hstep c m).mpr (.inr hleaves))

/-! ## No hold is forgotten -/

/-- Every open hold has an owner, and every slab that is out a header. -/
structure Covers (σ : Node H B) : Prop where
  good : Good σ
  covered : σ.store.Covered (owns σ)
  placed : σ.store.Placed

omit [DecidableEq B] in
theorem Covers.init : Covers (Node.init : Node H B) where
  good := .init
  covered _ _ hk := nomatch hk
  placed b hb := absurd hb (Shelf.not_away_empty b)

theorem Covers.change {x : Option B} (hc : Covers σ) (h : Change σ τ x) : Covers τ := by
  have hgood := hc.good.change h
  cases h with
  | same hstore howns => exact ⟨hgood, by rw [hstore, howns]; exact hc.covered, hstore ▸ hc.placed⟩
  | get i h _ hnone hget howns =>
    exact ⟨hgood, howns ▸ hc.covered.fresh (Store.get_holds hget) hnone, hc.placed.get hc.good.sound hget⟩
  | retain i k hk hnone hret howns =>
    obtain ⟨d, -, hholds⟩ := Store.retain_holds hret
    exact ⟨hgood, howns ▸ hc.covered.fresh hholds hnone, hc.placed.unmoved (Store.retain_unmoved hret)⟩
  | hand o o' k ho hto hstore howns =>
    exact ⟨hgood, by rw [hstore, howns]; exact hc.covered.hand ho hto, hstore ▸ hc.placed⟩
  | release o k ho hrel howns =>
    exact ⟨hgood, howns ▸ hc.covered.release ho hrel, hc.placed.unmoved (Store.release_unmoved hrel)⟩
  | recycle k hrec howns =>
    obtain ⟨d, -, -, hholds⟩ := Store.recycle_holds hrec
    exact ⟨hgood, howns ▸ hc.covered.mark (by simp) hholds, hc.placed.recycle hrec⟩
  | shelve k hshelve howns =>
    obtain ⟨d, -, -, hholds⟩ := Store.shelve_holds hshelve
    exact ⟨hgood, howns ▸ hc.covered.mark (by simp) hholds, hc.placed.unmoved (Store.shelve_unmoved hshelve)⟩

theorem Run.covers {tr : List (Event H B)} (h : Run tr σ) : Covers σ :=
  Path.invariant (fun hc hstep => hc.change (step_change hstep)) h .init

omit [DecidableEq B] in
/-- At rest an open hold is a message that was returned, or one in the channel of a `Call` that has returned. -/
theorem Covers.owner (hc : Covers σ) (hq : Quiescent σ) {k : Nat} {b : B} (h : Holds σ k b) :
    σ.kept k = true ∨ ∃ c, Left σ c k := by
  obtain ⟨d, hk, hheld, -⟩ := h
  obtain ⟨o, ho⟩ := hc.covered k d hk hheld
  cases o with
  | loop i => rcases hq.loops i with hi | hi <;> simp [owns, hi, Loop.own] at ho
  | message i => rcases hq.loops i with hi | hi <;> simp [owns, hi, Loop.message] at ho
  | chan c =>
    rcases hq.calls c with hi | hi | ⟨ch, hi⟩ <;> simp [owns, hi, Call.chan] at ho
    exact .inr ⟨c, .inr (ho ▸ hi)⟩
  | kept m =>
    simp only [owns] at ho
    split_ifs at ho with hm
    exact .inl (Option.some.inj ho ▸ hm)

/-! ## When no slab is stranded -/

/-- **When every slab is accounted for**: at rest, exactly if no step of the run has left a message over a slab in
the channel of its `Call`. -/
theorem accounted_iff {tr : List (Event H B)} (h : Run tr σ) (hq : Quiescent σ) :
    Accounted σ ↔ ∀ pre e ρ c m, Path.Occurs (fun s e t => step s e = some t) Node.init tr pre e ρ →
      Leaves ρ c m e → ∀ b, ¬RefersTo σ m b := by
  have hc := h.covers
  constructor
  · rintro hacc pre e ρ c m hocc hleaves b ⟨d, hk, hblock⟩
    have hown : owns σ (.chan c) = some m := by
      rcases (h.left_iff c m).mpr ⟨pre, e, ρ, hocc, hleaves⟩ with hc | hc <;> exact congrArg Call.chan hc
    obtain ⟨d', hk', hheld⟩ := hc.good.owned.held (.chan c) m hown
    cases hk.symm.trans hk'
    have haway : σ.store.blocks.Away b :=
      hc.good.sound.away d.header b ((hc.good.sound.refers m d hk hheld).trans hblock)
    have hkept := (hacc b haway).2 m ⟨d, hk, hheld, hblock⟩
    have := hc.good.owned.single (.chan c) (.kept m) m hown (if_pos hkept)
    cases this
  · intro hnone b hb
    constructor
    · obtain ⟨k, d, hk, ⟨hheld, hblock⟩ | hlast⟩ := hc.placed.referred hc.good.sound hb
      · exact ⟨k, d, hk, hheld, hblock⟩
      · rcases hq.releases k d hk with hs | hs <;> simp [hlast] at hs
    intro m hm
    refine (hc.owner hq hm).resolve_right ?_
    rintro ⟨c, hleft⟩
    obtain ⟨pre, e, ρ, hocc, hleaves⟩ := (h.left_iff c m).mp hleft
    obtain ⟨d, hk, -, hblock⟩ := hm
    exact hnone pre e ρ c m hocc hleaves b ⟨d, hk, hblock⟩

/-- A call, its response on its channel, and the loop back at its read. -/
def responded : List (Event Nat Nat) :=
  [.call 0, .getBuf 0 0 (some 0), .frameRead 0, .attach 0, .retain 0, .send 0 (some 0), .release 0, .next 0]

/-- The `Call` returns, with the response or without it, and the node is at rest with the slab out. -/
theorem responded_rests (e : Event Nat Nat) (he : e = .receive 0 ∨ e = .cancel 0) :
    ∃ σ, Run (responded ++ [e, .unregister 0]) σ ∧ Quiescent σ ∧ σ.store.blocks.Away 0 ∧
      (e = .receive 0 → ∀ c m, ¬Left σ c m) ∧ (e = .cancel 0 → ∀ m, σ.kept m = false) := by
  have hholds : ∀ l : List (Hold Nat Nat), (∀ d ∈ l, d.status = .held ∨ d.status = .gone) →
      ∀ (k : Nat) (d : Hold Nat Nat), l[k]? = some d → d.status = .held ∨ d.status = .gone :=
    fun l h k d hk => h d (List.mem_of_getElem? hk)
  rcases he with rfl | rfl
  · refine ⟨_, Path.foldlM_iff.mpr rfl, ⟨fun i => ?_, fun c => ?_, hholds _ (by decide)⟩, ⟨rfl, rfl⟩,
      fun _ c m => ?_, nofun⟩
    · cases i <;> exact .inl rfl
    · cases c with
      | zero => exact .inr (.inr ⟨_, rfl⟩)
      | succ c => exact .inl rfl
    · cases c <;> rintro (h | h) <;> cases h
  · refine ⟨_, Path.foldlM_iff.mpr rfl, ⟨fun i => ?_, fun c => ?_, hholds _ (by decide)⟩, ⟨rfl, rfl⟩,
      nofun, fun _ _ => rfl⟩
    · cases i <;> exact .inl rfl
    · cases c with
      | zero => exact .inr (.inr ⟨_, rfl⟩)
      | succ c => exact .inl rfl

/-- The caller has the response and has not released it: the slab is accounted for. -/
theorem received_accounted : ∃ σ, Run (responded ++ [.receive 0, .unregister 0]) σ ∧
    σ.store.blocks.Away 0 ∧ Accounted σ := by
  obtain ⟨σ, hrun, hq, haway, hleft, -⟩ := responded_rests (.receive 0) (.inl rfl)
  refine ⟨σ, hrun, haway, (accounted_iff hrun hq).mpr fun pre e ρ c m hocc hleaves => ?_⟩
  exact absurd ((hrun.left_iff c m).mpr ⟨pre, e, ρ, hocc, hleaves⟩) (hleft rfl c m)

/-- **A stranded slab**: the response is on the channel when the context ends, and the `Call` gives up. At rest
the slab is out, and no `Call` has returned anything. -/
theorem cancelled_strands : ∃ σ, Run (responded ++ [.cancel 0, .unregister 0]) σ ∧ Quiescent σ ∧
    σ.store.blocks.Away 0 ∧ (∀ m, σ.kept m = false) ∧ ¬Accounted σ := by
  obtain ⟨σ, hrun, hq, haway, -, hkept⟩ := responded_rests (.cancel 0) (.inr rfl)
  refine ⟨σ, hrun, hq, haway, hkept rfl, fun hacc => ?_⟩
  obtain ⟨⟨m, hm⟩, hall⟩ := hacc 0 haway
  exact Bool.false_ne_true ((hkept rfl m).symm.trans (hall m hm))

end Zap.Slabs
