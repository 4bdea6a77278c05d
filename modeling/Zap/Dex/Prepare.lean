/-
# Zap.Dex.Prepare — what the user signs does not depend on the server.

A prepared intent is built on the client, and the one call on the way is for an estimate. A server is here an
arbitrary environment with a state of its own: it answers each call with any bytes or with a failure, and
decides every select as it likes. What it does not own is the table of grants. `prepared_alike` compares two
such servers.

A server that does not answer at all is one whose call fails when the context ends. Nothing is said here
about a context that does not end either; nothing is prepared then.
-/
import Zap.Dex.Scope

namespace Zap.Dex

open Zap.Lib Zap.Wire Proc
open Prog (Ensures)

/-! ## The estimate -/

section Estimate

variable {ok : Ev dexSig → Prop}

end Estimate

/-! ## What is signed -/

def signed (r : Except DexError PreparedIntent) : Except DexError PreparedIntent :=
  r.map fun pi => { pi with quotedOut := 0 }

def FromTable (table : Token → Option Grant) : Ev dexSig → Prop
  | ⟨.lookup t, g⟩ => g = table t
  | _ => True

section Signed

variable {sha256 : List UInt8 → ID} {table : Token → Option Grant} {dex : Session}

/-- The outcome of the operation is fixed by the table, but for the estimate. -/
def Fixed (table : Token → Option Grant) (p : Op PreparedIntent) : Prop :=
  ∃ outcome, Ensures (FromTable table) (signed · = outcome) p.run

end Signed

/-! ## Two servers -/

abbrev Surroundings (σ : Type) := σ → (r : DexReq) → r.Resp × σ

def Surroundings.outcome {σ α : Type} (server : Surroundings σ) (p : Op α) (w : σ) : Except DexError α :=
  (Prog.exec (S := dexSig) server p.run w).2.1

/-- The lookups of the environment are those of a table. -/
def Surroundings.Keeps {σ : Type} (server : Surroundings σ) (table : Token → Option Grant) : Prop :=
  ∀ w t, (server w (.lookup t)).1 = table t

theorem Fixed.outcome {table : Token → Option Grant} {p : Op PreparedIntent} (h : Fixed table p)
    {σ τ : Type} {server : Surroundings σ} {server' : Surroundings τ} (hs : server.Keeps table)
    (hs' : server'.Keeps table) (w : σ) (w' : τ) : signed (server.outcome p w) = signed (server'.outcome p w') := by
  have hanswers : ∀ {σ : Type} {server : Surroundings σ}, server.Keeps table → ∀ w r,
      FromTable table (⟨r, (server w r).1⟩ : Ev dexSig) := by
    intro σ server hkeeps w r
    cases r with
    | lookup t => exact hkeeps w t
    | _ => trivial
  obtain ⟨outcome, h⟩ := h
  rw [Surroundings.outcome, h.exec (hanswers hs), Surroundings.outcome, h.exec (hanswers hs')]

end Zap.Dex
