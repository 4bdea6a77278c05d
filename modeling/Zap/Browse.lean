/-
# Zap.Browse — the services on the local network (`mdns/go/zapmdns.go`).

`Browse` gives `mdns.Query` a channel and a collector that ranges over it. After the query it waits until the
collector is done, which is when the channel is closed. The channel is closed by a deferred call of `Browse`,
so after it has waited.
-/
import Mathlib.Logic.Relation
import Zap.Lib.Bytes

namespace Zap.Browse

open Zap.Lib

/-! ## An entry -/

/-- `mdns.ServiceEntry`, as far as it is read; the addresses as their `String`. -/
structure Entry where
  port : Int
  addrV4 : Option Str
  addrV6 : Option Str
  host : Str
  infoFields : List Str

structure Service where
  role : Str := []
  serverID : Str := []
  org : Str := []
  version : Str := []
  proto : Str := []
  capabilities : List Str := []
  agentLabel : Str := []
  auth : Str := []
  host : Str
  port : Int

def Service.set (s : Service) (kv : Str) : Service :=
  if 0x3D ∉ kv then s
  else
    let (k, v) := cut 0x3D kv
    if k = str "role" then { s with role := v }
    else if k = str "server_id" then { s with serverID := v }
    else if k = str "org" then { s with org := v }
    else if k = str "version" then { s with version := v }
    else if k = str "proto" then { s with proto := v }
    else if k = str "capabilities" then if v = [] then s else { s with capabilities := v.splitOn 0x2C }
    else if k = str "agent_label" then { s with agentLabel := v }
    else if k = str "auth" then { s with auth := v }
    else s

variable (parseIP : Str → Option Str) (role : Str)

/-- `parseEntry`; `none` is nil, on both sides. `parseIP` is `net.ParseIP` with `String`. -/
def parseEntry (e : Option Entry) : Option Service := do
  let e ← e
  let host := (e.addrV4 <|> e.addrV6 <|> parseIP e.host).getD
    (if e.host.getLast? = some 0x2E then e.host.dropLast else e.host)
  let s := e.infoFields.foldl Service.set { host := host, port := e.port }
  if s.role = [] then none
  else some (if s.org = [] then { s with org := str "hanzo" } else s)

def matched (e : Option Entry) : Option Service := (parseEntry parseIP e).filter fun s => role = [] ∨ s.role = role

/-! ## The two goroutines -/

/-- Where `Browse` is: in the query, which has entries to send yet; at `<-done`; before its deferred call; or
returned. -/
inductive Caller
  | querying (left : List (Option Entry))
  | waiting
  | leaving (services : Option (List Service))
  | returned (services : Option (List Service))

/-- `done` : the collector has closed it. -/
structure State where
  caller : Caller
  entries : List (Option Entry)
  closed : Bool
  out : List Service
  done : Bool

/-- One step of either, in a query that fails or not. The channel holds 32 entries. -/
inductive Step (failed : Bool) : State → State → Prop
  | send {e left σ} : σ.caller = .querying (e :: left) → σ.entries.length < 32 →
      Step failed σ { σ with caller := .querying left, entries := σ.entries ++ [e] }
  | queryReturns {σ} : σ.caller = .querying [] →
      Step failed σ { σ with caller := if failed then .leaving none else .waiting }
  | collect {e rest σ} : σ.entries = e :: rest →
      Step failed σ { σ with entries := rest, out := σ.out ++ (matched parseIP role e).toList }
  | rangeEnds {σ} : σ.entries = [] → σ.closed = true → σ.done = false → Step failed σ { σ with done := true }
  | doneSeen {σ} : σ.caller = .waiting → σ.done = true → Step failed σ { σ with caller := .leaving (some σ.out) }
  | close {r σ} : σ.caller = .leaving r → Step failed σ { σ with caller := .returned r, closed := true }

/-- `Browse` comes to the state, where the query sends the entries given and then fails or not. -/
def Reaches (failed : Bool) (sent : List (Option Entry)) : State → Prop :=
  Relation.ReflTransGen (Step parseIP role failed) ⟨.querying sent, [], false, [], false⟩

/-- The collector waits for an entry, and `Browse` for room in the channel or for the collector. -/
def State.Deadlocked (σ : State) : Prop :=
  (σ.entries = [] ∧ σ.closed = false ∧ σ.done = false) ∧
    ((∃ e left, σ.caller = .querying (e :: left) ∧ 32 ≤ σ.entries.length) ∨ σ.caller = .waiting)

/-- The two never block each other, and if the query has not failed `Browse` ends with all matches. -/
def Browses (failed : Bool) (sent : List (Option Entry)) : Prop :=
  ∀ σ, Reaches parseIP role failed sent σ → ¬σ.Deadlocked ∧
    (failed = false → (∀ τ, ¬Step parseIP role failed σ τ) →
      σ.caller = .returned (some (sent.filterMap (matched parseIP role))))

/-! ## Whole runs -/

def Caller.left : Caller → List (Option Entry)
  | .querying left => left
  | _ => []

/-- Nothing is lost or reordered on the way, and after a query that fails nobody waits. -/
structure Kept (failed : Bool) (services : List Service) (σ : State) : Prop where
  all : σ.out ++ (σ.entries ++ σ.caller.left).filterMap (matched parseIP role) = services
  waits : failed = true → σ.caller ≠ .waiting

variable {parseIP role} {failed : Bool} {sent : List (Option Entry)} {σ τ : State}

theorem Kept.step {services : List Service} (h : Kept parseIP role failed services σ)
    (hstep : Step parseIP role failed σ τ) : Kept parseIP role failed services τ := by
  obtain ⟨hall, hwaits⟩ := h
  cases hstep with
  | send hc | doneSeen hc | close hc => exact ⟨by simpa [hc, Caller.left] using hall, nofun⟩
  | queryReturns hc => cases failed <;> exact ⟨by simpa [hc, Caller.left] using hall, nofun⟩
  | @collect e rest σ hc =>
    refine ⟨?_, hwaits⟩
    rw [hc] at hall
    cases hm : matched parseIP role e <;> simpa [hm] using hall
  | rangeEnds => exact ⟨hall, hwaits⟩

theorem Reaches.kept (h : Reaches parseIP role failed sent σ) :
    Kept parseIP role failed (sent.filterMap (matched parseIP role)) σ := by
  induction h with
  | refl => exact ⟨rfl, nofun⟩
  | tail _ hstep ih => exact ih.step hstep

theorem reaches_waiting : ∀ (sent : List (Option Entry)) (out : List Service),
    Relation.ReflTransGen (Step parseIP role false) ⟨.querying sent, [], false, out, false⟩
      ⟨.waiting, [], false, out ++ sent.filterMap (matched parseIP role), false⟩
  | [], out => by
      rw [List.filterMap_nil, List.append_nil]
      exact .single (.queryReturns rfl)
  | e :: sent, out => by
      have hout : out ++ (e :: sent).filterMap (matched parseIP role) =
          out ++ (matched parseIP role e).toList ++ sent.filterMap (matched parseIP role) := by
        cases hm : matched parseIP role e <;> simp [hm]
      rw [hout]
      exact .head (.send rfl (Nat.succ_pos 31)) (.head (.collect rfl) (reaches_waiting sent _))

/-- **When browsing works**: exactly if the query fails. Where the two block each other the collector has
every match. -/
theorem browse_iff (parseIP : Str → Option Str) (role : Str) (failed : Bool) (sent : List (Option Entry)) :
    (Browses parseIP role failed sent ↔ failed = true) ∧
      ∀ σ, Reaches parseIP role failed sent σ → σ.Deadlocked → σ.out = sent.filterMap (matched parseIP role) := by
  refine ⟨⟨fun h => ?_, ?_⟩, fun σ hσ hdead => ?_⟩
  · by_contra hf
    obtain rfl : failed = false := by simpa using hf
    exact (h _ (reaches_waiting sent [])).1 ⟨⟨rfl, rfl, rfl⟩, .inr rfl⟩
  · rintro rfl σ hσ
    refine ⟨?_, nofun⟩
    rintro ⟨⟨hempty, -⟩, ⟨e, left, -, hfull⟩ | hwait⟩
    · rw [hempty] at hfull
      exact absurd hfull (by decide)
    · exact hσ.kept.waits rfl hwait
  · obtain ⟨⟨hempty, -⟩, ⟨e, left, -, hfull⟩ | hwait⟩ := hdead
    · rw [hempty] at hfull
      exact absurd hfull (by decide)
    · simpa [hempty, hwait, Caller.left] using hσ.kept.all

/-- No service on the network: the query returns after its timeout, and `Browse` never does. -/
theorem silent_network_blocks : ∃ σ, Reaches (fun _ => none) [] false [] σ ∧ σ.Deadlocked ∧
    ∀ τ, ¬Step (fun _ => none) [] false σ τ :=
  ⟨_, reaches_waiting [] [], ⟨⟨rfl, rfl, rfl⟩, .inr rfl⟩, by rintro τ ⟨⟩ <;> contradiction⟩

end Zap.Browse
