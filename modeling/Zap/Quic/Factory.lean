/-
# Zap.Quic.Factory — several QUIC nodes behind one registered factory (`quic/factory.go`, `client.go`).

`init` registers one `factory` object for the whole process. Every successful `Listen` stores the client
it made in the factory's single `client` field, over the one that was there; `Dial` uses whatever client
is in the field and never looks at the configuration it was called with; the closer that `Listen` returns
closes the client and leaves the field alone.

The specification is isolation: a node's `Dial` comes out as if the other nodes did not exist.
-/
import Zap.Quic.Accept
import Mathlib.Logic.Function.Basic

namespace Zap.Quic

open Zap.Lib

/-! ## TLS settings -/

/-- The caller's session cache, or the one the package makes. -/
inductive SessionCache
  | caller (id : Nat)
  | lru (capacity : Nat)
  deriving DecidableEq

/-- A `tls.Config`: the fields this package reads or sets, and the others. -/
structure TLSConfig (T : Type) where
  minVersion : Nat
  curvePreferences : List Nat
  nextProtos : List Str
  certificates : Bool
  getCertificate : Bool
  sessionTicketsDisabled : Bool
  clientSessionCache : Option SessionCache
  others : T
  deriving DecidableEq

def defaultCurvePreferences : List Nat := [0x11ec, 29]

def applyZAPDefaults {T : Type} (cfg : TLSConfig T) : TLSConfig T :=
  { cfg with
    minVersion := if cfg.minVersion = 0 then 0x0304 else cfg.minVersion
    curvePreferences :=
      if cfg.curvePreferences.length = 0 then defaultCurvePreferences else cfg.curvePreferences
    nextProtos :=
      if cfg.nextProtos.length = 0 then [alpn]
      else if cfg.nextProtos.any (· == alpn) then cfg.nextProtos else alpn :: cfg.nextProtos
    clientSessionCache :=
      if cfg.sessionTicketsDisabled = false ∧ cfg.clientSessionCache = none then some (.lru 128)
      else cfg.clientSessionCache }

structure NodeConfig (T : Type) where
  nodeID : Str
  tls : Option (TLSConfig T)

/-- What a peer gets to see of a node: the id in the identity frame, and the TLS settings. -/
def NodeConfig.presented {T : Type} (c : NodeConfig T) : Str × Option (TLSConfig T) :=
  (c.nodeID.take (nodeIDFrameSize - 4), c.tls.map applyZAPDefaults)

/-! ## The factory

The nodes of the process are `ν`, each with its configuration. A client is referred to by the node whose
`Listen` made it and the number of that `Listen`. -/

/-- A `*Client`: its configuration, and whether `Close` has taken its transport away. -/
structure DialClient (T : Type) where
  nodeID : Str
  tls : TLSConfig T
  closed : Bool

/-- The factory, with the clients made so far. -/
structure Factory (ν T : Type) where
  made : ν → List (DialClient T)
  client : Option (ν × Nat)

/-- A call that changes the factory: `Listen` for a node, where `bound` says whether the sockets could be
opened, and the closer of a node's `j`-th `Listen`. -/
inductive Event (ν : Type)
  | listen (n : ν) (bound : Bool)
  | close (n : ν) (j : Nat)

def Event.node {ν : Type} : Event ν → ν
  | .listen n _ => n
  | .close n _ => n

variable {ν T : Type} [DecidableEq ν] (cfg : ν → NodeConfig T)

/-- The client `Listen` makes, if it succeeds: TLS settings with a certificate and a non-empty id are
required, by `Listen` in `server.go` and by `NewClient`. -/
def newClient (n : ν) (bound : Bool) : Option (DialClient T) :=
  match (cfg n).tls with
  | none => none
  | some tls =>
    if (cfg n).nodeID = [] then none
    else if tls.certificates = false ∧ tls.getCertificate = false then none
    else if bound then some ⟨(cfg n).nodeID, tls, false⟩ else none

def DialClient.close (c : DialClient T) : DialClient T := { c with closed := true }

/-- `factory.Listen`, and the closer it returned. -/
def Factory.step (f : Factory ν T) : Event ν → Factory ν T
  | .listen n bound =>
    match newClient cfg n bound with
    | none => f
    | some c => ⟨Function.update f.made n (f.made n ++ [c]), some (n, (f.made n).length)⟩
  | .close n j => { f with made := Function.update f.made n ((f.made n).modify j DialClient.close) }

def Factory.run (tr : List (Event ν)) : Factory ν T := tr.foldl (Factory.step cfg) ⟨fun _ => [], none⟩

/-- How a `Dial` comes out, up to what the remote side does. -/
inductive Outcome (T : Type)
  /-- "Dial called before Listen" -/
  | noClient
  /-- The transport is gone: an error of the closed transport, or a nil dereference. -/
  | stopped
  | presents (id : Str) (tls : TLSConfig T)
  deriving DecidableEq

/-- `Client.dial`: `performClientHandshake` sends the id `writeHandshake` cuts to 60 bytes. -/
def DialClient.dial (c : DialClient T) : Outcome T :=
  if c.closed then .stopped else .presents (c.nodeID.take (nodeIDFrameSize - 4)) (applyZAPDefaults c.tls)

def Factory.dialThrough (f : Factory ν T) : Option (ν × Nat) → Outcome T
  | none => .noClient
  | some (n, j) => ((f.made n)[j]?.map DialClient.dial).getD .noClient

/-- `factory.Dial`: the field is read after `tr₁`, the client is used after `tr₂` more. -/
def dial (tr₁ tr₂ : List (Event ν)) : Outcome T :=
  (Factory.run cfg (tr₁ ++ tr₂)).dialThrough (Factory.run cfg tr₁).client

def own (n : ν) (tr : List (Event ν)) : List (Event ν) := tr.filter fun e => e.node = n

/-- A `Dial` made for node `n` shows the peer what `n`'s configuration says, and comes out as in a process
with the node `n` alone. -/
structure DialsAsItself (n : ν) (tr₁ tr₂ : List (Event ν)) : Prop where
  identity : ∀ id tls, dial cfg tr₁ tr₂ = .presents id tls → (cfg n).presented = (id, some tls)
  isolated : dial cfg tr₁ tr₂ = dial cfg (own n tr₁) (own n tr₂)

/-! ## Histories -/

variable {cfg}

@[simp] theorem run_concat (tr : List (Event ν)) (e : Event ν) :
    Factory.run cfg (tr ++ [e]) = (Factory.run cfg tr).step cfg e := by
  rw [Factory.run, List.foldl_append]
  rfl

variable {e : Event ν} {n : ν}

theorem step_made_other (f : Factory ν T) (h : e.node ≠ n) : (f.step cfg e).made n = f.made n := by
  cases e with
  | listen m bound =>
    rw [Factory.step]
    cases newClient cfg m bound with
    | none => rfl
    | some c => exact Function.update_of_ne (Ne.symm h) _ _
  | close m j => exact Function.update_of_ne (Ne.symm h) _ _

theorem step_made_own {f g : Factory ν T} (h : e.node = n) (hfg : f.made n = g.made n) :
    (f.step cfg e).made n = (g.step cfg e).made n := by
  subst h
  cases e with
  | listen m bound =>
    have hfg : f.made m = g.made m := hfg
    simp only [Factory.step, Event.node]
    cases newClient cfg m bound with
    | none => exact hfg
    | some c => simp only [Function.update_self, hfg]
  | close m j =>
    have hfg : f.made m = g.made m := hfg
    simp only [Factory.step, Event.node, Function.update_self, hfg]

theorem own_concat (n : ν) (tr : List (Event ν)) (e : Event ν) :
    own n (tr ++ [e]) = if e.node = n then own n tr ++ [e] else own n tr := by
  rw [own, List.filter_append, ← own]
  by_cases he : e.node = n
  · simp [he]
  · simp [he]

theorem made_own (n : ν) (tr : List (Event ν)) :
    (Factory.run cfg (own n tr)).made n = (Factory.run cfg tr).made n := by
  induction tr using List.reverseRecOn with
  | nil => rfl
  | append_singleton tr e ih =>
    rw [own_concat, run_concat]
    by_cases he : e.node = n
    · rw [if_pos he, run_concat]
      exact step_made_own he ih
    · rw [if_neg he, step_made_other _ he]
      exact ih

def Factory.latest (f : Factory ν T) (n : ν) : Option (ν × Nat) :=
  match (f.made n).length with
  | 0 => none
  | j + 1 => some (n, j)

variable (cfg) in
/-- The node that has just made itself the factory's client, if the call is a `Listen` that succeeds. -/
def Event.listener : Event ν → Option ν
  | .listen n bound => (newClient cfg n bound).map fun _ => n
  | .close _ _ => none

variable (cfg) in
def lastListener (tr : List (Event ν)) : Option ν := tr.foldl (fun last e => (e.listener cfg).or last) none

omit [DecidableEq ν] in
theorem lastListener_concat (tr : List (Event ν)) (e : Event ν) :
    lastListener cfg (tr ++ [e]) = (e.listener cfg).or (lastListener cfg tr) := by
  rw [lastListener, List.foldl_append]
  rfl

/-- Only a `Listen` that succeeds touches the field or makes a node's latest client another one. -/
theorem step_quiet (f : Factory ν T) (h : e.listener cfg = none) :
    (f.step cfg e).client = f.client ∧ ∀ m, (f.step cfg e).latest m = f.latest m := by
  cases e with
  | listen n bound =>
    have hnew : newClient cfg n bound = none := Option.map_eq_none_iff.mp h
    simp [Factory.step, hnew]
  | close n j =>
    refine ⟨rfl, fun m => ?_⟩
    have hlen : ((f.step cfg (.close n j)).made m).length = (f.made m).length := by
      simp only [Factory.step]
      by_cases hm : m = n
      · subst hm
        rw [Function.update_self, List.length_modify]
      · rw [Function.update_of_ne hm]
    rw [Factory.latest, Factory.latest, hlen]

theorem step_listener (f : Factory ν T) (h : e.listener cfg = some n) :
    e.node = n ∧ (f.step cfg e).client = (f.step cfg e).latest n ∧ (f.step cfg e).latest n ≠ none := by
  cases e with
  | close m j => cases h
  | listen m bound =>
    obtain ⟨c, hnew, rfl⟩ := Option.map_eq_some_iff.mp h
    have hlatest : ((f.step cfg (.listen m bound)).latest m) = some (m, (f.made m).length) := by
      simp only [Factory.latest, Factory.step, hnew, Function.update_self, List.length_append, List.length_singleton]
    refine ⟨rfl, ?_, by rw [hlatest]; exact Option.some_ne_none _⟩
    rw [hlatest]
    simp only [Factory.step, hnew]

/-- **The field holds the latest client of the last node to listen**, whoever is going to dial. -/
theorem client_eq (tr : List (Event ν)) :
    (Factory.run cfg tr).client = (lastListener cfg tr).bind (Factory.run cfg tr).latest := by
  induction tr using List.reverseRecOn with
  | nil => rfl
  | append_singleton tr e ih =>
    rw [run_concat, lastListener_concat]
    cases hl : e.listener cfg with
    | none =>
      obtain ⟨hclient, hlatest⟩ := step_quiet (Factory.run cfg tr) hl
      rw [hclient, funext hlatest, Option.none_or, ih]
    | some n => exact (step_listener (Factory.run cfg tr) hl).2.1

/-- The last node to listen has a client, and while there is none nobody has. -/
theorem lastListener_latest (cfg : ν → NodeConfig T) (tr : List (Event ν)) :
    (∀ m, lastListener cfg tr = some m → (Factory.run cfg tr).latest m ≠ none) ∧
    (lastListener cfg tr = none → ∀ m, (Factory.run cfg tr).latest m = none) := by
  induction tr using List.reverseRecOn with
  | nil =>
    refine ⟨fun m hm => ?_, fun _ m => rfl⟩
    cases hm
  | append_singleton tr e ih =>
    rw [run_concat, lastListener_concat]
    cases hl : e.listener cfg with
    | none =>
      rw [Option.none_or, funext (step_quiet (Factory.run cfg tr) hl).2]
      exact ih
    | some n =>
      refine ⟨fun m hm => ?_, fun hm => ?_⟩
      · cases hm
        exact (step_listener (Factory.run cfg tr) hl).2.2
      · cases hm

theorem client_own (n : ν) (tr : List (Event ν)) :
    (Factory.run cfg (own n tr)).client = (Factory.run cfg tr).latest n := by
  have hown : (Factory.run cfg (own n tr)).client = (Factory.run cfg (own n tr)).latest n := by
    induction tr using List.reverseRecOn with
    | nil => rfl
    | append_singleton tr e ih =>
      rw [own_concat]
      by_cases he : e.node = n
      · rw [if_pos he, run_concat]
        cases hl : e.listener cfg with
        | none =>
          obtain ⟨hclient, hlatest⟩ := step_quiet (Factory.run cfg (own n tr)) hl
          rw [hclient, hlatest, ih]
        | some m =>
          obtain ⟨hm, hclient, -⟩ := step_listener (Factory.run cfg (own n tr)) hl
          cases hm.symm.trans he
          exact hclient
      · rw [if_neg he]
        exact ih
  rw [hown, Factory.latest, Factory.latest, made_own]

theorem made_config (tr : List (Event ν)) (n : ν) :
    ∀ c ∈ (Factory.run cfg tr).made n, (cfg n).nodeID = c.nodeID ∧ (cfg n).tls = some c.tls := by
  induction tr using List.reverseRecOn with
  | nil => exact fun c hc => by cases hc
  | append_singleton tr e ih =>
    rw [run_concat]
    by_cases he : e.node = n
    swap
    · rw [step_made_other _ he]
      exact ih
    subst he
    cases e with
    | listen m bound =>
      cases hnew : newClient cfg m bound with
      | none =>
        simp only [Factory.step, hnew]
        exact ih
      | some d =>
        simp only [Factory.step, hnew, Event.node, Function.update_self]
        intro c hc
        rcases List.mem_append.mp hc with hold | hlast
        · exact ih c hold
        cases List.mem_singleton.mp hlast
        revert hnew
        rw [newClient]
        cases (cfg m).tls with
        | none => exact fun h => by cases h
        | some tls =>
          dsimp only
          split_ifs <;> intro h <;> cases h
          exact ⟨rfl, rfl⟩
    | close m j =>
      simp only [Factory.step, Event.node, Function.update_self]
      intro c hc
      obtain ⟨i, hi, rfl⟩ := List.getElem_of_mem hc
      rw [List.length_modify] at hi
      have hmem := ih _ (List.getElem_mem hi)
      rw [List.getElem_modify]
      split_ifs
      · exact hmem
      · exact hmem

/-! ## Who a `Dial` speaks for -/

variable (cfg) in
/-- What dialing after `tr₂` through the latest client node `n` had made in `tr₁` comes to. -/
def view (n : ν) (tr₁ tr₂ : List (Event ν)) : Outcome T :=
  (Factory.run cfg (tr₁ ++ tr₂)).dialThrough ((Factory.run cfg tr₁).latest n)

variable (cfg) in
def Live (n : ν) (tr₁ tr₂ : List (Event ν)) : Prop := view cfg n tr₁ tr₂ ≠ .stopped

theorem made_length (cfg : ν → NodeConfig T) (tr1 tr2 : List (Event ν)) (n : ν) :
    ((Factory.run cfg tr1).made n).length ≤ ((Factory.run cfg (tr1 ++ tr2)).made n).length := by
  induction tr2 using List.reverseRecOn with
  | nil => rw [List.append_nil]
  | append_singleton tr2 e ih =>
    rw [← List.append_assoc, run_concat]
    refine ih.trans ?_
    cases e with
    | listen m bound =>
      rw [Factory.step]
      cases newClient cfg m bound with
      | none => exact Nat.le_refl _
      | some c =>
        by_cases hm : n = m
        · subst hm
          simp
        · simp [Function.update_of_ne hm]
    | close m j =>
      by_cases hm : n = m
      · subst hm
        simp [Factory.step]
      · simp [Factory.step, Function.update_of_ne hm]

theorem view_cases (cfg : ν → NodeConfig T) (n : ν) (tr1 tr2 : List (Event ν)) :
    ((Factory.run cfg tr1).latest n = none ∧ view cfg n tr1 tr2 = .noClient) ∨
    ((Factory.run cfg tr1).latest n ≠ none ∧ view cfg n tr1 tr2 = .stopped) ∨
    ((Factory.run cfg tr1).latest n ≠ none ∧
      ∃ id tls, view cfg n tr1 tr2 = .presents id tls ∧ (cfg n).presented = (id, some tls)) := by
  have hlen := made_length cfg tr1 tr2 n
  rw [view, Factory.latest]
  cases hk : ((Factory.run cfg tr1).made n).length with
  | zero => exact .inl ⟨rfl, rfl⟩
  | succ j =>
    have hlt : j < ((Factory.run cfg (tr1 ++ tr2)).made n).length := by omega
    have hthrough : (Factory.run cfg (tr1 ++ tr2)).dialThrough (some (n, j)) =
        (((Factory.run cfg (tr1 ++ tr2)).made n).get ⟨j, hlt⟩).dial := by
      simp only [Factory.dialThrough, List.getElem?_eq_getElem hlt, Option.map_some, Option.getD_some,
        List.get_eq_getElem]
    obtain ⟨hid, htls⟩ := made_config (tr1 ++ tr2) n _ (List.get_mem _ ⟨j, hlt⟩)
    dsimp only
    rw [hthrough, DialClient.dial]
    split_ifs
    · exact .inr (.inl ⟨Option.some_ne_none _, rfl⟩)
    · refine .inr (.inr ⟨Option.some_ne_none _, _, _, rfl, ?_⟩)
      rw [NodeConfig.presented, hid, htls]
      rfl

theorem dial_views (cfg : ν → NodeConfig T) (n : ν) (tr1 tr2 : List (Event ν)) :
    (lastListener cfg tr1 = none → dial cfg tr1 tr2 = .noClient) ∧
    (∀ m, lastListener cfg tr1 = some m → dial cfg tr1 tr2 = view cfg m tr1 tr2) ∧
    dial cfg (own n tr1) (own n tr2) = view cfg n tr1 tr2 := by
  refine ⟨fun h => by rw [dial, client_eq, h]; rfl, fun m h => by rw [dial, client_eq, h]; rfl, ?_⟩
  have happ : own n tr1 ++ own n tr2 = own n (tr1 ++ tr2) := (List.filter_append ..).symm
  rw [dial, view, client_own, happ, Factory.latest]
  cases ((Factory.run cfg tr1).made n).length with
  | zero => rfl
  | succ j => simp only [Factory.dialThrough, made_own]

/-- **When a node dials as itself**: when nobody has listened yet; when the node was the last to listen;
or when the one that was last cannot be told from it, because both present the same and both are
running, or because both were stopped. -/
theorem dials_as_itself_iff (cfg : ν → NodeConfig T) (n : ν) (tr₁ tr₂ : List (Event ν)) :
    DialsAsItself cfg n tr₁ tr₂ ↔
      ∀ m, lastListener cfg tr₁ = some m →
        m = n ∨ (Factory.run cfg tr₁).latest n ≠ none ∧ (Live cfg m tr₁ tr₂ ↔ Live cfg n tr₁ tr₂) ∧
          (Live cfg n tr₁ tr₂ → (cfg m).presented = (cfg n).presented) := by
  obtain ⟨hnone, hsome, hown⟩ := dial_views cfg n tr₁ tr₂
  obtain ⟨hlast, hnobody⟩ := lastListener_latest cfg tr₁
  constructor
  · intro h m hm
    right
    have hiso : view cfg m tr₁ tr₂ = view cfg n tr₁ tr₂ := by
      rw [← hsome m hm, h.isolated, hown]
    have hlive : Live cfg m tr₁ tr₂ ↔ Live cfg n tr₁ tr₂ := by rw [Live, Live, hiso]
    -- the two views agree, so the node has a client as the last listener has one
    have hlisted : (Factory.run cfg tr₁).latest n ≠ none := by
      intro hl
      rcases view_cases cfg m tr₁ tr₂ with ⟨hl', -⟩ | ⟨-, hv⟩ | ⟨-, id, tls, hv, -⟩
      · exact hlast m hm hl'
      · rw [hiso, view, hl] at hv
        cases hv
      · rw [hiso, view, hl] at hv
        cases hv
    refine ⟨hlisted, hlive, fun hn => ?_⟩
    rcases view_cases cfg n tr₁ tr₂ with ⟨hl, -⟩ | ⟨-, hv⟩ | ⟨-, id, tls, hv, hp⟩
    · exact absurd hl hlisted
    · exact absurd hv hn
    · rcases view_cases cfg m tr₁ tr₂ with ⟨hl, -⟩ | ⟨-, hv'⟩ | ⟨-, id', tls', hv', hp'⟩
      · exact absurd hl (hlast m hm)
      · exact absurd hv' (hlive.mpr hn)
      · rw [hiso, hv] at hv'
        cases hv'
        rw [hp, hp']
  · intro h
    cases hm : lastListener cfg tr₁ with
    | none =>
      have hview : view cfg n tr₁ tr₂ = .noClient := by
        rw [view, hnobody hm n]
        rfl
      refine ⟨fun id tls hd => ?_, by rw [hnone hm, hown, hview]⟩
      rw [hnone hm] at hd
      cases hd
    | some m =>
      have hiso : view cfg m tr₁ tr₂ = view cfg n tr₁ tr₂ := by
        rcases h m hm with rfl | ⟨hlisted, hlive, hsame⟩
        · rfl
        rcases view_cases cfg n tr₁ tr₂ with ⟨hl, -⟩ | ⟨-, hv⟩ | ⟨-, id, tls, hv, hp⟩
        · exact absurd hl hlisted
        · rw [hv]
          by_contra hm'
          exact hlive.mp hm' hv
        · have hn : Live cfg n tr₁ tr₂ := by
            rw [Live, hv]
            exact fun h => by cases h
          rcases view_cases cfg m tr₁ tr₂ with ⟨hl, -⟩ | ⟨-, hv'⟩ | ⟨-, id', tls', hv', hp'⟩
          · exact absurd hl (hlast m hm)
          · exact absurd hv' (hlive.mpr hn)
          · have hpair := hp'.symm.trans ((hsame hn).trans hp)
            rw [Prod.mk.injEq, Option.some.injEq] at hpair
            rw [hv, hv', hpair.1, hpair.2]
      have hdial : dial cfg tr₁ tr₂ = view cfg n tr₁ tr₂ := by rw [hsome m hm, hiso]
      refine ⟨fun id tls hd => ?_, by rw [hdial, hown]⟩
      rcases view_cases cfg n tr₁ tr₂ with ⟨-, hv⟩ | ⟨-, hv⟩ | ⟨-, id', tls', hv, hp⟩ <;>
        rw [hdial, hv] at hd <;> cases hd
      exact hp

def certified : TLSConfig Unit := ⟨0, [], [], true, false, false, none, ()⟩

def twoNodes (n : Bool) : NodeConfig Unit := ⟨if n then [0x61] else [0x62], some certified⟩

/-- Node `a` listens, then node `b` does: a `Dial` for `a` presents `b`, and once `b` is stopped it does
not get through at all, while on its own `a` presents itself. -/
theorem other_node_presented :
    dial twoNodes [.listen true true, .listen false true] [] = .presents [0x62] (applyZAPDefaults certified) ∧
    dial twoNodes [.listen true true, .listen false true, .close false 0] [] = .stopped ∧
    dial twoNodes (own true [.listen true true, .listen false true]) [] =
      .presents [0x61] (applyZAPDefaults certified) ∧
    ¬DialsAsItself twoNodes true [.listen true true, .listen false true] [] := by
  have hb : dial twoNodes [.listen true true, .listen false true] [] =
      .presents [0x62] (applyZAPDefaults certified) := by decide
  refine ⟨hb, by decide, by decide, fun h => ?_⟩
  have hid := h.identity _ _ hb
  revert hid
  decide

end Zap.Quic
