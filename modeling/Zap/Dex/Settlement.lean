/-
# Zap.Dex.Settlement — who chooses the settlement transaction.

`ImportSettlement` hands the user a transaction to sign. `Bound` is what it should be: a call to the
settlement address, for the object the ref names, whose hookData settles that object. The handler of
`server.go` forces the address and the object key on what its venue returns; the client takes what the reply
reads as.

The handler is modelled for one message: the route from the flags to the handler is the node's.
-/
import Zap.Dex.Session

namespace Zap.Dex

open Zap.Lib Zap.Wire Proc

/-! ## Servers -/

abbrev Server := Message → Option (List UInt8) → Prop

def Resolves {α : Type} (server : Server) (p : Op α) (x : α) : Prop :=
  ∃ tr, Yields p tr x ∧
    ∀ msg (answer : Option (List UInt8)), (⟨DexReq.call msg, answer⟩ : Ev dexSig) ∈ tr → server msg answer

/-- `Venue.ResolveExport`; `none` is an error. -/
abbrev ResolveExport := DExportRef → Option SettlementSubmitResult

section Handler

variable (sha256 : List UInt8 → ID)

def importHandler (resolveExport : ResolveExport) (msg : Message) : Go (Except WireError Message) := do
  let ref ← readDExportRef msg
  match resolveExport ref with
  | none =>
    buildSettlementResult {
      mode := settleCalldata
      toAddr := addr9999
      calldata := []
      objectKey := ref.objectKey sha256
      cTxHash := .zero 32 }
  | some res => buildSettlementResult { res with objectKey := ref.objectKey sha256, toAddr := addr9999 }

/-- A node that runs the handler answers with the bytes of the message the handler returns. -/
def fullServiceNode (resolveExport : ResolveExport) : Server := fun msg answer =>
  ∃ resp, importHandler sha256 resolveExport msg = .ok (.ok resp) ∧ answer = some resp.data

/-! ## The bound -/

def Settles (key : ID) (calldata : List UInt8) : Prop :=
  ∃ pk zeroForOne amountIn amount intentID,
    calldata = encodeSwapCalldata pk zeroForOne amountIn (encodeSettlementHookData key amount intentID)

def Bound (ref : DExportRef) (res : SettlementSubmitResult) : Prop :=
  res.toAddr = addr9999 ∧ res.objectKey = ref.objectKey sha256 ∧
    (res.mode = settleCalldata → Settles (ref.objectKey sha256) res.calldata)

theorem not_settles_nil (key : ID) : ¬Settles key [] := by
  rintro ⟨pk, z, a, b, i, h⟩
  have := congrArg List.length h
  rw [encodeSwapCalldata, List.length_append, List.length_append, selectorSwap, be_length] at this
  rw [List.length_nil] at this
  omega

def handled (resolveExport : ResolveExport) (ref : DExportRef) : SettlementSubmitResult :=
  match resolveExport ref with
  | none => ⟨settleCalldata, addr9999, [], ref.objectKey sha256, .zero 32⟩
  | some res => { res with objectKey := ref.objectKey sha256, toAddr := addr9999 }

/-- The venue does its part: it resolves the ref, in calldata mode to a settlement of the object. -/
def VenueSettles (resolveExport : ResolveExport) (ref : DExportRef) : Prop :=
  ∃ res, resolveExport ref = some res ∧
    (res.mode = settleCalldata → Settles (ref.objectKey sha256) res.calldata)

theorem handled_bound_iff (resolveExport : ResolveExport) (ref : DExportRef) :
    Bound sha256 ref (handled sha256 resolveExport ref) ↔ VenueSettles sha256 resolveExport ref := by
  unfold handled VenueSettles Bound
  cases resolveExport ref with
  | none => simpa using not_settles_nil _
  | some res => simp

theorem handled_forced (resolveExport : ResolveExport) (ref : DExportRef) :
    (handled sha256 resolveExport ref).toAddr = addr9999 ∧
      (handled sha256 resolveExport ref).objectKey = ref.objectKey sha256 := by
  unfold handled
  cases resolveExport ref with
  | none | some res => exact ⟨rfl, rfl⟩

/-! ## What ImportSettlement resolves to -/

variable {s : Session} (hgrant : s.grant &&& authSettlement = authSettlement)

include hgrant

variable {res : SettlementSubmitResult}

theorem resolves_importSettlement_iff {server : Server} {ref : DExportRef} :
    Resolves server (s.importSettlement (.ok ref)) res ↔
      ∃ req bytes m, buildDExportRef ref = .ok (.ok req) ∧ server req (some bytes) ∧
        parse bytes = .ok m ∧ readSettlementResult m = .ok res := by
  constructor
  · rintro ⟨tr, hrun, hans⟩
    obtain ⟨-, req, bytes, m, hreq, rfl, hp, hread⟩ := Session.yields_importSettlement.mp hrun
    exact ⟨req, bytes, m, hreq, hans req (some bytes) (by simp), hp, hread⟩
  rintro ⟨req, bytes, m, hreq, hserver, hp, hread⟩
  refine ⟨_, Session.yields_importSettlement.mpr ⟨hgrant, req, bytes, m, hreq, rfl, hp, hread⟩, ?_⟩
  intro msg answer hmem
  rcases List.mem_cons.mp hmem with h | h
  · cases h
  · cases List.mem_singleton.mp h
    exact hserver

/-- A server can have the client return any result: it need only send it. -/
theorem resolves_forged (ref : DExportRef)
    (hlen : res.calldata.length < 2 ^ 31 - 116) :
    ∃ bytes, Resolves (fun _ answer => answer = some bytes) (s.importSettlement (.ok ref)) res := by
  obtain ⟨req, hreq, -, -, -⟩ := dExportRef_carries ref
  obtain ⟨m, -, hp, -, hread⟩ := (settlementResult_carries_iff res).mpr (by omega)
  exact ⟨m.data, (resolves_importSettlement_iff hgrant).mpr ⟨req, m.data, m, hreq, rfl, hp, hread⟩⟩

/-- Against the handler the client returns what the handler sends, and it does return. -/
theorem resolves_handled_iff {resolveExport : ResolveExport}
    (hlen : ∀ ref res, resolveExport ref = some res → res.calldata.length < 2 ^ 31 - 116)
    {ref : DExportRef} :
    Resolves (fullServiceNode sha256 resolveExport) (s.importSettlement (.ok ref)) res ↔
      res = handled sha256 resolveExport ref := by
  obtain ⟨req, hreq, -, -, href⟩ := dExportRef_carries ref
  have hshort : (handled sha256 resolveExport ref).calldata.length < 2 ^ 31 - 116 := by
    unfold handled
    cases h : resolveExport ref with
    | none => exact Nat.zero_lt_succ _
    | some x => exact hlen ref x h
  obtain ⟨m, hm, hp, -, hread⟩ := (settlementResult_carries_iff (handled sha256 resolveExport ref)).mpr (by omega)
  have hhandler : importHandler sha256 resolveExport req = .ok (.ok m) := by
    rw [importHandler, href, go_bind_ok, ← hm, handled]
    cases resolveExport ref with
    | none => rfl
    | some x => rfl
  rw [resolves_importSettlement_iff hgrant]
  constructor
  · rintro ⟨req', bytes, m', hreq', ⟨resp, hresp, hbytes⟩, hp', hread'⟩
    obtain rfl : req' = req := Except.ok.inj (Except.ok.inj (hreq'.symm.trans hreq))
    obtain rfl : resp = m := Except.ok.inj (Except.ok.inj (hresp.symm.trans hhandler))
    cases hbytes
    obtain rfl : m' = resp := Except.ok.inj (hp'.symm.trans hp)
    exact Except.ok.inj (hread'.symm.trans hread)
  · rintro rfl
    exact ⟨req, m.data, m, hreq, ⟨m, hhandler, rfl⟩, hp, hread⟩

omit hgrant in
/-- **Which servers bind the settlement.**  For any server: every settlement is bound exactly when every reply
to an import request reads as a bound result. For a server that runs the handler: address and object key
are forced, and the settlement is bound exactly when the venue resolves every ref, in calldata mode to a
settlement of its object. And the client checks nothing: any result can be had from some server. -/
theorem importSettlement_bound_iff (s : Session) (hgrant : s.grant &&& authSettlement = authSettlement) :
    (∀ server : Server,
      (∀ ref res, Resolves server (s.importSettlement (.ok ref)) res → Bound sha256 ref res) ↔
      ∀ ref req bytes m res, buildDExportRef ref = .ok (.ok req) → server req (some bytes) →
        parse bytes = .ok m → readSettlementResult m = .ok res → Bound sha256 ref res) ∧
    (∀ resolveExport : ResolveExport,
      (∀ ref res, resolveExport ref = some res → res.calldata.length < 2 ^ 31 - 116) →
      (∀ ref res, Resolves (fullServiceNode sha256 resolveExport) (s.importSettlement (.ok ref)) res →
        res.toAddr = addr9999 ∧ res.objectKey = ref.objectKey sha256) ∧
      ((∀ ref res, Resolves (fullServiceNode sha256 resolveExport) (s.importSettlement (.ok ref)) res →
        Bound sha256 ref res) ↔ ∀ ref, VenueSettles sha256 resolveExport ref)) ∧
    ∀ ref res, res.calldata.length < 2 ^ 31 - 116 →
      ∃ bytes, Resolves (fun _ answer => answer = some bytes) (s.importSettlement (.ok ref)) res := by
  refine ⟨fun server => ⟨fun h ref req bytes m res hreq hserver hp hread => ?_,
    fun h ref res hres => ?_⟩, fun resolveExport hlen => ⟨fun ref res hres => ?_, ?_⟩,
    fun ref res hlen => resolves_forged hgrant ref hlen⟩
  · exact h ref res ((resolves_importSettlement_iff hgrant).mpr ⟨req, bytes, m, hreq, hserver, hp, hread⟩)
  · obtain ⟨req, bytes, m, hreq, hserver, hp, hread⟩ := (resolves_importSettlement_iff hgrant).mp hres
    exact h ref req bytes m res hreq hserver hp hread
  · obtain rfl := (resolves_handled_iff sha256 hgrant hlen).mp hres
    exact handled_forced sha256 resolveExport ref
  · constructor
    · intro h ref
      exact (handled_bound_iff sha256 resolveExport ref).mp
        (h ref _ ((resolves_handled_iff sha256 hgrant hlen).mpr rfl))
    · intro h ref res hres
      obtain rfl := (resolves_handled_iff sha256 hgrant hlen).mp hres
      exact (handled_bound_iff sha256 resolveExport ref).mpr (h ref)

end Handler

def settler : Session := ⟨authSettlement, fun _ => none⟩

/-- A venue that has nothing: the handler's empty calldata is what reaches the user. -/
theorem settler_bound_iff : settler.grant &&& authSettlement = authSettlement ∧
    ¬∀ ref res, Resolves (fullServiceNode (fun _ => .zero 32) fun _ => none)
      (settler.importSettlement (.ok ref)) res → Bound (fun _ => .zero 32) ref res := by
  refine ⟨by decide, fun h => ?_⟩
  have hiff := ((importSettlement_bound_iff (fun _ => .zero 32) settler (by decide)).2.1 (fun _ => none)
    nofun).2
  obtain ⟨res, hres, -⟩ := hiff.mp h ⟨.zero 32, .zero 32, 0, .zero 32⟩
  cases hres

theorem settlement_forged : ∃ bytes res,
    Resolves (fun _ answer => answer = some bytes)
      (settler.importSettlement (.ok ⟨.zero 32, .zero 32, 0, .zero 32⟩)) res ∧
    res.toAddr = .zero 20 ∧ ¬Bound (fun _ => .zero 32) ⟨.zero 32, .zero 32, 0, .zero 32⟩ res := by
  have hshort : (⟨settleCalldata, .zero 20, [], .zero 32, .zero 32⟩ :
      SettlementSubmitResult).calldata.length < 2 ^ 31 - 116 := by decide
  obtain ⟨bytes, h⟩ := resolves_forged (s := settler) (by decide) ⟨.zero 32, .zero 32, 0, .zero 32⟩ hshort
  exact ⟨bytes, _, h, rfl, fun hb => absurd hb.1 (by decide)⟩

end Zap.Dex
