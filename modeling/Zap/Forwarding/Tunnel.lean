/-
# Zap.Forwarding.Tunnel — the gateway side (`client.go`), and a request through both.

`requestToForward` reads a request into an envelope: the decoded path with the raw query behind it, the
identity headers promoted to typed fields, the other headers as JSON. `tunnel` sends that envelope through
`BuildForward` and `ReadForward` to the backend's `newRequest`.

The path crosses decoded and is decoded again on the other side, once by `ParseRequestURI` and once more
from the printed form.
-/
import Zap.Forwarding.Serve

namespace Zap.Forwarding

open Zap.Lib Zap.Wire

/-! ## The gateway's envelope -/

/-- `strconv.ParseBool`, with its error dropped. -/
def parseBool (s : Str) : Bool := ["1", "t", "T", "TRUE", "true", "True"].any fun x => str x == s

/-- The loop of `strconv.ParseUint(s, 10, 64)`: it stops at a byte that is no digit, or with the largest
number when the next digit would overflow. -/
def parseUint : Nat → Str → Option Nat
  | n, [] => some n
  | n, c :: s =>
    if isDigit c then
      if 10 * n + (c.toNat - 0x30) < 2 ^ 64 then parseUint (10 * n + (c.toNat - 0x30)) s else some (2 ^ 64 - 1)
    else none

/-- `strconv.ParseInt(s, 10, 64)`, with its error dropped: nonsense is 0, too large a number the nearest
one. -/
def parseInt (s : Str) : Int64 :=
  match s with
  | 0x2D :: ds => .ofInt (max (-2 ^ 63) (-(digits ds)))
  | 0x2B :: ds => .ofInt (min (2 ^ 63 - 1) (digits ds))
  | ds => .ofInt (min (2 ^ 63 - 1) (digits ds))
where
  digits (ds : Str) : Int := if ds = [] then 0 else (parseUint 0 ds).getD 0

/-- `requestToForward`, of a request whose body can be read. -/
def requestToForward (rt : Runtime) (req : Request) : Forward :=
  let h := stripClientIdentity rt.range req.header
  { tenantID := req.header.get headerOrgID
    userID := req.header.get headerUserID
    isAdmin := parseBool (req.header.get headerUserIsAdmin)
    permissions := parseInt (req.header.get headerUserPerms)
    method := req.method
    path := withQuery (if req.url.path = [] then [slash] else req.url.path) req.url.rawQuery
    headers := if h.entries = [] then [] else rt.marshal h
    body := req.body
    connID := [] }

def tunnel (gateway backend : Runtime) (req : Request) : Go (Except WireError (Except Str Request)) := do
  match ← buildForward (requestToForward gateway req) with
  | .error e => return .error e
  | .ok msg => return .ok (newRequest backend (← readForward msg))

/-! ## What arrives -/

def Preserves (gateway backend : Runtime) (req : Request) : Prop :=
  ∃ r, tunnel gateway backend req = .ok (.ok (.ok r)) ∧ r.url.path = req.url.path ∧
    r.url.rawQuery = req.url.rawQuery ∧ r.method = req.method ∧ r.body = req.body

theorem tunnel_eq (gateway backend : Runtime) (req : Request)
    (hfits : (requestToForward gateway req).Fits) :
    tunnel gateway backend req = .ok (.ok (newRequest backend (requestToForward gateway req))) := by
  obtain ⟨m, hbuild, -, -, hread⟩ := forward_carries _ hfits.lt
  simp only [tunnel, hbuild, go_bind_ok, hread, go_pure]

/-- **When a request gets through unchanged**, among those whose path starts with a slash, has no control
byte, and whose envelope fits: its method is a token, its path has no question mark, no percent sign and no
authority in front, its query no control byte and no hash sign. -/
theorem tunnel_preserves_iff (gateway backend : Runtime) (req : Request)
    (hslash : req.url.path.head? = some slash) (hctl : hasControlByte req.url.path = false)
    (hfits : (requestToForward gateway req).Fits) :
    Preserves gateway backend req ↔
      isHTTPToken req.method ∧ question ∉ req.url.path ∧ percent ∉ req.url.path ∧
        ¬ReadsAuthority req.url.path ∧ hasControlByte req.url.rawQuery = false ∧
        hashSign ∉ req.url.rawQuery := by
  have hne : req.url.path ≠ [] := fun hnil => by simp [hnil] at hslash
  have hpath : (requestToForward gateway req).path = withQuery req.url.path req.url.rawQuery := by
    simp only [requestToForward, if_neg hne]
  have hfull : (requestToForward gateway req).target = withQuery req.url.path req.url.rawQuery := by
    rw [Forward.target, hpath, if_neg]
    intro hnil
    have := @withQuery_head req.url.path req.url.rawQuery hslash
    rw [hnil] at this
    cases this
  have htarget := @retarget_iff backend.parseAuthority req.url.path req.url.rawQuery hslash hctl
  rw [Preserves, tunnel_eq gateway backend req hfits]
  simp only [Except.ok.injEq, newRequest_ok_iff, hfull]
  rw [← htarget]
  have hmethod : (requestToForward gateway req).method = req.method := rfl
  have hbody : (requestToForward gateway req).body = req.body := rfl
  rw [hmethod, hbody]
  have hget : isHTTPToken methodGet = true := by decide
  constructor
  · rintro ⟨r, ⟨htoken, url, hurl, rfl⟩, hp, hq, hm, -⟩
    refine ⟨?_, url, hurl, hp, hq⟩
    rcases htoken with hnil | htoken
    · simp only [if_pos hnil] at hm
      rw [← hm]
      exact hget
    · exact htoken
  · rintro ⟨htoken, url, hurl, hp, hq⟩
    have hnil : req.method ≠ [] := fun hnil => by simp [isHTTPToken, hnil] at htoken
    exact ⟨_, ⟨.inr htoken, url, hurl, rfl⟩, hp, hq, by simp only [if_neg hnil], rfl⟩

def sampleRequest (path rawQuery : Str) : Request where
  method := methodGet
  url := { path := path, rawQuery := rawQuery }
  header := ∅
  body := [1, 2, 3]

theorem sampleRequest_preserved :
    Preserves forgingRuntime forgingRuntime (sampleRequest (str "/v1/users") (str "expand=roles")) :=
  (tunnel_preserves_iff forgingRuntime forgingRuntime (sampleRequest (str "/v1/users") (str "expand=roles"))
    (by decide) (by decide) (by unfold Forward.Fits; decide)).mpr
    (by decide)

/-- The path `/%41`, which a client spells `/%2541`: the handler is asked for `/A`. -/
theorem escaped_path_decoded_twice :
    (sampleRequest (str "/%41") []).url.path.head? = some slash ∧
    hasControlByte (sampleRequest (str "/%41") []).url.path = false ∧
    (tunnel forgingRuntime forgingRuntime (sampleRequest (str "/%41") [])).map
      (fun x => (x.toOption.bind Except.toOption).map fun r => r.url.path) = .ok (some (str "/A")) := by
  decide +kernel

end Zap.Forwarding
