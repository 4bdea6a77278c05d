/-
# Zap.Forwarding.Serve — the backend side (`serve.go`): from a `Forward` to the request a handler sees.

`newRequest` is `handle` up to the handler: the request line is validated, the target parsed twice, the
client's headers filtered and stripped, the typed identity put in their place. The order of these steps is
the source's; what the handler is given afterwards is `Request`.

The standard library enters through `Runtime`: JSON decodes a blob to any name-to-values map, and ranging
over a map visits its keys in any order.
-/
import Zap.Forwarding.Url

namespace Zap.Forwarding

open Zap.Lib

/-! ## The handler's request -/

/-- What the code is given by the standard library. -/
structure Runtime where
  /-- an authority, as `String` prints it -/
  parseAuthority : Str → Option Str
  /-- `json.Unmarshal` into a map, its entries in the order they are ranged over -/
  unmarshal : List UInt8 → Option (List (Str × List Str))
  /-- `json.Marshal` of a header map -/
  marshal : Header → List UInt8
  /-- the order in which the keys of a header map are ranged over -/
  range : List Str → List Str
  ranges : Ranges range

/-- The parts of an `http.Request` the boundary carries. -/
structure Request where
  method : Str
  url : URL
  header : Header
  body : List UInt8

def methodGet : Str := str "GET"

/-- `validForwardLine`: the method and the parsed target, or the reason why not. -/
def validForwardLine (rt : Runtime) (method path : Str) : Except Str (Str × URL) :=
  if method ≠ [] ∧ ¬isHTTPToken method then .error (str "invalid method")
  else
    let path := if path = [] then [slash] else path
    if hasControlByte path then .error (str "invalid path")
    else
      match parseRequestURI rt.parseAuthority path with
      | none => .error (str "invalid path")
      | some u => .ok (if method = [] then methodGet else method, u)

def addEntry (h : Header) (entry : Str × List Str) : Header :=
  if isHTTPToken entry.1 then
    entry.2.foldl (fun h v => if validHeaderValue v then h.add entry.1 v else h) h
  else h

def clientHeader (rt : Runtime) (blob : List UInt8) : Header :=
  if blob = [] then ∅
  else
    match rt.unmarshal blob with
    | some hdrs => hdrs.foldl addEntry ∅
    | none => ∅

def formatBool (b : Bool) : Str := if b then str "true" else str "false"

def decimal (n : Nat) : Str := (Nat.toDigits 10 n).map fun c => UInt8.ofNat c.toNat

def formatInt (i : Int64) : Str := if i < 0 then 0x2D :: decimal i.toInt.natAbs else decimal i.toInt.natAbs

def requestHeader (rt : Runtime) (f : Forward) : Header :=
  let h := stripClientIdentity rt.range (clientHeader rt f.headers)
  let h := if f.tenantID ≠ [] then h.set headerOrgID f.tenantID else h
  let h := if f.userID ≠ [] then h.set headerUserID f.userID else h
  let h := h.set headerUserIsAdmin (formatBool f.isAdmin)
  h.set headerUserPerms (formatInt f.permissions)

/-- `handle` up to the handler: the request, or the reason of a 400. -/
def newRequest (rt : Runtime) (f : Forward) : Except Str Request :=
  match validForwardLine rt f.method f.path with
  | .error reason => .error reason
  | .ok (method, u) =>
    match parseFull rt.parseAuthority u.string with
    | none => .error (str "invalid request")
    | some url => .ok { method := method, url := url, header := requestHeader rt f, body := f.body }

/-! ## The identity a handler sees -/

def Forward.target (f : Forward) : Str := if f.path = [] then [slash] else f.path

theorem newRequest_ok_iff (rt : Runtime) (f : Forward) (r : Request) :
    newRequest rt f = .ok r ↔
      (f.method = [] ∨ isHTTPToken f.method) ∧ ∃ url, retarget rt.parseAuthority f.target = some url ∧
        r = { method := if f.method = [] then methodGet else f.method, url := url
              header := requestHeader rt f, body := f.body } := by
  rw [newRequest, validForwardLine, retarget, ← Forward.target]
  by_cases hmethod : f.method = [] ∨ isHTTPToken f.method
  · rw [if_neg (by tauto)]
    by_cases hctl : hasControlByte f.target = true
    · -- a control byte is refused here, and would be refused by the parser
      have hnone : parseRequestURI rt.parseAuthority f.target = none := by
        by_contra hne
        obtain ⟨u, hu⟩ := Option.ne_none_iff_exists'.mp hne
        rw [parseURL_control hu] at hctl
        cases hctl
      simp [hctl, hnone]
    · simp only [if_neg hctl, hmethod, true_and]
      cases parseRequestURI rt.parseAuthority f.target with
      | none => simp
      | some u =>
        simp only [Option.bind_eq_bind, Option.bind_some]
        cases parseFull rt.parseAuthority u.string with
        | none => simp
        | some url =>
          simp only [Except.ok.injEq, Option.some.injEq, exists_eq_left']
          exact eq_comm
  · rw [if_pos (by tauto)]
    simp [hmethod]

theorem Header.Canonical.add {h : Header} (hc : h.Canonical) (k v : Str) : (h.add k v).Canonical := hc.insert k _

theorem addEntry_canonical {h : Header} (hc : h.Canonical) (entry : Str × List Str) :
    (addEntry h entry).Canonical := by
  rw [addEntry]
  split_ifs
  · refine List.foldlRecOn entry.2 _ hc fun h hc v _ => ?_
    split_ifs
    · exact hc.add entry.1 v
    · exact hc
  · exact hc

theorem clientHeader_canonical (rt : Runtime) (blob : List UInt8) : (clientHeader rt blob).Canonical := by
  rw [clientHeader]
  split_ifs
  · exact Header.canonical_empty
  · cases rt.unmarshal blob with
    | none => exact Header.canonical_empty
    | some hdrs => exact List.foldlRecOn hdrs _ Header.canonical_empty fun _ hc entry _ => addEntry_canonical hc entry

/-- The entry of a name in the identity groups, from the typed fields alone: the organisation and the user
if they are given, the admin flag and the permissions always, nothing else. -/
def identityView (f : Forward) (k : Str) : Option (List Str) :=
  if k = canonicalKey headerOrgID then if f.tenantID = [] then none else some [f.tenantID]
  else if k = canonicalKey headerUserID then if f.userID = [] then none else some [f.userID]
  else if k = canonicalKey headerUserIsAdmin then some [formatBool f.isAdmin]
  else if k = canonicalKey headerUserPerms then some [formatInt f.permissions]
  else none

/-- **The handler sees the typed identity and nothing else** under the identity names. -/
theorem requestHeader_identity (rt : Runtime) (f : Forward) {k : Str} (hk : IdentityName k) :
    (requestHeader rt f).lookup k = identityView f k := by
  have hstrip := strip_lookup rt.ranges (clientHeader_canonical rt f.headers) hk
  have hperms : canonicalKey headerUserPerms ≠ canonicalKey headerOrgID ∧
      canonicalKey headerUserPerms ≠ canonicalKey headerUserID ∧
      canonicalKey headerUserPerms ≠ canonicalKey headerUserIsAdmin := by decide
  have hadmin : canonicalKey headerUserIsAdmin ≠ canonicalKey headerOrgID ∧
      canonicalKey headerUserIsAdmin ≠ canonicalKey headerUserID := by decide
  have huser : canonicalKey headerUserID ≠ canonicalKey headerOrgID := by decide
  -- the tenant and the user are set only if they are there
  have hset : ∀ (h : Header) (a v : Str), (if v ≠ [] then h.set a v else h).lookup k =
      if k = canonicalKey a ∧ v ≠ [] then some [v] else h.lookup k := by
    intro h a v
    by_cases hv : v = []
    · simp [hv]
    · simp [hv, Header.lookup_set]
  simp only [requestHeader, Header.lookup_set, hset, hstrip, identityView]
  by_cases h1 : k = canonicalKey headerUserPerms
  · simp [h1, hperms]
  by_cases h2 : k = canonicalKey headerUserIsAdmin
  · simp [h2, hadmin, hperms.2.2.symm]
  by_cases h3 : k = canonicalKey headerUserID
  · by_cases hnil : f.userID = [] <;>
      simp [h3, huser, hnil, hperms.2.1.symm, hadmin.2.symm]
  · by_cases hnil : f.tenantID = [] <;> simp [h1, h2, h3, hnil]

/-- Two runs that differ in the client's headers alone take the same way. -/
theorem newRequest_headers (rt rt' : Runtime) (hauth : rt.parseAuthority = rt'.parseAuthority)
    (f f' : Forward) (hsame : f' = { f with headers := f'.headers }) :
    match newRequest rt f, newRequest rt' f' with
    | .ok r, .ok r' => r.header = requestHeader rt f ∧ r'.header = requestHeader rt' f'
    | .error e, .error e' => e = e'
    | _, _ => False := by
  have hmethod : f'.method = f.method := by rw [hsame]
  have hpath : f'.path = f.path := by rw [hsame]
  have hline : validForwardLine rt' f'.method f'.path = validForwardLine rt f.method f.path := by
    rw [hmethod, hpath, validForwardLine, validForwardLine, hauth]
  rw [newRequest, newRequest, hline, hauth]
  cases validForwardLine rt f.method f.path with
  | error e => rfl
  | ok line =>
    obtain ⟨method, u⟩ := line
    simp only
    cases parseFull rt'.parseAuthority u.string with
    | none => rfl
    | some url => exact ⟨rfl, rfl⟩

/-- **Identity comes from the typed fields alone.**  Two envelopes that differ only in the headers blob, in
two runs that may order their maps differently: both are refused for one reason, or both handlers see under
every identity name what the typed fields say. -/
theorem identity_from_fields (rt rt' : Runtime) (hauth : rt.parseAuthority = rt'.parseAuthority)
    (f f' : Forward) (hsame : f' = { f with headers := f'.headers }) :
    match newRequest rt f, newRequest rt' f' with
    | .ok r, .ok r' => ∀ k, IdentityName k →
        r.header.lookup k = identityView f k ∧ r'.header.lookup k = identityView f k ∧
        r.header.values k = (identityView f (canonicalKey k)).getD [] ∧
        r'.header.values k = (identityView f (canonicalKey k)).getD []
    | .error e, .error e' => e = e'
    | _, _ => False := by
  have hruns := newRequest_headers rt rt' hauth f f' hsame
  have hview : ∀ k, identityView f' k = identityView f k := fun k => by
    rw [hsame]
    rfl
  revert hruns
  cases newRequest rt f with
  | error e => cases newRequest rt' f' <;> exact id
  | ok r =>
    cases newRequest rt' f' with
    | error e => exact id
    | ok r' =>
      rintro ⟨hr, hr'⟩ k hk
      rw [Header.values, Header.values, hr, hr', requestHeader_identity rt f hk,
        requestHeader_identity rt' f' hk, requestHeader_identity rt f hk.canonical,
        requestHeader_identity rt' f' hk.canonical, hview, hview]
      exact ⟨rfl, rfl, rfl, rfl⟩

/-- A runtime whose JSON decoder forges a tenant under an odd spelling, for every blob. -/
def forgingRuntime : Runtime where
  parseAuthority _ := none
  unmarshal _ := some [(str "x-ORG-id", [str "forged"]), (str "X-Iam-Sub", [str "root"])]
  marshal _ := []
  range ks := ks.reverse
  ranges ks := List.reverse_perm ks

def sampleForward (headers : List UInt8) : Forward where
  tenantID := str "acme"
  userID := []
  isAdmin := false
  permissions := 7
  method := str "GET"
  path := str "/v1"
  headers := headers
  body := []
  connID := []

theorem forged_headers_ignored :
    ∃ r r', newRequest forgingRuntime (sampleForward []) = .ok r ∧
      newRequest forgingRuntime (sampleForward [0]) = .ok r' ∧ ∀ k, IdentityName k →
        r.header.lookup k = identityView (sampleForward []) k ∧
        r'.header.lookup k = identityView (sampleForward []) k ∧
        r.header.values k = (identityView (sampleForward []) (canonicalKey k)).getD [] ∧
        r'.header.values k = (identityView (sampleForward []) (canonicalKey k)).getD [] :=
  ⟨_, _, rfl, rfl, identity_from_fields forgingRuntime forgingRuntime rfl (sampleForward []) (sampleForward [0]) rfl⟩

/-! ## What a header may carry -/

/-- Every name is a token, and no value has a CR, an LF or a NUL. -/
def Header.Clean (h : Header) : Prop := ∀ k vs, h.lookup k = some vs → isHTTPToken k ∧ ∀ v ∈ vs, validHeaderValue v

theorem isHTTPToken_canonicalKey (k : Str) : isHTTPToken (canonicalKey k) = isHTTPToken k := by
  unfold canonicalKey
  split_ifs
  · rw [isHTTPToken, isHTTPToken, titleCase_all]
    cases k <;> rfl
  · rfl

namespace Header.Clean

variable {h : Header} {k : Str} {vs : List Str}

theorem insert (hc : h.Clean) (hk : isHTTPToken k) (hvs : ∀ v ∈ vs, validHeaderValue v) :
    Clean (h.insert (canonicalKey k) vs) := by
  intro a bs hlookup
  by_cases ha : a = canonicalKey k
  · subst ha
    rw [AList.lookup_insert] at hlookup
    cases hlookup
    exact ⟨by rwa [isHTTPToken_canonicalKey], hvs⟩
  · rw [AList.lookup_insert_ne ha] at hlookup
    exact hc a bs hlookup

theorem add {v : Str} (hc : h.Clean) (hk : isHTTPToken k) (hv : validHeaderValue v) : Clean (h.add k v) := by
  refine hc.insert hk fun a ha => ?_
  rcases List.mem_append.mp ha with ha | ha
  · cases hl : h.lookup (canonicalKey k) with
    | none => simp [hl] at ha
    | some bs =>
      rw [hl] at ha
      exact (hc _ _ hl).2 a ha
  · rwa [List.mem_singleton.mp ha]

theorem set {v : Str} (hc : h.Clean) (hk : isHTTPToken k) (hv : validHeaderValue v) : Clean (h.set k v) :=
  hc.insert hk fun a ha => by rwa [List.mem_singleton.mp ha]

theorem del (hc : h.Clean) (k : Str) : Clean (h.del k) := by
  intro a bs hlookup
  by_cases ha : a = canonicalKey k
  · rw [ha, Header.del, AList.lookup_erase] at hlookup
    cases hlookup
  · rw [Header.del, AList.lookup_erase_ne ha] at hlookup
    exact hc a bs hlookup

end Header.Clean

theorem addEntry_clean {h : Header} (hc : h.Clean) (entry : Str × List Str) : (addEntry h entry).Clean := by
  unfold addEntry
  split_ifs with htoken
  · refine List.foldlRecOn entry.2 _ hc fun h hc v _ => ?_
    split_ifs with hv
    · exact hc.add htoken hv
    · exact hc
  · exact hc

theorem clientHeader_clean (rt : Runtime) (blob : List UInt8) : (clientHeader rt blob).Clean := by
  have hempty : Header.Clean ∅ := fun k vs h => by cases h
  unfold clientHeader
  split_ifs
  · exact hempty
  · cases rt.unmarshal blob with
    | none => exact hempty
    | some hdrs => exact List.foldlRecOn hdrs _ hempty fun _ hc entry _ => addEntry_clean hc entry

theorem stripClientIdentity_clean (range : List Str → List Str) {h : Header} (hc : h.Clean) :
    (stripClientIdentity range h).Clean := by
  have hlisted : (clientIdentityHeaders.foldl Header.del h).Clean := List.foldlRecOn _ _ hc fun _ hc k _ => hc.del k
  refine Header.Clean.del (List.foldlRecOn _ _ hlisted fun h hc k _ => ?_) _
  unfold sweepKey
  split_ifs
  · exact hc.del k
  · exact hc

theorem mem_toDigitsCore {c : Char} : ∀ {fuel n : Nat} {ds : List Char}, c ∈ Nat.toDigitsCore 10 fuel n ds →
    (∃ d < 10, c = Nat.digitChar d) ∨ c ∈ ds
  | 0, _, _, h => .inr h
  | fuel + 1, n, ds, h => by
    have hfirst : c ∈ Nat.digitChar (n % 10) :: ds → (∃ d < 10, c = Nat.digitChar d) ∨ c ∈ ds := by
      rintro (_ | ⟨_, h⟩)
      · exact .inl ⟨n % 10, Nat.mod_lt n (by decide), rfl⟩
      · exact .inr h
    rw [Nat.toDigitsCore] at h
    split_ifs at h
    · exact hfirst h
    · exact (mem_toDigitsCore h).elim .inl hfirst

theorem decimal_valid (n : Nat) : validHeaderValue (decimal n) := by
  have hdigit : ∀ d < 10, validHeaderValue [UInt8.ofNat (Nat.digitChar d).toNat] := by decide
  refine List.all_eq_true.mpr fun c hc => ?_
  obtain ⟨a, ha, rfl⟩ := List.mem_map.mp hc
  rcases mem_toDigitsCore ha with ⟨d, hd, rfl⟩ | ha
  · exact List.all_eq_true.mp (hdigit d hd) _ (List.mem_singleton_self _)
  · cases ha

theorem formatInt_valid (i : Int64) : validHeaderValue (formatInt i) := by
  unfold formatInt
  split_ifs
  · exact decimal_valid _
  · exact decimal_valid _

/-- **What may be injected.**  The client's own headers are filtered, the identity the envelope carries is not:
the handler gets a clean header exactly if the tenant and the user could stand in one. -/
theorem header_clean_iff (rt : Runtime) (f : Forward) (r : Request) (h : newRequest rt f = .ok r) :
    r.header.Clean ↔ validHeaderValue f.tenantID ∧ validHeaderValue f.userID := by
  obtain ⟨-, url, -, rfl⟩ := (newRequest_ok_iff rt f r).mp h
  have htokens : isHTTPToken headerOrgID ∧ isHTTPToken headerUserID ∧ isHTTPToken headerUserIsAdmin ∧
      isHTTPToken headerUserPerms := by decide
  have hlisted : canonicalKey headerOrgID ∈ clientIdentityHeaders.map canonicalKey ∧
      canonicalKey headerUserID ∈ clientIdentityHeaders.map canonicalKey ∧
      canonicalKey headerUserID ≠ canonicalKey headerOrgID := by decide
  obtain ⟨horg, huser, hadmin, hperms⟩ := htokens
  constructor
  · intro hc
    have hseen : ∀ k v, canonicalKey k ∈ clientIdentityHeaders.map canonicalKey →
        identityView f (canonicalKey k) = (if v = [] then none else some [v]) → validHeaderValue v := by
      intro k v hk hview
      have hname : IdentityName k := .inl hk
      rw [← requestHeader_identity rt f hname.canonical] at hview
      split_ifs at hview with hv
      · rw [hv]
        rfl
      · exact (hc _ _ hview).2 v (List.mem_singleton_self v)
    refine ⟨hseen headerOrgID _ hlisted.1 ?_, hseen headerUserID _ hlisted.2.1 ?_⟩
    · rw [identityView, if_pos rfl]
    · rw [identityView, if_neg hlisted.2.2, if_pos rfl]
  · rintro ⟨htenant, huserID⟩
    have hset : ∀ (h : Header) (k v : Str), h.Clean → isHTTPToken k → validHeaderValue v →
        Header.Clean (if v ≠ [] then h.set k v else h) := by
      intro h k v hc hk hv
      split_ifs
      · exact hc.set hk hv
      · exact hc
    have hstripped := stripClientIdentity_clean rt.range (clientHeader_clean rt f.headers)
    have hbool : validHeaderValue (formatBool f.isAdmin) := by
      cases f.isAdmin <;> decide
    exact Header.Clean.set (Header.Clean.set (hset _ _ _ (hset _ _ _ hstripped horg htenant) huser huserID) hadmin
      hbool) hperms (formatInt_valid _)

theorem sampleForward_clean : ∃ r, newRequest forgingRuntime (sampleForward [0]) = .ok r ∧ r.header.Clean := by
  refine ⟨_, rfl, (header_clean_iff forgingRuntime (sampleForward [0]) _ rfl).mpr ?_⟩
  decide

/-- A tenant with a line break, in an envelope like any other: the handler sees the break. -/
theorem tenant_splits_header : ∃ m f r, readForward m = .ok f ∧ newRequest forgingRuntime f = .ok r ∧
    r.header.lookup (canonicalKey headerOrgID) = some [str "acme\r\nX-User-IsAdmin: true"] ∧
    ¬validHeaderValue (str "acme\r\nX-User-IsAdmin: true") := by
  obtain ⟨m, -, -, -, hread⟩ := forward_carries
    { sampleForward [] with tenantID := str "acme\r\nX-User-IsAdmin: true" } (by decide)
  exact ⟨m, _, _, hread, rfl, by decide, by decide⟩

/-! ## The target a handler is asked for -/

/-- **When the handler is asked for the path of the envelope**, of whatever form its target is: the second
parse changes nothing exactly if the printed path does not read as an authority, and no hash sign stands in
front of the end of a query. -/
theorem target_served_iff (rt : Runtime) (hauth : PlainAuthority rt.parseAuthority) (f : Forward) (r : Request)
    (h : newRequest rt f = .ok r) :
    ∃ u, parseRequestURI rt.parseAuthority f.target = some u ∧
      (r.url.path = u.path ∧ r.url.rawQuery = u.rawQuery ↔
        ¬u.Rereads ∧ (u.rawQuery = [] ∨ hashSign ∉ u.opaquePart ++ u.rawQuery)) := by
  obtain ⟨-, url, hurl, rfl⟩ := (newRequest_ok_iff rt f r).mp h
  obtain ⟨u, hu, hfull⟩ := Option.bind_eq_some_iff.mp hurl
  obtain ⟨hquery, hpath⟩ := reparsed (fun _ => hauth) hu hfull
  refine ⟨u, hu, and_congr ?_ ?_⟩
  · constructor
    · intro hp hreads
      rw [if_pos hreads, hp] at hpath
      exact Nat.lt_irrefl _ hpath
    · intro hreads
      rwa [if_neg hreads] at hpath
  · rw [List.mem_append, not_or, hquery]
    split_ifs with hpart
    · simp [hpart, eq_comm]
    constructor
    · intro hq
      exact .inr ⟨hpart, cut_eq_self hq⟩
    · rintro (hnil | ⟨-, hhash⟩)
      · rw [hnil]
        rfl
      · rw [cut_of_not_mem hhash]

/-- A runtime that takes every authority without the bytes that would end one, and prints it as it is. -/
def hostRuntime : Runtime :=
  { forgingRuntime with parseAuthority := fun a => if a.all plainByte ∧ slash ∉ a then some a else none }

theorem hostRuntime_plain : PlainAuthority hostRuntime.parseAuthority := by
  intro a b h
  simp only [hostRuntime] at h
  split_ifs at h with ha
  cases h
  exact ha

/-- The sample with this target is served as the target reads. -/
def ServedAsRead (path : Str) : Prop := ∃ r u,
  newRequest hostRuntime { sampleForward [] with path := path } = .ok r ∧
    parseRequestURI hostRuntime.parseAuthority path = some u ∧ r.url.path = u.path ∧ r.url.rawQuery = u.rawQuery

/-- A path, a URL with a host, and a scheme with something else behind it. -/
theorem targets_served :
    ServedAsRead (str "/v1?a=1") ∧ ServedAsRead (str "HTTP://h/a%2Fb?x") ∧ ServedAsRead (str "mailto:a?b") := by
  have hserved : ∀ path r u, path ≠ [] →
      newRequest hostRuntime { sampleForward [] with path := path } = .ok r →
      parseRequestURI hostRuntime.parseAuthority path = some u → ¬u.Rereads ∧ hashSign ∉ u.opaquePart ++ u.rawQuery →
      r.url.path = u.path ∧ r.url.rawQuery = u.rawQuery := by
    intro path r u hne hr hu hcond
    obtain ⟨u', hu', hiff⟩ := target_served_iff hostRuntime hostRuntime_plain _ r hr
    rw [Forward.target, if_neg hne, hu] at hu'
    cases hu'
    exact hiff.mpr ⟨hcond.1, .inr hcond.2⟩
  exact ⟨⟨_, _, rfl, rfl, hserved (str "/v1?a=1") _ _ (by decide) rfl rfl (by decide)⟩,
    ⟨_, _, rfl, rfl, hserved (str "HTTP://h/a%2Fb?x") _ _ (by decide) rfl rfl (by decide)⟩,
    ⟨_, _, rfl, rfl, hserved (str "mailto:a?b") _ _ (by decide) rfl rfl (by decide)⟩⟩

/-- Envelopes whose handler is asked for something else: of `//host/admin` it sees `/admin`, and of the query
`a#b` it sees `a`, behind a path, behind a host, and behind a scheme alone. -/
theorem target_reread :
    (newRequest hostRuntime { sampleForward [] with path := str "//host/admin" }).map (·.url.path) =
      .ok (str "/admin") ∧
    (parseRequestURI hostRuntime.parseAuthority (str "//host/admin")).map URL.path = some (str "//host/admin") ∧
    ∀ path ∈ [str "/v1?a#b", str "http://h/v1?a#b", str "mailto:x?a#b"],
      (newRequest hostRuntime { sampleForward [] with path := path }).map (·.url.rawQuery) = .ok (str "a") ∧
      (parseRequestURI hostRuntime.parseAuthority path).map URL.rawQuery = some (str "a#b") := by
  decide

end Zap.Forwarding
