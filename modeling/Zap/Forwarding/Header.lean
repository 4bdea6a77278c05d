/-
# Zap.Forwarding.Header — HTTP header maps and the identity strip (`identity.go`).

`http.Header` is a map from names to lists of values, kept under one spelling of each name: `Add`, `Set`,
`Del` and `Get` fold a name that is an HTTP token to its canonical form (`canonicalKey`) and leave any
other name alone. `stripClientIdentity` deletes a fixed list, sweeps three prefixes by ranging over the
map while deleting from it, and deletes the cookies.

Go's order of iteration is unspecified, so the sweep is given the order as an argument; the laws hold for
every order that visits each key. The map only ever has canonical keys (`Canonical`), which is what makes
the deletion of the key at hand delete the entry at hand.
-/
import Mathlib.Data.List.AList
import Zap.Forwarding.Envelope

namespace Zap.Forwarding

open Zap.Lib

/-! ## Tokens and canonical names -/

def isLower (c : UInt8) : Bool := 0x61 ≤ c && c ≤ 0x7A

def isUpper (c : UInt8) : Bool := 0x41 ≤ c && c ≤ 0x5A

def isDigit (c : UInt8) : Bool := 0x30 ≤ c && c ≤ 0x39

def tokenTable (c : UInt8) : Bool :=
  isLower c || isUpper c || isDigit c ||
    [0x21, 0x23, 0x24, 0x25, 0x26, 0x27, 0x2A, 0x2B, 0x2D, 0x2E, 0x5E, 0x5F, 0x60, 0x7C, 0x7E].contains c

def isHTTPToken (s : Str) : Bool := !s.isEmpty && s.all tokenTable

def validHeaderValue (s : Str) : Bool := s.all fun c => c != 0x0D && c != 0x0A && c != 0

def toUpper (c : UInt8) : UInt8 := if isLower c then c - 0x20 else c

def toLower (c : UInt8) : UInt8 := if isUpper c then c + 0x20 else c

/-- Capitals at the start and behind every dash, small letters elsewhere. -/
def titleCase : Bool → Str → Str
  | _, [] => []
  | upper, c :: s =>
    let c' := if upper then toUpper c else toLower c
    c' :: titleCase (c' == 0x2D) s

/-- `textproto.CanonicalMIMEHeaderKey`: a name that is not made of token bytes is left alone. -/
def canonicalKey (s : Str) : Str := if s.all tokenTable then titleCase true s else s

theorem isUpper_lowered {c : UInt8} (h : isUpper c) :
    isLower (c + 0x20) ∧ isUpper (c + 0x20) = false ∧ isLower c = false := by
  simp only [isUpper, isLower, Bool.and_eq_true, Bool.and_eq_false_iff, decide_eq_true_eq, decide_eq_false_iff_not,
    UInt8.le_iff_toNat_le, UInt8.toNat_add, UInt8.reduceToNat] at h ⊢
  omega

theorem isLower_raised {c : UInt8} (h : isLower c) : isUpper (c - 0x20) ∧ isLower (c - 0x20) = false := by
  have hle : (0x20 : UInt8) ≤ c := by
    simp only [isLower, Bool.and_eq_true, decide_eq_true_eq, UInt8.le_iff_toNat_le, UInt8.reduceToNat] at h ⊢
    omega
  simp only [isUpper, isLower, Bool.and_eq_true, Bool.and_eq_false_iff, decide_eq_true_eq, decide_eq_false_iff_not,
    UInt8.le_iff_toNat_le, UInt8.toNat_sub_of_le _ _ hle, UInt8.reduceToNat] at h ⊢
  omega

theorem toUpper_idem (c : UInt8) : toUpper (toUpper c) = toUpper c := by
  by_cases hc : isLower c <;> simp [toUpper, hc, isLower_raised]

theorem titleByte_idem (upper : Bool) (c : UInt8) :
    (if upper then toUpper (if upper then toUpper c else toLower c)
      else toLower (if upper then toUpper c else toLower c)) =
      if upper then toUpper c else toLower c := by
  cases upper
  · by_cases hc : isUpper c <;> simp [toLower, hc, isUpper_lowered]
  · exact toUpper_idem c

theorem tokenTable_titleByte (upper : Bool) (c : UInt8) :
    tokenTable (if upper then toUpper c else toLower c) = tokenTable c := by
  cases upper
  · by_cases hc : isUpper c <;> simp [tokenTable, toLower, hc, isUpper_lowered]
  · by_cases hc : isLower c <;> simp [tokenTable, toUpper, hc, isLower_raised]

theorem titleCase_idem : ∀ (upper : Bool) (s : Str), titleCase upper (titleCase upper s) = titleCase upper s
  | _, [] => rfl
  | upper, c :: s => by
      simp only [titleCase, titleByte_idem upper c, titleCase_idem _ s]

theorem titleCase_all : ∀ (upper : Bool) (s : Str), (titleCase upper s).all tokenTable = s.all tokenTable
  | _, [] => rfl
  | upper, c :: s => by
      simp only [titleCase, List.all_cons, tokenTable_titleByte upper c, titleCase_all _ s]

@[simp]
theorem canonicalKey_idem (s : Str) : canonicalKey (canonicalKey s) = canonicalKey s := by
  by_cases h : s.all tokenTable
  · have htitle : canonicalKey s = titleCase true s := if_pos h
    have hall : (titleCase true s).all tokenTable := by rw [titleCase_all, h]
    rw [htitle, canonicalKey, if_pos hall, titleCase_idem]
  · have hself : canonicalKey s = s := if_neg h
    rw [hself, hself]

/-! ## Header maps -/

abbrev Header := AList fun _ : Str => List Str

namespace Header

def add (h : Header) (k v : Str) : Header := h.insert (canonicalKey k) ((h.lookup (canonicalKey k)).getD [] ++ [v])

def set (h : Header) (k v : Str) : Header := h.insert (canonicalKey k) [v]

def del (h : Header) (k : Str) : Header := h.erase (canonicalKey k)

def get (h : Header) (k : Str) : Str := (((h.lookup (canonicalKey k)).getD []).head?).getD []

def values (h : Header) (k : Str) : List Str := (h.lookup (canonicalKey k)).getD []

def Canonical (h : Header) : Prop := ∀ k ∈ h, canonicalKey k = k

variable {h : Header} {k : Str}

theorem canonical_empty : Canonical ∅ := fun _ hk => absurd hk (AList.notMem_empty _)

theorem Canonical.insert (hc : h.Canonical) (a : Str) (v : List Str) :
    Canonical (h.insert (canonicalKey a) v) := by
  intro k hk
  rcases (AList.mem_insert h).mp hk with rfl | hk
  · exact canonicalKey_idem a
  · exact hc k hk

theorem Canonical.del (hc : h.Canonical) (a : Str) : Canonical (h.del a) :=
  fun k hk => hc k (AList.mem_erase.mp hk).2

theorem Canonical.lookup_none (hc : h.Canonical) (hk : canonicalKey k ≠ k) : h.lookup k = none :=
  AList.lookup_eq_none.mpr fun hmem => hk (hc k hmem)

theorem lookup_set (h : Header) (a v k : Str) :
    (h.set a v).lookup k = if k = canonicalKey a then some [v] else h.lookup k := by
  split_ifs with hk
  · rw [hk]
    exact AList.lookup_insert h
  · exact AList.lookup_insert_ne hk

theorem lookup_del_none (a : Str) (hk : h.lookup k = none) : (h.del a).lookup k = none := by
  by_cases hne : k = canonicalKey a
  · rw [hne]
    exact AList.lookup_erase _ _
  · rw [del, AList.lookup_erase_ne hne, hk]

end Header

/-! ## The strip -/

def headerOrgID : Str := str "X-Org-Id"

def headerUserID : Str := str "X-User-Id"

def headerUserIsAdmin : Str := str "X-User-IsAdmin"

def headerUserPerms : Str := str "X-User-Permissions"

def clientIdentityHeaders : List Str :=
  [headerOrgID, headerUserID, headerUserIsAdmin, headerUserPerms,
    str "X-Roles", str "X-User-Email", str "X-Phone-Number",
    str "X-User-Role", str "X-User-Roles", str "X-User-Name", str "X-Tenant-Id", str "X-Org",
    str "X-Is-Admin",
    str "X-Gateway-Validated", str "X-Gateway-User-Id", str "X-Gateway-Org-Id",
    str "X-Gateway-User-Email"]

def identityPrefixes : List Str := [str "X-IAM-", str "X-HANZO-", str "X-GATEWAY-"]

/-- `strings.ToUpper(key)` starts with one of the prefixes. Keys are ASCII. -/
def swept (key : Str) : Bool := identityPrefixes.any fun p => p.isPrefixOf (key.map toUpper)

/-- One turn of the sweep. An entry that was removed before it was reached is not visited. -/
def sweepKey (h : Header) (key : Str) : Header := if key ∈ h ∧ swept key then h.del key else h

/-- `stripClientIdentity`, with the order in which the runtime ranges over the keys of a map. -/
def stripClientIdentity (range : List Str → List Str) (h : Header) : Header :=
  let h := clientIdentityHeaders.foldl Header.del h
  let h := (range h.keys).foldl sweepKey h
  h.del (str "Cookie")

/-- Ranging over a map visits every key once, in any order. -/
def Ranges (range : List Str → List Str) : Prop := ∀ ks, (range ks).Perm ks

/-- A name the strip is about: on the list, under a prefix, or the cookies. -/
def IdentityName (k : Str) : Prop :=
  canonicalKey k ∈ clientIdentityHeaders.map canonicalKey ∨ swept k ∨ canonicalKey k = canonicalKey (str "Cookie")

theorem map_toUpper_titleCase : ∀ (upper : Bool) (s : Str), (titleCase upper s).map toUpper = s.map toUpper
  | _, [] => rfl
  | upper, c :: s => by
      have hbyte : toUpper (if upper then toUpper c else toLower c) = toUpper c := by
        cases upper
        · by_cases hc : isUpper c <;> simp [toUpper, toLower, hc, isUpper_lowered]
        · exact toUpper_idem c
      simp only [titleCase, List.map_cons, hbyte, map_toUpper_titleCase _ s]

/-- The groups do not depend on the spelling of a name. -/
theorem IdentityName.canonical {k : Str} (hk : IdentityName k) : IdentityName (canonicalKey k) := by
  have hupper : (canonicalKey k).map toUpper = k.map toUpper := by
    rw [canonicalKey]
    split_ifs
    · exact map_toUpper_titleCase true k
    · rfl
  rw [IdentityName, canonicalKey_idem, swept, hupper]
  exact hk

section Strip

variable {h : Header} {k : Str}

theorem foldl_del_none (names : List Str) (hk : h.lookup k = none) :
    (names.foldl Header.del h).lookup k = none :=
  List.foldlRecOn (motive := fun h : Header => h.lookup k = none) names _ hk
    fun _ hk name _ => Header.lookup_del_none name hk

theorem foldl_del_lookup {names : List Str} (hmem : k ∈ names.map canonicalKey) :
    (names.foldl Header.del h).lookup k = none := by
  induction names generalizing h with
  | nil => simp at hmem
  | cons name names ih =>
    rcases List.mem_cons.mp hmem with rfl | hmem
    · exact foldl_del_none names (AList.lookup_erase _ _)
    · exact ih hmem

theorem foldl_del_canonical (hc : h.Canonical) (names : List Str) : (names.foldl Header.del h).Canonical :=
  List.foldlRecOn names _ hc fun _ hc name _ => hc.del name

theorem sweepKey_canonical (hc : h.Canonical) (key : Str) : (sweepKey h key).Canonical := by
  rw [sweepKey]
  split_ifs
  · exact hc.del key
  · exact hc

theorem sweepKey_none (key : Str) (hk : h.lookup k = none) : (sweepKey h key).lookup k = none := by
  rw [sweepKey]
  split_ifs
  · exact Header.lookup_del_none key hk
  · exact hk

theorem foldl_sweep_none (order : List Str) (hk : h.lookup k = none) :
    (order.foldl sweepKey h).lookup k = none :=
  List.foldlRecOn (motive := fun h : Header => h.lookup k = none) order _ hk fun _ hk key _ => sweepKey_none key hk

/-- The sweep removes every key it visits under one of the prefixes: the map has canonical keys, so
deleting a key deletes its own entry. -/
theorem foldl_sweep_lookup (hc : h.Canonical) {order : List Str} (hk : k ∈ order) (hs : swept k) :
    (order.foldl sweepKey h).lookup k = none := by
  induction order generalizing h with
  | nil => simp at hk
  | cons key order ih =>
    rcases List.mem_cons.mp hk with rfl | hk
    · refine foldl_sweep_none order ?_
      by_cases hmem : k ∈ h
      · have hdel : sweepKey h k = h.del k := if_pos ⟨hmem, hs⟩
        rw [hdel, Header.del, hc k hmem]
        exact AList.lookup_erase _ _
      · exact sweepKey_none k (AList.lookup_eq_none.mpr hmem)
    · exact ih (sweepKey_canonical hc key) hk

theorem strip_canonical (range : List Str → List Str) (hc : h.Canonical) :
    (stripClientIdentity range h).Canonical :=
  (List.foldlRecOn _ _ (foldl_del_canonical hc _) fun _ hc key _ => sweepKey_canonical hc key).del _

/-- **The strip leaves no identity name**, whatever the order of iteration. -/
theorem strip_lookup {range : List Str → List Str} (hrange : Ranges range) (hc : h.Canonical)
    (hk : IdentityName k) : (stripClientIdentity range h).lookup k = none := by
  by_cases hcanon : canonicalKey k = k
  · rcases hk with hlist | hswept | hcookie
    · rw [hcanon] at hlist
      exact Header.lookup_del_none _ (foldl_sweep_none _ (foldl_del_lookup hlist))
    · refine Header.lookup_del_none _ ?_
      by_cases hmem : k ∈ clientIdentityHeaders.foldl Header.del h
      · refine foldl_sweep_lookup (foldl_del_canonical hc _) ?_ hswept
        exact (hrange _).mem_iff.mpr (AList.mem_keys.mp hmem)
      · exact foldl_sweep_none _ (AList.lookup_eq_none.mpr hmem)
    · rw [← hcanon, hcookie]
      exact AList.lookup_erase _ _
  · exact (strip_canonical range hc).lookup_none hcanon

end Strip

end Zap.Forwarding
