/-
# Zap.Forwarding.Url — the part of `net/url` a request target passes through.

`url.ParseRequestURI`, `url.Parse` and `URL.String`, over bytes. Both parsers cut the query at the first
question mark and percent-decode the path once; `Parse` alone cuts a fragment at the first hash sign and
reads two leading slashes (but not three) as an authority. `String` prints the path escaped again and the
query as it is. What an authority means is not modelled: `parseAuthority` is a parameter that says whether
one is accepted, and how it is printed.

`escapedPath_spec` is what the round trip needs of the printed path; `unescape_spec` says how decoding
shortens a string, and `unescape_append` how it cuts.
-/
import Mathlib.Data.List.TakeWhile
import Zap.Forwarding.Header

namespace Zap.Forwarding

open Zap.Lib

/-! ## Percent encoding -/

abbrev percent : UInt8 := 0x25

abbrev slash : UInt8 := 0x2F

abbrev question : UInt8 := 0x3F

abbrev hashSign : UInt8 := 0x23

def unhex (c : UInt8) : Option Nat :=
  if isDigit c then some (c.toNat - 0x30)
  else if 0x61 ≤ c && c ≤ 0x66 then some (c.toNat - 0x61 + 10)
  else if 0x41 ≤ c && c ≤ 0x46 then some (c.toNat - 0x41 + 10)
  else none

/-- `unescape`: each `%XX` is one byte; a percent sign without two hex digits is an error. -/
def unescape : Str → Option Str
  | [] => some []
  | c :: s =>
    if c = percent then
      match s with
      | a :: b :: t =>
        match unhex a, unhex b with
        | some x, some y => (unescape t).map (UInt8.ofNat (16 * x + y) :: ·)
        | _, _ => none
      | _ => none
    else (unescape s).map (c :: ·)

/-- `shouldEscape` for paths: letters, digits, `-_.~` and `$&+,/:;=@` stay. -/
def shouldEscape (c : UInt8) : Bool :=
  !(isLower c || isUpper c || isDigit c ||
    [0x2D, 0x5F, 0x2E, 0x7E, 0x24, 0x26, 0x2B, 0x2C, 0x2F, 0x3A, 0x3B, 0x3D, 0x40].contains c)

def upperHex (n : Nat) : UInt8 := .ofNat (if n < 10 then 0x30 + n else 0x41 + (n - 10))

def escapeByte (c : UInt8) : Str :=
  if shouldEscape c then [percent, upperHex (c.toNat / 16), upperHex (c.toNat % 16)] else [c]

def escape (s : Str) : Str := s.flatMap escapeByte

/-- `validEncoded`: an escaped path as a client may have spelled it. -/
def validEncoded (s : Str) : Bool :=
  s.all fun c => [0x21, 0x24, 0x26, 0x27, 0x28, 0x29, 0x2A, 0x2B, 0x2C, 0x3B, 0x3D, 0x3A, 0x40, 0x5B,
    0x5D, 0x25].contains c || !shouldEscape c

/-- `hasControlByte`, and `stringContainsCTLByte` of `net/url`. -/
def hasControlByte (s : Str) : Bool := s.any fun c => c < 0x20 || c == 0x7F

/-! ## URLs -/

/-- `url.URL`. `authority` is the user and the host as `String` prints them. -/
structure URL where
  scheme : Str := []
  opaquePart : Str := []
  authority : Str := []
  path : Str := []
  rawPath : Str := []
  omitHost : Bool := false
  forceQuery : Bool := false
  rawQuery : Str := []
  fragment : Str := []

def schemeByte (c : UInt8) : Bool := isLower c || isUpper c || isDigit c || [0x2B, 0x2D, 0x2E].contains c

/-- `getScheme`: letters, then letters, digits and `+-.`, up to a colon. A colon at the start is an
error. -/
def getScheme (raw : Str) : Option (Str × Str) :=
  let word := raw.takeWhile schemeByte
  match raw.drop word.length with
  | 0x3A :: rest =>
    match word with
    | [] => none
    | c :: _ => if isLower c || isUpper c then some (word, rest) else some ([], raw)
  | _ => some ([], raw)

def URL.setPath (u : URL) (p : Str) : Option URL := do
  let path ← unescape p
  return { u with path := path, rawPath := if escape path = p then [] else p }

def URL.escapedPath (u : URL) : Str :=
  if u.rawPath ≠ [] ∧ validEncoded u.rawPath ∧ unescape u.rawPath = some u.path then u.rawPath
  else if u.path = [0x2A] then [0x2A]
  else escape u.path

section Parse

variable (parseAuthority : Str → Option Str)

/-- The part of `parse` behind the scheme and the query. -/
def parseRest (viaRequest : Bool) (u : URL) (rest : Str) : Option URL :=
  if rest.head? ≠ some slash ∧ u.scheme ≠ [] then some { u with opaquePart := rest }
  else if rest.head? ≠ some slash ∧ viaRequest then none
  else if rest.head? ≠ some slash ∧ (cut slash rest).1.contains 0x3A then none
  else if (u.scheme ≠ [] ∨ ¬viaRequest ∧ ¬[slash, slash, slash].isPrefixOf rest) ∧
      [slash, slash].isPrefixOf rest then do
    let authority ← parseAuthority ((rest.drop 2).takeWhile (· != slash))
    { u with authority := authority }.setPath ((rest.drop 2).dropWhile (· != slash))
  else { u with omitHost := !u.scheme.isEmpty && rest.head? == some slash }.setPath rest

/-- `parse` -/
def parseURL (viaRequest : Bool) (raw : Str) : Option URL := do
  if hasControlByte raw ∨ raw = [] ∧ viaRequest then none
  else if raw = [0x2A] then some { path := [0x2A] }
  else
    let (scheme, rest) ← getScheme raw
    let u : URL := { scheme := scheme.map toLower }
    -- a lone question mark at the end is remembered, not cut
    if rest.getLast? = some question ∧ rest.count question = 1 then
      parseRest parseAuthority viaRequest { u with forceQuery := true } rest.dropLast
    else
      parseRest parseAuthority viaRequest { u with rawQuery := (cut question rest).2 } (cut question rest).1

def parseRequestURI (raw : Str) : Option URL := parseURL parseAuthority true raw

/-- `url.Parse` -/
def parseFull (raw : Str) : Option URL := do
  let u ← parseURL parseAuthority false (cut hashSign raw).1
  if (cut hashSign raw).2 = [] then return u
  return { u with fragment := ← unescape (cut hashSign raw).2 }

end Parse

/-- `URL.String`, of a URL without a fragment: `ParseRequestURI` sets none. -/
def URL.string (u : URL) : Str :=
  let scheme := if u.scheme = [] then [] else u.scheme ++ [0x3A]
  let target :=
    if u.opaquePart ≠ [] then scheme ++ u.opaquePart
    else
      let host :=
        if u.scheme = [] ∧ u.authority = [] ∨ u.omitHost ∧ u.authority = [] then []
        else if u.authority = [] ∧ u.path = [] then []
        else [slash, slash] ++ u.authority
      let front := scheme ++ host
      let join := if u.escapedPath ≠ [] ∧ u.escapedPath.head? ≠ some slash ∧ u.authority ≠ [] then [slash] else []
      let dot := if front ++ join = [] ∧ (cut slash u.escapedPath).1.contains 0x3A then [0x2E, slash] else []
      front ++ join ++ dot ++ u.escapedPath
  if u.forceQuery ∨ u.rawQuery ≠ [] then target ++ question :: u.rawQuery else target

/-! ## Decoding and encoding -/

variable {c : UInt8} {u' : URL} {path : Str}

section Escape

variable {s t : Str}

theorem unescape_cons_ne (h : c ≠ percent) (s : Str) : unescape (c :: s) = (unescape s).map (c :: ·) := by
  rcases s with _ | ⟨a, _ | ⟨b, s⟩⟩ <;> simp [unescape, h]

theorem unescape_percent {a b : UInt8} {x y : Nat} (ha : unhex a = some x) (hb : unhex b = some y)
    (s : Str) : unescape (percent :: a :: b :: s) = (unescape s).map (UInt8.ofNat (16 * x + y) :: ·) := by
  rw [unescape, if_pos rfl]
  simp only [ha, hb]

/-- What a decoded string starts with: a byte that stands for itself, or two hex digits. -/
theorem unescape_cons_cases (h : unescape (c :: s) = some t) :
    (c ≠ percent ∧ ∃ t', unescape s = some t' ∧ t = c :: t') ∨
    (c = percent ∧ ∃ a b x y s' t', s = a :: b :: s' ∧ unhex a = some x ∧ unhex b = some y ∧
      unescape s' = some t' ∧ t = UInt8.ofNat (16 * x + y) :: t') := by
  by_cases hc : c = percent
  · subst hc
    refine .inr ⟨rfl, ?_⟩
    match s, h with
    | [], h => simp [unescape] at h
    | [_], h => simp [unescape] at h
    | a :: b :: s', h =>
      rw [unescape, if_pos rfl] at h
      cases ha : unhex a with
      | none => simp [ha] at h
      | some x =>
        cases hb : unhex b with
        | none => simp [ha, hb] at h
        | some y =>
          simp only [ha, hb, Option.map_eq_some_iff] at h
          obtain ⟨t', ht', rfl⟩ := h
          exact ⟨a, b, x, y, s', t', rfl, ha, hb, ht', rfl⟩
  · rw [unescape_cons_ne hc, Option.map_eq_some_iff] at h
    obtain ⟨t', ht', rfl⟩ := h
    exact .inl ⟨hc, t', ht', rfl⟩

theorem unescape_spec : ∀ {s t : Str}, unescape s = some t →
    t.length ≤ s.length ∧ (t.length = s.length → percent ∉ s ∧ t = s)
  | [], t, h => by
      cases h
      simp
  | c :: s, t, h => by
      rcases unescape_cons_cases h with ⟨hc, t', ht', rfl⟩ | ⟨rfl, a, b, x, y, s', t', rfl, -, -, ht', rfl⟩
      · obtain ⟨hle, heq⟩ := unescape_spec ht'
        refine ⟨by simpa using hle, fun hlen => ?_⟩
        obtain ⟨hnot, rfl⟩ := heq (by simpa using hlen)
        simp [hnot, Ne.symm hc]
      · obtain ⟨hle, -⟩ := unescape_spec ht'
        simp only [List.length_cons]
        exact ⟨by omega, fun _ => by omega⟩

theorem unescape_self : ∀ {s : Str}, percent ∉ s → unescape s = some s
  | [], _ => rfl
  | c :: s, h => by
      have hc : c ≠ percent := fun heq => h (by simp [heq])
      rw [unescape_cons_ne hc, unescape_self fun hmem => h (List.mem_cons_of_mem c hmem), Option.map_some]

theorem escapeByte_unescape (c : UInt8) (s : Str) :
    unescape (escapeByte c ++ s) = (unescape s).map (c :: ·) := by
  have hhex : ∀ n : Nat, n < 16 → unhex (upperHex n) = some n := by decide
  have hlt := c.toNat_lt
  rw [escapeByte]
  split_ifs with hesc
  · rw [List.cons_append, List.cons_append, List.cons_append, List.nil_append,
      unescape_percent (hhex _ (by omega)) (hhex _ (by omega)), Nat.div_add_mod, UInt8.ofNat_toNat]
  · have hc : c ≠ percent := fun heq => hesc (by rw [heq]; decide)
    rw [List.singleton_append, unescape_cons_ne hc]

theorem unescape_escape (s : Str) : unescape (escape s) = some s := by
  induction s with
  | nil => rfl
  | cons c s ih =>
    rw [escape, List.flatMap_cons, escapeByte_unescape, show s.flatMap escapeByte = escape s from rfl, ih,
      Option.map_some]

/-- A decoded string cut in front of a slash: no escape sequence reaches over it. -/
theorem unescape_append {b : Str} (hb : b = [] ∨ b.head? = some slash) (a : Str) {t : Str}
    (h : unescape (a ++ b) = some t) : ∃ x y, unescape a = some x ∧ unescape b = some y ∧ t = x ++ y := by
  have hdigit : ∀ {d s n}, b = d :: s → unhex d = some n → False := by
    rintro d s n rfl hd
    rcases hb with hb | hb
    · cases hb
    · cases hb
      rw [show unhex slash = none by decide] at hd
      cases hd
  -- on the length: a decoded escape takes three bytes at once
  induction hlen : a.length using Nat.strong_induction_on generalizing a t with
  | _ len ih =>
    subst hlen
    rcases a with _ | ⟨c, a⟩
    · exact ⟨[], t, rfl, h, rfl⟩
    rcases unescape_cons_cases h with ⟨hc, t', ht', rfl⟩ | ⟨rfl, d, e, m, n, s', t', hs, hd, he, ht', rfl⟩
    · obtain ⟨x, y, hx, hy, rfl⟩ := ih a.length (by simp) a ht' rfl
      exact ⟨c :: x, y, by rw [unescape_cons_ne hc, hx, Option.map_some], hy, rfl⟩
    rw [List.append_eq] at hs
    -- the two digits belong to the first part: neither of them is a slash
    rcases a with _ | ⟨d', _ | ⟨e', a⟩⟩
    · exact absurd hd fun hd => hdigit hs hd
    · exact absurd he fun he => hdigit (List.cons.inj hs).2 he
    · simp only [List.cons_append, List.cons.injEq] at hs
      obtain ⟨rfl, rfl, rfl⟩ := hs
      obtain ⟨x, y, hx, hy, rfl⟩ := ih a.length (by simp only [List.length_cons]; omega) a ht' rfl
      exact ⟨_, y, by rw [unescape_percent hd he, hx, Option.map_some], hy, rfl⟩

def plainByte (c : UInt8) : Bool := c != question && c != hashSign && !(c < 0x20 || c == 0x7F)

/-- Checked from the bytes that are not plain: they are few, and none of them is in the table. -/
theorem plainByte_of_encoded {c : UInt8} (h : validEncoded [c]) : plainByte c := by
  have hbyte : ∀ c : UInt8, plainByte c = false → validEncoded [c] = false := byte_forall (by decide +kernel)
  by_contra hc
  rw [hbyte c (Bool.eq_false_iff.mpr hc)] at h
  cases h

theorem escape_plain (s : Str) : (escape s).all plainByte := by
  have hhex : ∀ n : Nat, n < 16 → plainByte (upperHex n) = true := by decide
  rw [escape, List.all_flatMap, List.all_eq_true]
  intro c _
  have hlt := c.toNat_lt
  rw [escapeByte]
  split_ifs with hesc
  · simp only [List.all_cons, List.all_nil, hhex (c.toNat / 16) (by omega), hhex (c.toNat % 16) (by omega)]
    rfl
  · rw [List.all_cons, plainByte_of_encoded (by simp [validEncoded, hesc])]
    rfl

theorem validEncoded_plain (h : validEncoded s) : s.all plainByte := by
  rw [List.all_eq_true]
  exact fun c hc => plainByte_of_encoded ((Bool.and_true _).trans (List.all_eq_true.mp h c hc))

theorem escapeByte_cons (c : UInt8) : ∃ d t, escapeByte c = d :: t ∧ (slash == d) = (slash == c) := by
  rw [escapeByte]
  split_ifs with hesc
  · have hc : slash ≠ c := fun heq => absurd hesc (by rw [← heq]; decide)
    exact ⟨_, _, rfl, (beq_eq_false_iff_ne.mpr hc).symm ▸ rfl⟩
  · exact ⟨_, _, rfl, rfl⟩

theorem slashes_escape : ∀ (n : Nat) (s : Str),
    (List.replicate n slash).isPrefixOf (escape s) = (List.replicate n slash).isPrefixOf s
  | 0, _ => by simp
  | n + 1, [] => by simp [escape]
  | n + 1, c :: s => by
      rw [escape, List.flatMap_cons, show s.flatMap escapeByte = escape s from rfl, List.replicate_succ]
      by_cases hc : c = slash
      · subst hc
        rw [show escapeByte slash = [slash] by decide]
        simp [List.isPrefixOf, slashes_escape n s]
      · obtain ⟨d, t, hb, hd⟩ := escapeByte_cons c
        rw [hb, List.cons_append, List.isPrefixOf, List.isPrefixOf, hd, beq_eq_false_iff_ne.mpr (Ne.symm hc),
          Bool.false_and, Bool.false_and]

end Escape

/-! ## A printed target, read again -/

section Cut

variable {c : UInt8} {s t : Str}

theorem bne_of_not_mem (h : c ∉ s) : ∀ x ∈ s, (x != c) = true := fun _ hx => bne_iff_ne.mpr fun heq => h (heq ▸ hx)

theorem cut_append_left (h : c ∉ s) : cut c (s ++ t) = (s ++ (cut c t).1, (cut c t).2) := by
  have hall := bne_of_not_mem h
  rw [cut, List.takeWhile_append_of_pos hall, List.dropWhile_append_of_pos hall, cut]

theorem cut_of_not_mem (h : c ∉ s) : cut c s = (s, []) := by
  simpa [cut] using @cut_append_left c s [] h

theorem cut_append (h : c ∉ s) : cut c (s ++ c :: t) = (s, t) := by
  rw [cut_append_left h]
  simp [cut]

theorem cut_cases (c : UInt8) (s : Str) :
    (c ∉ s ∧ cut c s = (s, [])) ∨ ∃ a b, s = a ++ c :: b ∧ c ∉ a ∧ cut c s = (a, b) := by
  by_cases h : c ∈ s
  · obtain ⟨a, b, rfl, ha⟩ := List.eq_append_cons_of_mem h
    exact .inr ⟨a, b, rfl, ha, cut_append ha⟩
  · exact .inl ⟨h, cut_of_not_mem h⟩

theorem cut_subset (c : UInt8) (s : Str) : (cut c s).1 ⊆ s ∧ (cut c s).2 ⊆ s :=
  ⟨(List.takeWhile_sublist _).subset, ((List.tail_sublist _).trans (List.dropWhile_sublist _)).subset⟩

theorem hasControlByte_subset (h : s ⊆ t) (ht : hasControlByte t = false) : hasControlByte s = false := by
  rw [hasControlByte, List.any_eq_false] at ht ⊢
  exact fun x hx => ht x (h hx)

end Cut

section Origin

variable {parseAuthority : Str → Option Str} {raw p q e : Str} {force viaRequest : Bool}

theorem getScheme_slash (h : raw.head? = some slash) : getScheme raw = some ([], raw) := by
  obtain ⟨s, rfl⟩ := List.head?_eq_some_iff.mp h
  rfl

variable (parseAuthority viaRequest) in
theorem parseURL_scheme {scheme rest : Str} (hscheme : getScheme raw = some (scheme, rest))
    (hctl : hasControlByte raw = false) (hne : viaRequest = true → raw ≠ []) (hstar : raw ≠ [0x2A]) :
    ∃ force, parseURL parseAuthority viaRequest raw = parseRest parseAuthority viaRequest
        { scheme := scheme.map toLower, forceQuery := force, rawQuery := (cut question rest).2 }
        (cut question rest).1 := by
  have hguard : ¬(hasControlByte raw = true ∨ raw = [] ∧ viaRequest = true) := by
    rw [hctl]
    tauto
  rw [parseURL, if_neg hguard, if_neg hstar, hscheme]
  simp only [Option.bind_eq_bind, Option.bind_some]
  split_ifs with hlast
  · obtain ⟨s, hs⟩ := List.getLast?_eq_some_iff.mp hlast.1
    have hnot : question ∉ s := by
      have hcount := hlast.2
      rw [hs, List.count_append, List.count_singleton_self] at hcount
      exact List.count_eq_zero.mp (by omega)
    have hcut : cut question rest = (s, []) := by
      rw [hs]
      exact cut_append hnot
    rw [hcut, hs, List.dropLast_concat]
    exact ⟨true, rfl⟩
  · exact ⟨false, rfl⟩

theorem parseURL_origin (hhead : raw.head? = some slash) (hctl : hasControlByte raw = false) :
    ∃ force, parseURL parseAuthority viaRequest raw =
      parseRest parseAuthority viaRequest { forceQuery := force, rawQuery := (cut question raw).2 }
        (cut question raw).1 := by
  refine parseURL_scheme _ _ (getScheme_slash hhead) hctl (fun _ hnil => ?_) fun heq => ?_
  · simp [hnil] at hhead
  · rw [heq] at hhead
    exact absurd hhead (by decide)

theorem omitHost_eq (u : URL) (hscheme : u.scheme = []) (homit : u.omitHost = false) (b : Bool) :
    { u with omitHost := !u.scheme.isEmpty && b } = u := by
  cases u
  simp_all

theorem parseRest_request (u : URL) (hscheme : u.scheme = []) (homit : u.omitHost = false)
    (hhead : p.head? = some slash) : parseRest parseAuthority true u p = u.setPath p := by
  rw [parseRest, omitHost_eq u hscheme homit]
  simp [hhead, hscheme]

/-- Two leading slashes, but not three: where `Parse` reads an authority. -/
def ReadsAuthority (p : Str) : Prop := [slash, slash].isPrefixOf p ∧ ¬[slash, slash, slash].isPrefixOf p

instance (p : Str) : Decidable (ReadsAuthority p) := inferInstanceAs (Decidable (_ ∧ _))

/-- Where `Parse` reads an authority behind a scheme. -/
def ReadsBehind (scheme p : Str) : Prop :=
  [slash, slash].isPrefixOf p ∧ (scheme = [] → ¬[slash, slash, slash].isPrefixOf p)

instance (scheme p : Str) : Decidable (ReadsBehind scheme p) := inferInstanceAs (Decidable (_ ∧ (_ → _)))

theorem readsBehind_nil (p : Str) : ReadsBehind [] p ↔ ReadsAuthority p := by simp [ReadsBehind, ReadsAuthority]

theorem parseRest_full (u : URL) (hhead : p.head? = some slash) :
    parseRest parseAuthority false u p = if ReadsBehind u.scheme p then
      (parseAuthority ((p.drop 2).takeWhile (· != slash))).bind fun authority =>
        { u with authority := authority }.setPath ((p.drop 2).dropWhile (· != slash))
      else { u with omitHost := !u.scheme.isEmpty && p.head? == some slash }.setPath p := by
  have hreads : (u.scheme ≠ [] ∨ ¬false = true ∧ ¬[slash, slash, slash].isPrefixOf p = true) ∧
      [slash, slash].isPrefixOf p = true ↔ ReadsBehind u.scheme p := by
    by_cases hs : u.scheme = []
    · simp [hs, ReadsBehind, and_comm]
    · simp [hs, ReadsBehind]
  rw [parseRest, if_neg (by simp [hhead]), if_neg (by simp [hhead]), if_neg (by simp [hhead])]
  exact if_congr hreads rfl rfl

variable {u : URL}

theorem setPath_eq_some (h : u.setPath p = some u') :
    ∃ path, unescape p = some path ∧
      u' = { u with path := path, rawPath := if escape path = p then [] else p } := by
  obtain ⟨path, hpath, h⟩ := Option.bind_eq_some_iff.mp h
  exact ⟨path, hpath, (Option.some.inj h).symm⟩

/-- A path is printed as the client spelled it, if that is a valid spelling, or escaped anew. -/
theorem escapedPath_cases (u : URL) (hstart : u.path.head? = some slash) :
    (u.escapedPath = u.rawPath ∧ u.rawPath ≠ [] ∧ validEncoded u.rawPath ∧
      unescape u.rawPath = some u.path) ∨ u.escapedPath = escape u.path := by
  have hstar : u.path ≠ [0x2A] := fun heq => by
    rw [heq] at hstart
    exact absurd hstart (by decide)
  rw [URL.escapedPath, if_neg hstar]
  split_ifs with hraw
  · exact .inl ⟨rfl, hraw⟩
  · exact .inr rfl

theorem unescape_head (h : unescape p = some path) (hhead : p.head? = some slash) : path.head? = some slash := by
  obtain ⟨s, rfl⟩ := List.head?_eq_some_iff.mp hhead
  rcases unescape_cons_cases h with ⟨-, t, -, rfl⟩ | ⟨hbad, -⟩
  · rfl
  · exact absurd hbad (by decide)

theorem escape_head (h : p.head? = some slash) : (escape p).head? = some slash := by
  obtain ⟨s, rfl⟩ := List.head?_eq_some_iff.mp h
  rfl

theorem readsAuthority_escape (p : Str) : ReadsAuthority (escape p) ↔ ReadsAuthority p := by
  have htwo := slashes_escape 2 p
  have hthree := slashes_escape 3 p
  simp only [List.replicate] at htwo hthree
  rw [ReadsAuthority, ReadsAuthority, htwo, hthree]

/-- The printed path of a parsed target: it decodes to the path, it has none of the bytes that end a path,
and it starts with as many slashes. -/
theorem escapedPath_spec (h : u.setPath p = some u') (hhead : p.head? = some slash) :
    unescape u'.escapedPath = some u'.path ∧ u'.escapedPath.all plainByte ∧
      u'.escapedPath.head? = some slash ∧
      (percent ∉ p → (ReadsAuthority u'.escapedPath ↔ ReadsAuthority p)) := by
  obtain ⟨path, hpath, hu⟩ := setPath_eq_some h
  have hpath' : u'.path = path := by rw [hu]
  have hraw' : u'.rawPath ≠ [] → u'.rawPath = p := by
    rw [hu]
    intro hne
    exact if_neg fun heq => hne (if_pos heq)
  have hstart := unescape_head hpath hhead
  rcases escapedPath_cases u' (by rw [hpath']; exact hstart) with ⟨heq, hne, hvalid, hun⟩ | heq
  · rw [heq]
    refine ⟨hun, validEncoded_plain hvalid, ?_, fun _ => ?_⟩
    · rw [hraw' hne, hhead]
    · rw [hraw' hne]
  · rw [heq, hpath']
    refine ⟨unescape_escape path, escape_plain path, escape_head hstart, fun hnot => ?_⟩
    rw [unescape_self hnot] at hpath
    rw [readsAuthority_escape, Option.some.inj hpath]

theorem plain_not_mem (he : e.all plainByte) : question ∉ e ∧ hashSign ∉ e ∧ hasControlByte e = false := by
  have hbyte : ∀ x ∈ e, plainByte x = true := List.all_eq_true.mp he
  refine ⟨fun h => absurd (hbyte _ h) (by decide), fun h => absurd (hbyte _ h) (by decide), ?_⟩
  rw [hasControlByte, List.any_eq_false]
  intro x hx hctl
  have := hbyte x hx
  rw [plainByte, hctl] at this
  simp at this

theorem hasControlByte_append (s t : Str) :
    hasControlByte (s ++ t) = (hasControlByte s || hasControlByte t) := List.any_append

/-- A scheme as `parse` keeps it: in small letters, and found again in front of a colon. -/
def SchemeName (s : Str) : Prop :=
  s.map toLower = s ∧ s.all plainByte ∧ (s ≠ [] → ∀ w, getScheme (s ++ 0x3A :: w) = some (s, w))

theorem getScheme_spec {scheme rest : Str} (h : getScheme raw = some (scheme, rest)) :
    SchemeName (scheme.map toLower) ∧ rest ⊆ raw := by
  have hbyte : ∀ c : UInt8, schemeByte c = true → schemeByte (toLower c) = true ∧
      toLower (toLower c) = toLower c ∧ plainByte (toLower c) = true := byte_forall (by decide +kernel)
  have hletter : ∀ c : UInt8, (isLower c || isUpper c) = true → (isLower (toLower c) || isUpper (toLower c)) = true :=
    byte_forall (by decide +kernel)
  have hempty : SchemeName (([] : Str).map toLower) := ⟨rfl, rfl, fun hne => absurd rfl hne⟩
  unfold getScheme at h
  simp only at h
  have hword : ∀ c ∈ raw.takeWhile schemeByte, schemeByte c = true := fun c hc => List.mem_takeWhile_imp hc
  revert h hword
  generalize raw.takeWhile schemeByte = word
  intro h hword
  split at h
  · rename_i rest' hdrop
    rcases word with _ | ⟨c, word⟩
    · cases h
    simp only at h
    split_ifs at h with hc
    · cases h
      refine ⟨⟨?_, ?_, fun _ w => ?_⟩, fun x hx => List.mem_of_mem_drop (hdrop ▸ List.mem_cons_of_mem _ hx)⟩
      · rw [List.map_map]
        exact List.map_congr_left fun x hx => (hbyte x (hword x hx)).2.1
      · rw [List.all_map, List.all_eq_true]
        exact fun x hx => (hbyte x (hword x hx)).2.2
      · have hall : ∀ x ∈ (c :: word).map toLower, schemeByte x = true := by
          intro x hx
          obtain ⟨y, hy, rfl⟩ := List.mem_map.mp hx
          exact (hbyte y (hword y hy)).1
        have htake : ((c :: word).map toLower ++ 0x3A :: w).takeWhile schemeByte = (c :: word).map toLower := by
          rw [List.takeWhile_append_of_pos hall, List.takeWhile_cons_of_neg (by decide), List.append_nil]
        rw [getScheme, htake, List.drop_left]
        exact if_pos (hletter c hc)
    · cases h
      exact ⟨hempty, fun _ hx => hx⟩
  · cases h
    exact ⟨hempty, fun _ hx => hx⟩

/-- What `String` prints of the scheme. -/
def URL.front (u : URL) : Str := if u.scheme = [] then [] else u.scheme ++ [0x3A]

/-- What `String` prints behind it, with the query. -/
def URL.queried (u : URL) (e : Str) : Str :=
  if u.forceQuery ∨ u.rawQuery ≠ [] then e ++ question :: u.rawQuery else e

def URL.withFragment (fragment : Str) (u : URL) : Option URL :=
  if fragment = [] then some u else (unescape fragment).bind fun x => some { u with fragment := x }

theorem withFragment_same {fragment : Str} (h : u.withFragment fragment = some u') :
    u'.path = u.path ∧ u'.rawQuery = u.rawQuery := by
  unfold URL.withFragment at h
  split_ifs at h
  · cases h
    exact ⟨rfl, rfl⟩
  · obtain ⟨x, -, hx⟩ := Option.bind_eq_some_iff.mp h
    cases hx
    exact ⟨rfl, rfl⟩

/-- The scheme is found again, whatever follows: there is one, or what follows starts with a slash. -/
theorem front_leads (hscheme : SchemeName u.scheme) (he : u.scheme = [] → e.head? = some slash) (t : Str) :
    u.front ++ (e ++ t) ≠ [0x2A] ∧ getScheme (u.front ++ (e ++ t)) = some (u.scheme, e ++ t) ∧
      u.front.all plainByte := by
  by_cases hs : u.scheme = []
  · have hhead : (e ++ t).head? = some slash := by simp [he hs]
    rw [URL.front, if_pos hs, List.nil_append, hs]
    refine ⟨fun heq => ?_, getScheme_slash hhead, rfl⟩
    rw [heq] at hhead
    exact absurd hhead (by decide)
  · rw [URL.front, if_neg hs, List.append_assoc, List.singleton_append]
    refine ⟨fun heq => ?_, hscheme.2.2 hs _, by simp [hscheme.2.1, plainByte, question, hashSign]⟩
    have := congrArg List.length heq
    have hpos := List.length_pos_iff.mpr hs
    simp only [List.length_append, List.length_cons, List.length_nil] at this
    omega

variable (parseAuthority) in
/-- **What `Parse` makes of a printed target**: the scheme, the part in front of the query, the query up to a
hash sign. -/
theorem parseFull_front {w : Str} (hscheme : SchemeName u.scheme) (he : u.scheme = [] → e.head? = some slash)
    (hctl : hasControlByte w = false) (hquestion : question ∉ e)
    (hcut : (cut hashSign w).1 = e ∧ q = [] ∨ (cut hashSign w).1 = e ++ question :: q) :
    ∃ force, parseFull parseAuthority (u.front ++ w) =
      (parseRest parseAuthority false { scheme := u.scheme, forceQuery := force, rawQuery := q } e).bind
        (URL.withFragment (cut hashSign w).2) := by
  obtain ⟨t, ht, hq⟩ : ∃ t, (cut hashSign w).1 = e ++ t ∧ cut question (e ++ t) = (e, q) := by
    rcases hcut with ⟨h, rfl⟩ | h
    · exact ⟨[], by rw [h, List.append_nil], by rw [List.append_nil, cut_of_not_mem hquestion]⟩
    · exact ⟨_, h, cut_append hquestion⟩
  obtain ⟨hstar, hget, hplain⟩ := front_leads hscheme he t
  obtain ⟨-, hhash, hfront⟩ := plain_not_mem hplain
  have hrest := hasControlByte_subset (cut_subset hashSign w).1 hctl
  have hcuts : cut hashSign (u.front ++ w) = (u.front ++ (e ++ t), (cut hashSign w).2) := by
    rw [cut_append_left hhash, ht]
  obtain ⟨force, hparse⟩ := parseURL_scheme parseAuthority false hget
    (by rw [hasControlByte_append, hfront, ← ht, hrest]; rfl) (fun h => absurd h (by decide)) hstar
  rw [hq, hscheme.1] at hparse
  refine ⟨force, ?_⟩
  rw [parseFull, hcuts, hparse]
  rfl

theorem cut_queried (u : URL) (hhash : hashSign ∉ e) :
    ((cut hashSign (u.queried e)).1 = e ∧ (cut hashSign u.rawQuery).1 = [] ∨
      (cut hashSign (u.queried e)).1 = e ++ question :: (cut hashSign u.rawQuery).1) ∧
    (cut hashSign (u.queried e)).2 = (cut hashSign u.rawQuery).2 := by
  unfold URL.queried
  split_ifs with hcond
  · rw [cut_append_left hhash, ← List.singleton_append, cut_append_left (by decide)]
    exact ⟨.inr rfl, rfl⟩
  · have hnil : u.rawQuery = [] := by tauto
    rw [hnil, cut_of_not_mem hhash]
    exact ⟨.inl ⟨rfl, rfl⟩, rfl⟩

theorem hasControlByte_queried (hq : hasControlByte u.rawQuery = false) (he : hasControlByte e = false) :
    hasControlByte (u.queried e) = false := by
  unfold URL.queried
  split_ifs
  · rw [hasControlByte_append, he, Bool.false_or]
    exact hq
  · exact he

variable (parseAuthority) in
theorem parseFull_plain (hscheme : SchemeName u.scheme) (he : u.scheme = [] → e.head? = some slash)
    (hplain : e.all plainByte) (hq : hasControlByte u.rawQuery = false) :
    ∃ force, parseFull parseAuthority (u.front ++ u.queried e) = (parseRest parseAuthority false
        { scheme := u.scheme, forceQuery := force, rawQuery := (cut hashSign u.rawQuery).1 } e).bind
        (URL.withFragment (cut hashSign u.rawQuery).2) := by
  obtain ⟨hquestion, hhash, hctl⟩ := plain_not_mem hplain
  obtain ⟨hcut, hfragment⟩ := cut_queried u hhash
  rw [← hfragment]
  exact parseFull_front _ hscheme he (hasControlByte_queried hq hctl) hquestion hcut

/-- A path without an authority in front is printed behind the scheme as it is. -/
theorem string_rooted (u : URL) (hnopart : u.opaquePart = []) (hauth : u.authority = [])
    (homit : u.scheme ≠ [] → u.omitHost = true) (hhead : u.escapedPath.head? = some slash) :
    u.string = u.front ++ u.queried u.escapedPath := by
  have hcut : (cut slash u.escapedPath).1 = [] := by
    obtain ⟨s, hs⟩ := List.head?_eq_some_iff.mp hhead
    simp [hs, cut]
  have hhost : u.scheme = [] ∧ u.authority = [] ∨ u.omitHost = true ∧ u.authority = [] := by
    by_cases hs : u.scheme = []
    · exact .inl ⟨hs, hauth⟩
    · exact .inr ⟨homit hs, hauth⟩
  simp only [URL.string, hnopart, URL.front, URL.queried, hcut, if_pos hhost]
  split_ifs <;> simp_all

end Origin

/-! ## The round trip of a target -/

/-- A target that is parsed, printed and parsed again, as the backend does. -/
def retarget (parseAuthority : Str → Option Str) (raw : Str) : Option URL := do
  let u ← parseRequestURI parseAuthority raw
  parseFull parseAuthority u.string

def withQuery (path rawQuery : Str) : Str := if rawQuery ≠ [] then path ++ question :: rawQuery else path

section Retarget

variable {parseAuthority : Str → Option Str} {raw p q : Str} {u : URL}

theorem parseURL_control {viaRequest : Bool} (h : parseURL parseAuthority viaRequest raw = some u) :
    hasControlByte raw = false := by
  by_contra hctl
  rw [parseURL, if_pos (.inl (by simpa using hctl))] at h
  cases h

theorem cut_head (h : raw.head? = some slash) : (cut question raw).1.head? = some slash := by
  obtain ⟨s, rfl⟩ := List.head?_eq_some_iff.mp h
  rfl

/-- A target in origin form, parsed once, and what is printed for it, parsed again. -/
theorem parsed_origin (hhead : raw.head? = some slash) (h : parseRequestURI parseAuthority raw = some u) :
    u.scheme = [] ∧ u.opaquePart = [] ∧ unescape (cut question raw).1 = some u.path ∧
      u.rawQuery = (cut question raw).2 ∧ unescape u.escapedPath = some u.path ∧ u.escapedPath.head? = some slash ∧
      (percent ∉ (cut question raw).1 → (ReadsAuthority u.escapedPath ↔ ReadsAuthority (cut question raw).1)) ∧
      ∃ force, parseFull parseAuthority u.string =
        (parseRest parseAuthority false { forceQuery := force, rawQuery := (cut hashSign u.rawQuery).1 }
          u.escapedPath).bind (URL.withFragment (cut hashSign u.rawQuery).2) := by
  have hctl := parseURL_control h
  have hstart := cut_head hhead
  obtain ⟨force, hparse⟩ := @parseURL_origin parseAuthority raw true hhead hctl
  rw [parseRequestURI, hparse, parseRest_request _ rfl rfl hstart] at h
  obtain ⟨hun, hplain, hehead, hreads⟩ := escapedPath_spec h hstart
  obtain ⟨path, hpath, hu⟩ := setPath_eq_some h
  have hquery : u.rawQuery = (cut question raw).2 := by rw [hu]
  have hscheme : u.scheme = [] := by rw [hu]
  have hqctl := hasControlByte_subset (cut_subset question raw).2 hctl
  rw [← hquery] at hqctl
  obtain ⟨force', hfull⟩ := parseFull_plain parseAuthority (u := u)
    (by rw [hscheme]; exact ⟨rfl, rfl, fun hne => absurd rfl hne⟩) (fun _ => hehead) hplain hqctl
  rw [← string_rooted u (by rw [hu]) (by rw [hu]) (fun hne => absurd hscheme hne) hehead, hscheme] at hfull
  exact ⟨hscheme, by rw [hu], by rw [hpath, hu], hquery, hun, hehead, hreads, force', hfull⟩

theorem cut_withQuery (hp : question ∉ p) : cut question (withQuery p q) = (p, q) := by
  rw [withQuery]
  split_ifs with hq
  · exact cut_append hp
  · rw [not_not.mp hq]
    exact cut_of_not_mem hp

theorem withQuery_head (hp : p.head? = some slash) : (withQuery p q).head? = some slash := by
  rw [withQuery]
  split_ifs
  · simp [hp]
  · exact hp

/-- The part of a target in front of its query is no longer than the path, and as long only if the path
has no question mark. -/
theorem cut_withQuery_spec (p q : Str) :
    (cut question (withQuery p q)).1.length ≤ p.length ∧
      ((cut question (withQuery p q)).1.length = p.length → question ∉ p) := by
  by_cases hmem : question ∈ p
  · obtain ⟨a, b, rfl, ha⟩ := List.eq_append_cons_of_mem hmem
    have hcut : (cut question (withQuery (a ++ question :: b) q)).1 = a := by
      rw [withQuery]
      split_ifs
      · rw [List.append_assoc, List.cons_append, cut_append ha]
      · rw [cut_append ha]
    rw [hcut]
    exact ⟨by simp, fun hlen => by simp at hlen⟩
  · rw [cut_withQuery hmem]
    exact ⟨Nat.le_refl _, fun _ => hmem⟩

theorem dropWhile_slash (s : Str) : s.dropWhile (· != slash) = [] ∨ (s.dropWhile (· != slash)).head? = some slash := by
  rcases hd : s.dropWhile (· != slash) with _ | ⟨c, t⟩
  · exact .inl rfl
  · have hnot := List.head?_dropWhile_not (· != slash) s
    rw [hd] at hnot
    have hc : c = slash := by simpa using hnot
    exact .inr (by rw [hc]; rfl)

/-- A path loses something when an authority is read in front of it. -/
theorem authority_shortens {y : Str} (hp : [slash, slash].isPrefixOf p) (hpath : unescape p = some path)
    (hy : unescape ((p.drop 2).dropWhile (· != slash)) = some y) : y.length < path.length := by
  have hsplit : p = (p.take 2 ++ (p.drop 2).takeWhile (· != slash)) ++ (p.drop 2).dropWhile (· != slash) := by
    rw [List.append_assoc, List.takeWhile_append_dropWhile, List.take_append_drop]
  rw [hsplit] at hpath
  obtain ⟨x, y', hx, hy', rfl⟩ := unescape_append (dropWhile_slash (p.drop 2)) _ hpath
  rw [hy] at hy'
  cases hy'
  -- the path in front of the suffix has at least its two slashes
  have hpos : x ≠ [] := by
    obtain ⟨t, rfl⟩ := List.isPrefixOf_iff_prefix.mp hp
    intro hnil
    rw [hnil] at hx
    rcases unescape_cons_cases hx with ⟨-, t, -, ht⟩ | ⟨hbad, -⟩
    · cases ht
    · exact absurd hbad (by decide)
  have hlen := List.length_pos_iff.mpr hpos
  rw [List.length_append]
  omega

theorem parseRest_full_path (hp : p.head? = some slash)
    (hpath : unescape p = some path) (h : parseRest parseAuthority false u p = some u') :
    u'.rawQuery = u.rawQuery ∧
      (if ReadsBehind u.scheme p then u'.path.length < path.length else u'.path = path) := by
  rw [parseRest_full u hp] at h
  by_cases hauth : ReadsBehind u.scheme p
  · rw [if_pos hauth, Option.bind_eq_some_iff] at h
    obtain ⟨authority, -, hset⟩ := h
    obtain ⟨y, hy, rfl⟩ := setPath_eq_some hset
    exact ⟨rfl, by rw [if_pos hauth]; exact authority_shortens hauth.1 hpath hy⟩
  · rw [if_neg hauth] at h ⊢
    obtain ⟨y, hy, rfl⟩ := setPath_eq_some h
    rw [hpath] at hy
    exact ⟨rfl, (Option.some.inj hy).symm⟩

theorem cut_eq_self {s : Str} (h : (cut c s).1 = s) : c ∉ s := by
  rcases cut_cases c s with ⟨hnot, -⟩ | ⟨a, b, hs, ha, hcut⟩
  · exact hnot
  · rw [hcut, hs] at h
    have := congrArg List.length h
    simp at this

end Retarget

/-! ## Targets of every form -/

/-- What `ParseRequestURI` makes of a target: the asterisk, a scheme with no path behind it, a scheme with an
authority, or a path, with or without a scheme. -/
inductive Parsed (parseAuthority : Str → Option Str) (u : URL) : Prop
  | star (h : u = { path := [0x2A] })
  | bare (hscheme : u.scheme ≠ []) (hpart : u.opaquePart.head? ≠ some slash) (hquestion : question ∉ u.opaquePart)
      (hctl : hasControlByte u.opaquePart = false) (hauth : u.authority = []) (hpath : u.path = [])
      (hescaped : u.escapedPath = []) (homit : u.omitHost = false)
  | hosted {a p : Str} {u₀ : URL} (hscheme : u.scheme ≠ []) (hpart : u.opaquePart = []) (homit : u.omitHost = false)
      (hauth : parseAuthority a = some u.authority) (hne : ¬(u.authority = [] ∧ u.path = []))
      (hp : p = [] ∨ p.head? = some slash) (hset : u₀.setPath p = some u)
  | rooted {p : Str} {u₀ : URL} (hpart : u.opaquePart = []) (hauth : u.authority = [])
      (homit : u.scheme ≠ [] → u.omitHost = true) (hp : p.head? = some slash) (hset : u₀.setPath p = some u)

section Forms

variable {parseAuthority : Str → Option Str} {raw p q e : Str} {u : URL}

theorem escapedPath_hosted {u0 : URL} (h : u0.setPath p = some u) (hp : p = [] ∨ p.head? = some slash) :
    unescape u.escapedPath = some u.path ∧ u.escapedPath.all plainByte ∧
      (u.escapedPath = [] ∨ u.escapedPath.head? = some slash) := by
  rcases hp with rfl | hp
  · cases h
    exact ⟨rfl, rfl, .inl rfl⟩
  · obtain ⟨hun, hplain, hhead, -⟩ := escapedPath_spec h hp
    exact ⟨hun, hplain, .inr hhead⟩

theorem parseRest_parsed {scheme : Str} {force : Bool} (hquestion : question ∉ p) (hctl : hasControlByte p = false)
    (h : parseRest parseAuthority true { scheme := scheme, forceQuery := force, rawQuery := q } p = some u) :
    Parsed parseAuthority u ∧ u.scheme = scheme ∧ u.rawQuery = q := by
  rw [parseRest] at h
  split_ifs at h with hbare hvia hcolon hreads
  · cases h
    exact ⟨.bare hbare.2 hbare.1 hquestion hctl rfl rfl rfl rfl, rfl, rfl⟩
  · obtain ⟨authority, hauth, hset⟩ := Option.bind_eq_some_iff.mp h
    have hscheme : scheme ≠ [] := hreads.1.resolve_right fun h => h.1 rfl
    have hp := dropWhile_slash (p.drop 2)
    obtain ⟨path, hpath, hu⟩ := setPath_eq_some hset
    refine ⟨?_, by rw [hu], by rw [hu]⟩
    by_cases hempty : u.authority = [] ∧ u.path = []
    · obtain ⟨hun, -, hhead⟩ := escapedPath_hosted hset hp
      have hescaped : u.escapedPath = [] := hhead.resolve_right fun hhead =>
        absurd (unescape_head hun hhead) (by simp [hempty.2])
      refine .bare ?_ ?_ ?_ ?_ hempty.1 hempty.2 hescaped ?_
      all_goals rw [hu]
      · exact hscheme
      · simp
      · simp
      · rfl
    · refine .hosted (a := (p.drop 2).takeWhile (· != slash)) ?_ ?_ ?_ ?_ hempty hp hset
      all_goals rw [hu]
      · exact hscheme
      · exact hauth
  · have hslash : p.head? = some slash := by
      by_contra hne
      exact hvia ⟨hne, rfl⟩
    obtain ⟨path, -, hu⟩ := setPath_eq_some h
    refine ⟨.rooted (by rw [hu]) (by rw [hu]) (fun hne => ?_) hslash h, by rw [hu], by rw [hu]⟩
    rw [hu] at hne ⊢
    simp [hslash, show scheme ≠ [] from hne]

theorem parseRequestURI_parsed (h : parseRequestURI parseAuthority raw = some u) :
    Parsed parseAuthority u ∧ SchemeName u.scheme ∧ hasControlByte u.rawQuery = false := by
  have hctl := parseURL_control h
  by_cases hstar : raw = [0x2A]
  · rw [hstar] at h
    cases h
    exact ⟨.star rfl, ⟨rfl, rfl, fun hne => absurd rfl hne⟩, rfl⟩
  have hne : raw ≠ [] := by
    rintro rfl
    cases h
  obtain ⟨scheme, rest, hget⟩ : ∃ scheme rest, getScheme raw = some (scheme, rest) := by
    cases hget : getScheme raw with
    | none => simp [parseRequestURI, parseURL, hget, hctl, hstar, hne] at h
    | some x => exact ⟨x.1, x.2, rfl⟩
  obtain ⟨hname, hsub⟩ := getScheme_spec hget
  obtain ⟨force, hparse⟩ := parseURL_scheme parseAuthority true hget hctl
    (fun _ => hne) hstar
  have hrest := hasControlByte_subset hsub hctl
  have hsubset := cut_subset question rest
  have hquestion : question ∉ (cut question rest).1 := by
    rcases cut_cases question rest with ⟨hnot, hcut⟩ | ⟨a, b, -, ha, hcut⟩
    · rwa [hcut]
    · rwa [hcut]
  rw [parseRequestURI, hparse] at h
  obtain ⟨hparsed, hscheme, hquery⟩ := parseRest_parsed hquestion (hasControlByte_subset hsubset.1 hrest) h
  rw [hscheme, hquery]
  exact ⟨hparsed, hname, hasControlByte_subset hsubset.2 hrest⟩

/-- What is known of a user and a host as `String` prints them: whatever would end an authority is escaped. -/
def PlainAuthority (parseAuthority : Str → Option Str) : Prop :=
  ∀ a b, parseAuthority a = some b → b.all plainByte ∧ slash ∉ b

/-- The second parse reads an authority where the first has read none: the printed path starts like one, and
`String` prints nothing between it and the scheme. -/
def URL.Rereads (u : URL) : Prop := ReadsBehind u.scheme u.escapedPath ∧ (u.scheme ≠ [] → u.omitHost = true)

instance (u : URL) : Decidable u.Rereads := inferInstanceAs (Decidable (_ ∧ (_ → _)))

theorem reparsed_bare {w : Str} (hname : SchemeName u.scheme) (hscheme : u.scheme ≠ [])
    (he : e.head? ≠ some slash) (hquestion : question ∉ e) (hctl : hasControlByte w = false)
    (hcut : (cut hashSign w).1 = e ∧ q = [] ∨ (cut hashSign w).1 = e ++ question :: q)
    (h : parseFull parseAuthority (u.front ++ w) = some u') : u'.rawQuery = q ∧ u'.path = [] := by
  obtain ⟨force, hfull⟩ := parseFull_front parseAuthority hname (fun h => absurd h hscheme)
    hctl hquestion hcut
  rw [hfull, parseRest, if_pos ⟨he, hscheme⟩, Option.bind_some] at h
  obtain ⟨hp, hq⟩ := withFragment_same h
  exact ⟨hq, hp⟩

theorem parseRest_hosted {a : Str} (u : URL) (hscheme : u.scheme ≠ []) (ha : slash ∉ a)
    (he : e = [] ∨ e.head? = some slash) :
    parseRest parseAuthority false u (slash :: slash :: (a ++ e)) =
      (parseAuthority a).bind fun authority => { u with authority := authority }.setPath e := by
  have hall := bne_of_not_mem ha
  have hstop : e.takeWhile (· != slash) = [] ∧ e.dropWhile (· != slash) = e := by
    rcases e with _ | ⟨c, t⟩
    · exact ⟨rfl, rfl⟩
    · obtain rfl : c = slash := by simpa using he
      simp
  rw [parseRest_full u rfl, if_pos ⟨rfl, fun h => absurd h hscheme⟩]
  simp only [List.drop_succ_cons, List.drop_zero]
  rw [List.takeWhile_append_of_pos hall, List.dropWhile_append_of_pos hall, hstop.1, hstop.2, List.append_nil]

theorem reparsed_hosted (hname : SchemeName u.scheme) (hscheme : u.scheme ≠ []) (hpart : u.opaquePart = [])
    (homit : u.omitHost = false) (hne : ¬(u.authority = [] ∧ u.path = [])) (hplainAuth : u.authority.all plainByte)
    (hslash : slash ∉ u.authority) (hun : unescape u.escapedPath = some u.path) (hplain : u.escapedPath.all plainByte)
    (hpath : u.escapedPath = [] ∨ u.escapedPath.head? = some slash) (hq : hasControlByte u.rawQuery = false)
    (h : parseFull parseAuthority u.string = some u') :
    u'.rawQuery = (cut hashSign u.rawQuery).1 ∧ u'.path = u.path := by
  have hstring : u.string = u.front ++ u.queried (slash :: slash :: (u.authority ++ u.escapedPath)) := by
    have hjoin : ¬(u.escapedPath ≠ [] ∧ u.escapedPath.head? ≠ some slash ∧ u.authority ≠ []) := by tauto
    simp only [URL.string, URL.front, URL.queried, hpart, homit, if_neg hne, if_neg hjoin]
    split_ifs <;> simp_all
  have hbody : (slash :: slash :: (u.authority ++ u.escapedPath)).all plainByte := by
    simp only [List.all_cons, List.all_append, hplainAuth, hplain, Bool.and_true]
    decide
  obtain ⟨force, hfull⟩ := parseFull_plain parseAuthority hname
    (fun h => absurd h hscheme) hbody hq
  rw [hstring, hfull, Option.bind_eq_some_iff] at h
  obtain ⟨u2, hu2, hfragment⟩ := h
  obtain ⟨hp', hq'⟩ := withFragment_same hfragment
  rw [parseRest_hosted { scheme := u.scheme, forceQuery := force, rawQuery := _ } hscheme hslash hpath,
    Option.bind_eq_some_iff] at hu2
  obtain ⟨authority, -, hset⟩ := hu2
  obtain ⟨path, hpath', rfl⟩ := setPath_eq_some hset
  rw [hun] at hpath'
  exact ⟨hq', hp'.trans (Option.some.inj hpath').symm⟩

/-- **What the second parse makes of a target**, whatever its form: the query ends at a hash sign, which may
be in front of it, and the path loses what now reads as an authority. -/
theorem reparsed (hplainAuth : u.scheme ≠ [] → PlainAuthority parseAuthority)
    (h : parseRequestURI parseAuthority raw = some u)
    (h' : parseFull parseAuthority u.string = some u') :
    u'.rawQuery = (if hashSign ∈ u.opaquePart then [] else (cut hashSign u.rawQuery).1) ∧
      (if u.Rereads then u'.path.length < u.path.length else u'.path = u.path) := by
  obtain ⟨hparsed, hname, hq⟩ := parseRequestURI_parsed h
  cases hparsed with
  | star hu =>
    rw [hu] at h' ⊢
    cases h'
    decide
  | bare hscheme hpart hquestion hctl hauth hpath hescaped homit =>
    have hnot : ¬u.Rereads := fun hr => by simpa [homit] using hr.2 hscheme
    have hstring : u.string = u.front ++ u.queried u.opaquePart := by
      simp only [URL.string, URL.front, URL.queried, hescaped, hauth, homit, hpath]
      split_ifs <;> simp_all
    have hwctl := hasControlByte_queried hq hctl
    rw [hstring] at h'
    rw [if_neg hnot, hpath]
    split_ifs with hhash
    · -- the hash sign is in front of the question mark
      obtain ⟨a, b, hab, ha⟩ := List.eq_append_cons_of_mem hhash
      refine reparsed_bare (e := a) hname hscheme (fun hslash => hpart ?_) (fun hmem => hquestion ?_) hwctl
        (.inl ⟨?_, rfl⟩) h'
      · rw [hab, List.head?_append, hslash]
        rfl
      · rw [hab]
        exact List.mem_append_left _ hmem
      · rw [URL.queried, hab]
        split_ifs
        · rw [List.append_assoc, List.cons_append, cut_append ha]
        · rw [cut_append ha]
    · exact reparsed_bare hname hscheme hpart hquestion hwctl (cut_queried u hhash).1 h'
  | hosted hscheme hpart homit hauth hne hp hset =>
    obtain ⟨hun, hplain, hpath⟩ := escapedPath_hosted hset hp
    obtain ⟨haplain, haslash⟩ := hplainAuth hscheme _ _ hauth
    have hnot : ¬u.Rereads := fun hr => by simpa [homit] using hr.2 hscheme
    rw [if_neg hnot, hpart, if_neg List.not_mem_nil]
    exact reparsed_hosted hname hscheme hpart homit hne haplain haslash hun hplain hpath hq h'
  | rooted hpart hauth homit hp hset =>
    obtain ⟨hun, hplain, hhead, -⟩ := escapedPath_spec hset hp
    obtain ⟨force, hfull⟩ := parseFull_plain parseAuthority hname (fun _ => hhead) hplain hq
    rw [string_rooted u hpart hauth homit hhead, hfull, Option.bind_eq_some_iff] at h'
    obtain ⟨u2, hu2, hfragment⟩ := h'
    obtain ⟨hp', hq'⟩ := withFragment_same hfragment
    have hreads : u.Rereads ↔ ReadsBehind u.scheme u.escapedPath := and_iff_left homit
    rw [hp', hq', hpart]
    simpa [hreads] using parseRest_full_path hhead hun hu2

/-- **When a target survives**: its path has no question mark, no percent sign and no authority in front,
its query no control byte and no hash sign. -/
theorem retarget_iff (hhead : p.head? = some slash) (hctl : hasControlByte p = false) :
    (∃ u, retarget parseAuthority (withQuery p q) = some u ∧ u.path = p ∧ u.rawQuery = q) ↔
      question ∉ p ∧ percent ∉ p ∧ ¬ReadsAuthority p ∧ hasControlByte q = false ∧ hashSign ∉ q := by
  have hraw := @withQuery_head p q hhead
  obtain ⟨hle, hlen⟩ := cut_withQuery_spec p q
  constructor
  · rintro ⟨u, h, hpath, hquery⟩
    obtain ⟨u1, hu1, hu⟩ := Option.bind_eq_some_iff.mp h
    obtain ⟨hscheme, hpart, hpath1, hquery1, -, -, hreads, -⟩ := parsed_origin hraw hu1
    have hrereads : u1.Rereads ↔ ReadsAuthority u1.escapedPath := by simp [URL.Rereads, hscheme, readsBehind_nil]
    obtain ⟨hq2, hp2⟩ := reparsed (fun hne => absurd hscheme hne) hu1 hu
    simp only [hpart, List.not_mem_nil, if_false, hrereads] at hq2 hp2
    -- no step makes the path longer, so each of them left it as it was
    obtain ⟨hshort, hself⟩ := unescape_spec hpath1
    rw [hpath] at hp2
    have hauth : ¬ReadsAuthority u1.escapedPath := by
      intro hr
      rw [if_pos hr] at hp2
      omega
    rw [if_neg hauth] at hp2
    have hplen : p.length = u1.path.length := by rw [hp2]
    have hquestion := hlen (by omega)
    rw [cut_withQuery hquestion] at hself hreads hquery1
    obtain ⟨hpercent, -⟩ := hself hplen.symm
    refine ⟨hquestion, hpercent, fun hr => hauth ((hreads hpercent).mpr hr), ?_, ?_⟩
    · have hsub := (cut_subset question (withQuery p q)).2
      rw [cut_withQuery hquestion] at hsub
      exact hasControlByte_subset hsub (parseURL_control hu1)
    · rw [hquery, hquery1] at hq2
      exact cut_eq_self hq2.symm
  · rintro ⟨hquestion, hpercent, hauth, hqctl, hhash⟩
    have hrawctl : hasControlByte (withQuery p q) = false := by
      rw [withQuery]
      split_ifs
      · rw [hasControlByte_append, hctl, Bool.false_or]
        exact hqctl
      · exact hctl
    have hcut := @cut_withQuery p q hquestion
    obtain ⟨force, hparse⟩ := @parseURL_origin parseAuthority _ true hraw hrawctl
    rw [parseRest_request _ rfl rfl (cut_head hraw), hcut, URL.setPath, unescape_self hpercent] at hparse
    obtain ⟨-, -, -, hquery, hun, hehead, hreads, force', hfull⟩ := parsed_origin hraw hparse
    rw [hcut] at hquery hreads
    have hnot : ¬ReadsAuthority _ := fun hr => hauth ((hreads hpercent).mp hr)
    rw [hquery, cut_of_not_mem hhash, parseRest_full _ hehead, if_neg (mt (readsBehind_nil _).mp hnot),
      URL.setPath, hun] at hfull
    exact ⟨_, by rw [retarget, parseRequestURI, hparse]; exact hfull, rfl, rfl⟩

end Forms

end Zap.Forwarding
