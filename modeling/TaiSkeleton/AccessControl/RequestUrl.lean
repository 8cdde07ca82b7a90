import TaiSkeleton.AccessControl.PathCanon
import Mathlib.Data.List.TakeWhile

/-!
# The path of a connection's URL

A connection's URL is put together from its scheme, its host, its path and its query, and the
path that access control decides on is what `urlsplit` takes out of that text again. The two
paths are the same under a condition on the host and the path alone (`urlPath_eq_ok_iff`).
-/

namespace TaiSkeleton.AccessControl

/-- The scheme of an http scope. -/
inductive Scheme where
  | http | https
deriving DecidableEq

def Scheme.text : Scheme → Path
  | http => ['h', 't', 't', 'p']
  | https => ['h', 't', 't', 'p', 's']

/-- What `conn.url` reads of an http scope: the scheme, the `Host` header, the decoded path the
router matches on, and the query string. -/
structure Target where
  scheme : Scheme
  host : Path
  path : Path
  query : Path

/-- The text of `conn.url`. -/
def Target.url (t : Target) : Path :=
  t.scheme.text ++ [':', '/', '/'] ++ t.host ++ t.path ++
    (if t.query = [] then [] else '?' :: t.query)

/-! ## `urlsplit` -/

/-- `_WHATWG_C0_CONTROL_OR_SPACE` -/
def isControlOrSpace (c : Char) : Bool := c.toNat ≤ 0x20

/-- Not one of `_UNSAFE_URL_BYTES_TO_REMOVE`. -/
def isKeptUrlByte (c : Char) : Bool := c != '\t' && c != '\r' && c != '\n'

/-- `scheme_chars` -/
def isSchemeChar (c : Char) : Bool := c.isAlphanum || c == '+' || c == '-' || c == '.'

/-- The text after the scheme, if there is one. -/
def dropScheme (url : Path) : Path :=
  let scheme := url.takeWhile (· != ':')
  if scheme.length < url.length ∧ (scheme.head?.any Char.isAlpha) ∧ scheme.all isSchemeChar then
    url.drop (scheme.length + 1)
  else url

/-- A character that does not end the network location. -/
def isNetlocChar (c : Char) : Bool := c != '/' && c != '?' && c != '#'

/-- The checks of a network location that `urlsplit` leaves to the address parser and to Unicode
normalization. -/
structure NetlocChecks where
  bracketed : Path → Bool
  normalized : Path → Bool

/-- Whether `urlsplit` takes a network location; it raises a `ValueError` otherwise. -/
def NetlocChecks.admits (checks : NetlocChecks) (netloc : Path) : Bool :=
  (netloc.contains '[' == netloc.contains ']') &&
    (!netloc.contains '[' || checks.bracketed netloc) &&
    (netloc.all (fun c => c.toNat < 0x80) || checks.normalized netloc)

/-- The network location and the rest of a text without scheme. -/
def splitNetloc : Path → Path × Path
  | '/' :: '/' :: rest => rest.span isNetlocChar
  | url => ([], url)

/-- A `ValueError` out of `urlsplit`. -/
inductive UrlError where
  | invalidUrl
deriving DecidableEq

/-- `urlsplit(url).path` -/
def urlsplitPath (checks : NetlocChecks) (url : Path) : Except UrlError Path :=
  let url := (url.dropWhile isControlOrSpace).filter isKeptUrlByte
  let (netloc, rest) := splitNetloc (dropScheme url)
  if checks.admits netloc then .ok ((rest.takeWhile (· != '#')).takeWhile (· != '?'))
  else .error .invalidUrl

/-- `conn.url.path` -/
def Target.urlPath (checks : NetlocChecks) (t : Target) : Except UrlError Path :=
  urlsplitPath checks t.url

/-! ## The path of the URL -/

variable {t : Target} {checks : NetlocChecks}

/-- The URL after `//`, as `urlsplit` reads it. -/
def Target.location (t : Target) : Path :=
  (t.host ++ t.path ++ (if t.query = [] then [] else '?' :: t.query)).filter isKeptUrlByte

/-- The network location of the URL. -/
def Target.netloc (t : Target) : Path := t.location.takeWhile isNetlocChar

theorem takeWhile_takeWhile {α : Type} (p q : α → Bool) (l : List α) :
    (l.takeWhile p).takeWhile q = l.takeWhile fun c => p c && q c := by
  induction l with
  | nil => rfl
  | cons c l ih =>
    by_cases hp : p c = true
    · by_cases hq : q c = true
      · simp [hp, hq, ih]
      · simp [hp, hq]
    · simp [hp]

/-- A character that does not end the path. -/
def isUrlPathChar (c : Char) : Bool := c != '#' && c != '?'

theorem urlPath_eq : t.urlPath checks =
    if checks.admits t.netloc then
      .ok ((t.location.dropWhile isNetlocChar).takeWhile isUrlPathChar)
    else .error .invalidUrl := by
  have hclean : (t.url.dropWhile isControlOrSpace).filter isKeptUrlByte =
      t.scheme.text ++ [':', '/', '/'] ++ t.location := by
    unfold Target.url Target.location
    cases t.scheme <;>
      simp [Scheme.text, isControlOrSpace, isKeptUrlByte]
  have hscheme : dropScheme (t.scheme.text ++ [':', '/', '/'] ++ t.location) =
      '/' :: '/' :: t.location := by
    cases t.scheme <;> simp [Scheme.text, dropScheme, isSchemeChar]
  unfold Target.urlPath urlsplitPath
  simp only [hclean, hscheme, splitNetloc, List.span_eq_takeWhile_dropWhile, takeWhile_takeWhile]
  rfl

/-- A path that `urlsplit` neither ends early nor deletes a character of: it holds no `?`, `#`,
tab or line break, and is absolute or empty. -/
structure PlainPath (path : Path) : Prop where
  chars : path.all (fun c => isUrlPathChar c && isKeptUrlByte c) = true
  absolute : ∀ c ∈ path.head?, c = '/'

/-- A host that does not end the network location itself, or one that spells out the path and a
`?` or `#` behind it. -/
def HostKeeps (host path : Path) : Prop :=
  host.all isNetlocChar = true ∨ ∃ a c rest, host.filter isKeptUrlByte = a ++ path ++ c :: rest ∧
    a.all isNetlocChar = true ∧ isUrlPathChar c = false

theorem isKeptUrlByte_of_not_netloc {c : Char} (h : isNetlocChar c = false) :
    isKeptUrlByte c = true := by
  by_contra hk
  simp only [isKeptUrlByte, Bool.and_eq_true, bne_iff_ne, not_and_or, not_not] at hk
  rcases hk with (rfl | rfl) | rfl <;> exact absurd h (by decide)

theorem eq_slash_of_not_netloc {c : Char} (h : isNetlocChar c = false)
    (hu : isUrlPathChar c = true) : c = '/' := by
  by_contra hne
  simp only [isUrlPathChar, Bool.and_eq_true, bne_iff_ne] at hu
  simp [isNetlocChar, hne, hu.1, hu.2] at h

theorem all_filter_netloc {host : Path} :
    (host.filter isKeptUrlByte).all isNetlocChar = host.all isNetlocChar := by
  rw [Bool.eq_iff_iff, List.all_eq_true, List.all_eq_true]
  constructor
  · intro h c hc
    by_contra hn
    have hfalse : isNetlocChar c = false := by simpa using hn
    exact hn (h c (List.mem_filter.mpr ⟨hc, isKeptUrlByte_of_not_netloc hfalse⟩))
  · exact fun h c hc => h c (List.mem_filter.mp hc).1

theorem not_netloc_of_not_urlPath {c : Char} (h : isUrlPathChar c = false) :
    isNetlocChar c = false := by
  by_contra hn
  simp only [Bool.not_eq_false, isNetlocChar, Bool.and_eq_true, bne_iff_ne] at hn
  simp [isUrlPathChar, hn.1.2, hn.2] at h

/-- The part of a list from the first element that does not satisfy `p`. -/
theorem dropWhile_eq_cons {α : Type} {p : α → Bool} {l rest : List α} {c : α}
    (h : l.dropWhile p = c :: rest) : p c = false := by
  have hhead := List.head?_dropWhile_not p l
  rwa [h] at hhead

theorem exists_dropWhile_eq_cons {α : Type} {p : α → Bool} {l : List α} (h : ¬ l.all p = true) :
    ∃ c rest, l.dropWhile p = c :: rest ∧ p c = false := by
  cases hd : l.dropWhile p with
  | nil => exact absurd (List.all_eq_true.mpr (List.dropWhile_eq_nil_iff.mp hd)) h
  | cons c rest => exact ⟨c, rest, rfl, dropWhile_eq_cons hd⟩

theorem dropWhile_append_of_eq_cons {α : Type} {p : α → Bool} {l rest : List α} {c : α}
    (h : l.dropWhile p = c :: rest) (l' : List α) : (l ++ l').dropWhile p = c :: rest ++ l' := by
  rw [List.dropWhile_append, h]
  rfl

theorem location_eq (t : Target) : ∃ e, t.location =
    t.host.filter isKeptUrlByte ++ t.path.filter isKeptUrlByte ++ e ∧
      ∀ c ∈ e.head?, isUrlPathChar c = false := by
  refine ⟨(if t.query = [] then [] else '?' :: t.query).filter isKeptUrlByte, ?_, ?_⟩
  · unfold Target.location
    rw [List.filter_append, List.filter_append]
  · split_ifs
    · simp
    · intro c hc
      have hq : '?' = c := by simpa [isKeptUrlByte] using hc
      rw [← hq]
      decide

/-- What the URL's path says about the host when it is the path of the scope. -/
theorem hostKeeps_of_eq {h path e : Path} (hpath : path.all isUrlPathChar = true)
    (heq : ((h ++ path ++ e).dropWhile isNetlocChar).takeWhile isUrlPathChar = path) :
    h.all isNetlocChar = true ∨ ∃ a c rest, h = a ++ path ++ c :: rest ∧
      a.all isNetlocChar = true ∧ isUrlPathChar c = false := by
  by_cases hall : h.all isNetlocChar = true
  · exact .inl hall
  refine .inr ?_
  obtain ⟨d, tail, hd, _⟩ := exists_dropWhile_eq_cons hall
  rw [List.append_assoc, dropWhile_append_of_eq_cons hd] at heq
  by_cases hup : (d :: tail).all isUrlPathChar = true
  · -- The host's own path would come first and make the whole too long.
    rw [List.takeWhile_append_of_pos (List.all_eq_true.mp hup),
      List.takeWhile_append_of_pos (List.all_eq_true.mp hpath)] at heq
    have hlen := congrArg List.length heq
    simp only [List.length_append, List.length_cons] at hlen
    omega
  · obtain ⟨c, rest, hc, hc'⟩ := exists_dropWhile_eq_cons hup
    have hshort : (d :: tail).takeWhile isUrlPathChar = path := by
      rw [List.takeWhile_append, if_neg] at heq
      · exact heq
      · intro hlen
        have hsplit := List.takeWhile_append_dropWhile (p := isUrlPathChar) (l := d :: tail)
        have hlen' := congrArg List.length hsplit
        rw [hc, List.length_append, List.length_cons] at hlen'
        omega
    refine ⟨h.takeWhile isNetlocChar, c, rest, ?_, List.all_takeWhile, hc'⟩
    rw [List.append_assoc, ← hshort, ← hc, List.takeWhile_append_dropWhile, ← hd,
      List.takeWhile_append_dropWhile]

/-- A plain path comes out of a URL with such a host as it went in. -/
theorem takeWhile_location {h path e : Path} (hpath : path.all isUrlPathChar = true)
    (habs : ∀ c ∈ path.head?, c = '/') (he : ∀ c ∈ e.head?, isUrlPathChar c = false)
    (hh : h.all isNetlocChar = true ∨ ∃ a c rest, h = a ++ path ++ c :: rest ∧
      a.all isNetlocChar = true ∧ isUrlPathChar c = false) :
    ((h ++ path ++ e).dropWhile isNetlocChar).takeWhile isUrlPathChar = path := by
  have hstop : ∀ tail : Path, (∀ c ∈ tail.head?, isUrlPathChar c = false) →
      ((path ++ tail).dropWhile isNetlocChar).takeWhile isUrlPathChar = path := by
    intro tail htail
    have hdrop : (path ++ tail).dropWhile isNetlocChar = path ++ tail := by
      cases path with
      | nil =>
        cases tail with
        | nil => rfl
        | cons c tail =>
          have hc := not_netloc_of_not_urlPath (htail c rfl)
          exact List.dropWhile_cons_of_neg (by simp [hc])
      | cons c path =>
        rw [habs c rfl]
        exact List.dropWhile_cons_of_neg (by decide)
    rw [hdrop, List.takeWhile_append_of_pos (List.all_eq_true.mp hpath)]
    cases tail with
    | nil => simp
    | cons c tail =>
      rw [List.takeWhile_cons_of_neg (by simp [htail c rfl]), List.append_nil]
  rcases hh with hall | ⟨a, c, rest, rfl, ha, hc⟩
  · rw [List.append_assoc, List.dropWhile_append_of_pos (List.all_eq_true.mp hall)]
    exact hstop e he
  · have hassoc : a ++ path ++ c :: rest ++ path ++ e =
        a ++ (path ++ (c :: rest ++ path ++ e)) := by
      simp
    rw [hassoc, List.dropWhile_append_of_pos (List.all_eq_true.mp ha)]
    refine hstop _ fun d hd => ?_
    obtain rfl : c = d := by simpa using hd
    exact hc

/-- The path of the URL is the path of the scope exactly for a network location that `urlsplit`
takes, a plain path, and a host that keeps it. -/
theorem urlPath_eq_ok_iff :
    t.urlPath checks = .ok t.path ↔
      checks.admits t.netloc = true ∧ PlainPath t.path ∧ HostKeeps t.host t.path := by
  rw [urlPath_eq]
  obtain ⟨e, hloc, he⟩ := location_eq t
  unfold HostKeeps
  rw [← all_filter_netloc]
  constructor
  · intro h
    split_ifs at h with hadmits
    have heq := Except.ok.inj h
    have hplain : t.path.all (fun c => isUrlPathChar c && isKeptUrlByte c) = true := by
      rw [List.all_eq_true]
      intro c hc
      rw [← heq] at hc
      have hup := List.mem_takeWhile_imp hc
      have hmem := (List.dropWhile_sublist _).subset ((List.takeWhile_sublist _).subset hc)
      have hkept := (List.mem_filter.mp hmem).2
      rw [hup, hkept]
      rfl
    have hup : t.path.all isUrlPathChar = true := by
      rw [List.all_eq_true] at hplain ⊢
      exact fun c hc => (Bool.and_eq_true_iff.mp (hplain c hc)).1
    have hkept : t.path.filter isKeptUrlByte = t.path := by
      rw [List.all_eq_true] at hplain
      exact List.filter_eq_self.mpr fun c hc => (Bool.and_eq_true_iff.mp (hplain c hc)).2
    refine ⟨hadmits, ⟨hplain, ?_⟩, ?_⟩
    · intro c hc
      rw [← heq] at hc
      cases hd : t.location.dropWhile isNetlocChar with
      | nil =>
        rw [hd] at hc
        exact absurd hc (by simp)
      | cons d tail =>
        rw [hd, List.takeWhile_cons] at hc
        split_ifs at hc with hdu
        · obtain rfl : d = c := by simpa using hc
          exact eq_slash_of_not_netloc (dropWhile_eq_cons hd) hdu
        · exact absurd hc (by simp)
    · rw [hloc, hkept] at heq
      exact hostKeeps_of_eq hup heq
  · rintro ⟨hadmits, ⟨hplain, habs⟩, hhost⟩
    rw [List.all_eq_true] at hplain
    have hup : t.path.all isUrlPathChar = true :=
      List.all_eq_true.mpr fun c hc => (Bool.and_eq_true_iff.mp (hplain c hc)).1
    have hkept : t.path.filter isKeptUrlByte = t.path :=
      List.filter_eq_self.mpr fun c hc => (Bool.and_eq_true_iff.mp (hplain c hc)).2
    rw [if_pos hadmits, hloc, hkept, takeWhile_location hup habs he hhost]

end TaiSkeleton.AccessControl
