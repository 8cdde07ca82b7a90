import TaiSkeleton.Authz.TokenFree.Source
import TaiSkeleton.Lib.Split

/-!
# The canonical form of a request path

Every path decision runs on one canonical string: absolute, with single slashes, no `.` or `..`
segment, no trailing slash, and none of the characters that have no safe reading. A path that is
canonical already is its own canonical form.
-/

namespace TaiSkeleton.AccessControl

open Lib

/-- A request path, decoded once. -/
abbrev Path := List Char

/-- A path that cannot be reasoned about safely. -/
inductive MalformedPathError where
  | residualEscape (path : Path)
  | forbiddenByte (path : Path)
deriving DecidableEq

/-- The text of the error. -/
def MalformedPathError.message : MalformedPathError → String
  | residualEscape path =>
    "path " ++ Authz.TokenFree.repr path ++
      " contains a residual percent-escape (a double-encoded byte)"
  | forbiddenByte path =>
    "path " ++ Authz.TokenFree.repr path ++ " contains a NUL, control, or backslash byte"

/-- `[0-9A-Fa-f]` -/
def isHexDigit (c : Char) : Bool :=
  c.isDigit || ('A' ≤ c && c ≤ 'F') || ('a' ≤ c && c ≤ 'f')

/-- A percent-escape at the start of a path. -/
def startsEscape : Path → Bool
  | c :: a :: b :: _ => c == '%' && isHexDigit a && isHexDigit b
  | _ => false

/-- `_RESIDUAL_ESCAPE.search`: a `%` and two hexadecimal digits somewhere in the path. -/
def hasResidualEscape (path : Path) : Bool := path.tails.any startsEscape

/-- A backslash, a NUL or a control character. -/
def isForbiddenByte (c : Char) : Bool := c == '\\' || c.toNat < 0x20 || c.toNat == 0x7F

/-- The segments of a path without empty and `.` ones, and with each `..` taking away the segment
before it, if there is one. `resolved` holds the segments so far, the last one first. -/
def resolveSegments : List Path → List Path → List Path
  | [], resolved => resolved.reverse
  | segment :: rest, resolved =>
    if segment = [] ∨ segment = ['.'] then resolveSegments rest resolved
    else if segment = ['.', '.'] then resolveSegments rest resolved.tail
    else resolveSegments rest (segment :: resolved)

/-- `"/" + "/".join(segments)` -/
def joinSegments (segments : List Path) : Path := '/' :: ['/'].intercalate segments

/-- `canonicalize_path`. -/
def canonicalizePath (path : Path) : Except MalformedPathError Path :=
  if hasResidualEscape path then .error (.residualEscape path)
  else if path.any isForbiddenByte then .error (.forbiddenByte path)
  else .ok (joinSegments (resolveSegments (path.splitOn '/') []))

/-- `under_prefix`: the path is the prefix itself or a segment-wise descendant of it. -/
def underPrefix (path pre : Path) : Bool := path == pre || (pre ++ ['/']).isPrefixOf path

/-! ## Well-formed paths -/

theorem startsEscape_iff {l : Path} :
    startsEscape l = true ↔
      ∃ a b, isHexDigit a = true ∧ isHexDigit b = true ∧ ['%', a, b] <+: l := by
  constructor
  · intro h
    match l, h with
    | c :: a :: b :: rest, h =>
      simp only [startsEscape, Bool.and_eq_true, beq_iff_eq] at h
      obtain ⟨⟨rfl, ha⟩, hb⟩ := h
      exact ⟨a, b, ha, hb, rest, rfl⟩
  · rintro ⟨a, b, ha, hb, rest, rfl⟩
    simp [startsEscape, ha, hb]

theorem hasResidualEscape_iff {path : Path} :
    hasResidualEscape path = true ↔
      ∃ a b, isHexDigit a = true ∧ isHexDigit b = true ∧ ['%', a, b] <:+: path := by
  simp only [hasResidualEscape, List.any_eq_true, List.mem_tails, startsEscape_iff,
    List.infix_iff_prefix_suffix]
  constructor
  · rintro ⟨l, hl, a, b, ha, hb, hpre⟩
    exact ⟨a, b, ha, hb, l, hpre, hl⟩
  · rintro ⟨a, b, ha, hb, l, hpre, hl⟩
    exact ⟨l, hl, a, b, ha, hb, hpre⟩

/-- A path with a canonical form: it has no residual escape and no forbidden character. -/
structure WellFormed (path : Path) : Prop where
  escape : hasResidualEscape path = false
  bytes : path.any isForbiddenByte = false

instance (path : Path) : Decidable (WellFormed path) :=
  decidable_of_iff (hasResidualEscape path = false ∧ path.any isForbiddenByte = false)
    ⟨fun h => ⟨h.1, h.2⟩, fun h => ⟨h.escape, h.bytes⟩⟩

/-- The canonical form of a well-formed path. -/
def canonical (path : Path) : Path := joinSegments (resolveSegments (path.splitOn '/') [])

theorem canonicalizePath_eq_ok {path p : Path} :
    canonicalizePath path = .ok p ↔ WellFormed path ∧ p = canonical path := by
  unfold canonicalizePath canonical
  split_ifs with he hb
  · simp only [false_iff, not_and]
    intro hwf
    rw [hwf.escape] at he
    exact absurd he Bool.false_ne_true
  · simp only [false_iff, not_and]
    intro hwf
    rw [hwf.bytes] at hb
    exact absurd hb Bool.false_ne_true
  · have hwf : WellFormed path := ⟨by simpa using he, by simpa using hb⟩
    simp [hwf, eq_comm]

theorem canonicalizePath_of_wellFormed {path : Path} (h : WellFormed path) :
    canonicalizePath path = .ok (canonical path) :=
  canonicalizePath_eq_ok.mpr ⟨h, rfl⟩

theorem canonicalizePath_of_not_wellFormed {path : Path} (h : ¬ WellFormed path) :
    ∃ e, canonicalizePath path = .error e := by
  cases hc : canonicalizePath path with
  | error e => exact ⟨e, rfl⟩
  | ok p => exact absurd (canonicalizePath_eq_ok.mp hc).1 h

theorem not_slash_mem_escape {a b : Char} (ha : isHexDigit a = true) (hb : isHexDigit b = true) :
    '/' ∉ ['%', a, b] := by
  have ha' : '/' ≠ a := by
    rintro rfl
    exact absurd ha (by decide)
  have hb' : '/' ≠ b := by
    rintro rfl
    exact absurd hb (by decide)
  simp [ha', hb']

/-- A path made of pieces of a well-formed one, joined by slashes, is well formed. -/
theorem WellFormed.of_segments {path : Path} (h : WellFormed path) {segments : List Path}
    (hs : ∀ s ∈ segments, s <:+: path) : WellFormed (joinSegments segments) := by
  constructor
  · rw [Bool.eq_false_iff]
    intro he
    obtain ⟨a, b, ha, hb, hinfix⟩ := hasResidualEscape_iff.mp he
    have hslash : '/' ∉ ['%', a, b] := not_slash_mem_escape ha hb
    have hinfix' : ['%', a, b] <:+: [] ++ '/' :: ['/'].intercalate segments := hinfix
    rcases infix_append_cons hinfix' hslash with hnil | hrest
    · exact absurd (List.infix_nil.mp hnil) (by simp)
    · obtain ⟨s, hmem, hin⟩ := infix_intercalate hslash (by simp) hrest
      have hpath := hasResidualEscape_iff.mpr ⟨a, b, ha, hb, hin.trans (hs s hmem)⟩
      rw [h.escape] at hpath
      exact Bool.false_ne_true hpath
  · rw [List.any_eq_false]
    intro c hc
    have hforbidden := List.any_eq_false.mp h.bytes
    rcases List.mem_cons.mp hc with rfl | hc
    · decide
    · rcases mem_intercalate hc with rfl | ⟨s, hmem, hin⟩
      · decide
      · exact hforbidden c ((hs s hmem).subset hin)

/-- A slash at the end of a path changes neither whether it is well formed nor its canonical
form. -/
theorem WellFormed.append_slash {path : Path} (h : WellFormed path) :
    WellFormed (path ++ ['/']) := by
  constructor
  · rw [Bool.eq_false_iff]
    intro he
    obtain ⟨a, b, ha, hb, hinfix⟩ := hasResidualEscape_iff.mp he
    have hslash : '/' ∉ ['%', a, b] := not_slash_mem_escape ha hb
    rcases infix_append_cons hinfix hslash with hpath | hnil
    · have hescape := hasResidualEscape_iff.mpr ⟨a, b, ha, hb, hpath⟩
      rw [h.escape] at hescape
      exact Bool.false_ne_true hescape
    · exact absurd (List.infix_nil.mp hnil) (by simp)
  · rw [List.any_append, h.bytes]
    decide

theorem resolveSegments_append_nil (segments resolved : List Path) :
    resolveSegments (segments ++ [[]]) resolved = resolveSegments segments resolved := by
  induction segments generalizing resolved with
  | nil => simp [resolveSegments]
  | cons segment segments ih =>
    simp only [List.cons_append, resolveSegments, ih]

theorem canonical_append_slash (path : Path) : canonical (path ++ ['/']) = canonical path := by
  unfold canonical
  rw [List.splitOn_append_cons_self, List.splitOn_nil, resolveSegments_append_nil]

/-! ## Canonical paths -/

/-- A segment that stays: neither empty nor a dot segment, and without a slash. -/
structure Kept (segment : Path) : Prop where
  nonempty : segment ≠ []
  dot : segment ≠ ['.']
  dots : segment ≠ ['.', '.']
  slash : '/' ∉ segment

theorem resolveSegments_kept {segments resolved : List Path}
    (hs : ∀ s ∈ segments, '/' ∉ s) (hr : ∀ s ∈ resolved, Kept s) :
    ∀ s ∈ resolveSegments segments resolved, Kept s := by
  induction segments generalizing resolved with
  | nil => simpa [resolveSegments] using hr
  | cons segment rest ih =>
    have hrest : ∀ s ∈ rest, '/' ∉ s := fun s h => hs s (List.mem_cons_of_mem _ h)
    unfold resolveSegments
    split_ifs with hskip hup
    · exact ih hrest hr
    · exact ih hrest fun s h => hr s (List.mem_of_mem_tail h)
    · refine ih hrest fun s h => ?_
      rcases List.mem_cons.mp h with rfl | h
      · exact ⟨fun he => hskip (.inl he), fun he => hskip (.inr he), hup, hs s (by simp)⟩
      · exact hr s h

theorem resolveSegments_subset {segments resolved : List Path} :
    ∀ s ∈ resolveSegments segments resolved, s ∈ segments ∨ s ∈ resolved := by
  induction segments generalizing resolved with
  | nil => intro s h; exact .inr (by simpa [resolveSegments] using h)
  | cons segment rest ih =>
    unfold resolveSegments
    intro s h
    split_ifs at h
    · exact (ih s h).imp_left fun h => List.mem_cons_of_mem _ h
    · exact (ih s h).imp (fun h => List.mem_cons_of_mem _ h) List.mem_of_mem_tail
    · rcases ih s h with h | h
      · exact .inl (List.mem_cons_of_mem _ h)
      · rcases List.mem_cons.mp h with rfl | h
        · exact .inl List.mem_cons_self
        · exact .inr h

/-- Segments that stay resolve to themselves. -/
theorem resolveSegments_of_kept {segments resolved : List Path} (hs : ∀ s ∈ segments, Kept s) :
    resolveSegments segments resolved = resolved.reverse ++ segments := by
  induction segments generalizing resolved with
  | nil => simp [resolveSegments]
  | cons segment rest ih =>
    have hk := hs segment (by simp)
    unfold resolveSegments
    rw [if_neg (by simp [hk.nonempty, hk.dot]), if_neg hk.dots,
      ih fun s h => hs s (List.mem_cons_of_mem _ h)]
    simp

theorem splitOn_joinSegments {segments : List Path} (hs : ∀ s ∈ segments, Kept s)
    (hne : segments ≠ []) : (joinSegments segments).splitOn '/' = [] :: segments := by
  have hjoin : joinSegments segments = ['/'].intercalate ([] :: segments) := by
    cases segments with
    | nil => exact absurd rfl hne
    | cons a l =>
      rw [intercalate_cons_cons]
      rfl
  rw [hjoin, List.splitOn_intercalate]
  · intro l hl
    rcases List.mem_cons.mp hl with rfl | hl
    · exact List.not_mem_nil
    · exact (hs l hl).slash
  · exact List.cons_ne_nil _ _

/-- A canonical path is its own canonical form. -/
theorem canonical_joinSegments {segments : List Path} (hs : ∀ s ∈ segments, Kept s) :
    canonical (joinSegments segments) = joinSegments segments := by
  by_cases hne : segments = []
  · subst hne
    decide
  · unfold canonical
    rw [splitOn_joinSegments hs hne]
    have hskip : resolveSegments ([] :: segments) [] = resolveSegments segments [] := by
      rw [resolveSegments, if_pos (.inl rfl)]
    rw [hskip, resolveSegments_of_kept hs]
    rfl

theorem canonicalizePath_idem {path p : Path} (h : canonicalizePath path = .ok p) :
    canonicalizePath p = .ok p := by
  obtain ⟨hwf, rfl⟩ := canonicalizePath_eq_ok.mp h
  have hkept : ∀ s ∈ resolveSegments (path.splitOn '/') [], Kept s :=
    resolveSegments_kept (fun _ => not_mem_of_mem_splitOn) (by simp)
  have hinfix : ∀ s ∈ resolveSegments (path.splitOn '/') [], s <:+: path := by
    intro s hs
    rcases resolveSegments_subset s hs with hs | hs
    · exact infix_of_mem_splitOn hs
    · exact absurd hs List.not_mem_nil
  exact canonicalizePath_eq_ok.mpr ⟨hwf.of_segments hinfix, (canonical_joinSegments hkept).symm⟩

end TaiSkeleton.AccessControl
