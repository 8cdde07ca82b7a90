import Mathlib.Data.List.Basic
import Mathlib.Data.Nat.Basic

/-!
# The redactor of the log records

The scanners that mask the token of a connection's meta field, and the values of every `headers` and
`env` object, in a text. A text is read from the front: each scanner returns what it has passed and
what is left.
-/

namespace TaiSkeleton.Connectors

abbrev Text := List Char

/-- `_REDACTION` -/
def redaction : Text := "**********".toList

/-- `\s` -/
def isSpace (c : Char) : Bool :=
  (9 ≤ c.toNat && c.toNat ≤ 13) || (28 ≤ c.toNat && c.toNat ≤ 32) || c.toNat == 0x85 ||
    c.toNat == 0xa0 || c.toNat == 0x1680 || (0x2000 ≤ c.toNat && c.toNat ≤ 0x200a) ||
    c.toNat == 0x2028 || c.toNat == 0x2029 || c.toNat == 0x202f || c.toNat == 0x205f ||
    c.toNat == 0x3000

def isQuote (c : Char) : Bool := c == '"' || c == '\''

/-- What is left of a text after a part of it that it starts with. -/
def stripPrefix? : Text → Text → Option Text
  | [], text => some text
  | c :: part, d :: text => if c = d then stripPrefix? part text else none
  | _ :: _, [] => none

/-- `part in text` -/
def contains (part text : Text) : Bool := text.tails.any part.isPrefixOf

/-! ## Scanners -/

/-- `_read_string`, after the opening quote. -/
def readString (quote : Char) : Text → Text × Text
  | [] => ([], [])
  | c :: text =>
    if c = '\\' then
      match text with
      | [] => ([c], [])
      | escaped :: text =>
        (c :: escaped :: (readString quote text).1, (readString quote text).2)
    else if c = quote then ([c], text)
    else (c :: (readString quote text).1, (readString quote text).2)

theorem readString_append (quote : Char) (text : Text) :
    (readString quote text).1 ++ (readString quote text).2 = text := by
  fun_induction readString quote text with
  | case1 => rfl
  | case2 => rfl
  | case3 escaped text ih =>
    show _ :: _ :: (_ ++ _) = _
    rw [ih]
  | case4 => rfl
  | case5 c text _ _ ih =>
    show _ :: (_ ++ _) = _
    rw [ih]

theorem readString_length (quote : Char) (text : Text) :
    (readString quote text).2.length ≤ text.length := by
  have h := congrArg List.length (readString_append quote text)
  rw [List.length_append] at h
  omega

/-- The text up to the bracket that brings the depth to zero, and the text from there on: the loop
of `_find_object_end`, and with all the kinds of brackets the one of `_skip_value`. -/
def scanBrackets (opening closing : Text) (depth : ℕ) : Text → Text × Text
  | [] => ([], [])
  | c :: text =>
    if isQuote c then
      have := readString_length c text
      let rest := scanBrackets opening closing depth (readString c text).2
      (c :: (readString c text).1 ++ rest.1, rest.2)
    else if c ∈ opening then
      let rest := scanBrackets opening closing (depth + 1) text
      (c :: rest.1, rest.2)
    else if c ∈ closing then
      if depth ≤ 1 then ([], c :: text)
      else
        let rest := scanBrackets opening closing (depth - 1) text
        (c :: rest.1, rest.2)
    else
      let rest := scanBrackets opening closing depth text
      (c :: rest.1, rest.2)
termination_by text => text.length

/-- `_find_object_end`, after the opening brace. -/
def findObjectEnd (text : Text) : Text × Text := scanBrackets ['{'] ['}'] 1 text

/-- `_skip_value`: what is left after the value. -/
def skipValue : Text → Text
  | [] => []
  | c :: text =>
    if isQuote c then (readString c text).2
    else if c ∈ ['[', '{', '('] then
      ((scanBrackets ['[', '{', '('] [']', '}', ')'] 1 text).2).drop 1
    else (c :: text).dropWhile fun d => d ≠ ',' && d ≠ '}'

theorem scanBrackets_length (opening closing : Text) (depth : ℕ) (text : Text) :
    (scanBrackets opening closing depth text).2.length ≤ text.length := by
  fun_induction scanBrackets opening closing depth text with
  | case1 => exact Nat.le_refl _
  | case2 depth c text _ hread rest ih =>
    have : rest.2.length ≤ (readString c text).2.length := ih
    show rest.2.length ≤ text.length + 1
    omega
  | case3 depth c text _ _ rest ih => exact Nat.le_succ_of_le ih
  | case4 => exact Nat.le_refl _
  | case5 depth c text _ _ _ _ rest ih => exact Nat.le_succ_of_le ih
  | case6 depth c text _ _ _ rest ih => exact Nat.le_succ_of_le ih

/-- A value is not empty, unless it starts with a closing brace or a comma. -/
theorem skipValue_length {c : Char} (hcomma : c ≠ ',') (hbrace : c ≠ '}') (text : Text) :
    (skipValue (c :: text)).length ≤ text.length := by
  simp only [skipValue]
  split_ifs
  · exact readString_length c text
  · have := scanBrackets_length ['[', '{', '('] [']', '}', ')'] 1 text
    rw [List.length_drop]
    omega
  · rw [List.dropWhile_cons_of_pos (by simp [hcomma, hbrace])]
    exact (List.dropWhile_suffix _).length_le

theorem skipValue_le (text : Text) : (skipValue text).length ≤ text.length := by
  cases text with
  | nil => exact Nat.le_refl _
  | cons c text =>
    by_cases h : c = ',' ∨ c = '}'
    · obtain rfl | rfl := h
      · exact (List.dropWhile_suffix _).length_le
      · exact (List.dropWhile_suffix _).length_le
    · obtain ⟨hcomma, hbrace⟩ := not_or.mp h
      exact Nat.le_succ_of_le (skipValue_length hcomma hbrace text)

/-! ## Masks -/

/-- A mask in place of a value. -/
def maskedValue : Text := '"' :: redaction ++ ['"']

def isBlank (c : Char) : Bool := c == ' ' || c == '\t'

/-- A key of an object, after its opening quote, with a mask in place of its value; what is left
after the value. -/
def maskMember (quote : Char) (text : Text) : Text × Text :=
  let key := readString quote text
  let head := quote :: key.1 ++ key.2.takeWhile isBlank
  match key.2.dropWhile isBlank with
  | ':' :: value =>
    (head ++ ':' :: value.takeWhile isBlank ++ maskedValue, skipValue (value.dropWhile isBlank))
  | rest => (head, rest)

theorem maskMember_length (quote : Char) (text : Text) :
    (maskMember quote text).2.length ≤ text.length := by
  have hkey := readString_length quote text
  have hgap := (List.dropWhile_suffix isBlank (l := (readString quote text).2)).length_le
  unfold maskMember
  dsimp only
  split
  · next value heq =>
    have hvalue := (List.dropWhile_suffix isBlank (l := value)).length_le
    have hskip := skipValue_le (value.dropWhile isBlank)
    rw [heq, List.length_cons] at hgap
    show (skipValue (value.dropWhile isBlank)).length ≤ _
    omega
  · exact Nat.le_trans hgap hkey

/-- `_mask_object_body`. A closing brace where a key is expected is not passed, so that the loop
does not end. -/
def maskObjectBody : Text → Option Text
  | [] => some []
  | c :: text =>
    if c ∈ [' ', '\t', '\r', '\n'] ∨ c = ',' then (maskObjectBody text).map (c :: ·)
    else if isQuote c then
      have := maskMember_length c text
      (maskObjectBody (maskMember c text).2).map ((maskMember c text).1 ++ ·)
    else if c = '}' then none
    else
      (maskObjectBody (skipValue (c :: text))).map (maskedValue ++ ·)
termination_by text => text.length
decreasing_by
  · simp
  · simp only [List.length_cons]
    omega
  · next hcomma _ hbrace =>
    exact Nat.lt_succ_of_le (skipValue_length (not_or.mp hcomma).2 hbrace text)

/-- `_HEADERS_ENV_START_RE` at the front of a text: what is left after its brace. -/
def matchStart : Text → Option Text
  | [] => none
  | c :: text =>
    if isQuote c then
      match (stripPrefix? "headers".toList text).or (stripPrefix? "env".toList text) with
      | some (d :: rest) =>
        if isQuote d then
          match rest.dropWhile isSpace with
          | ':' :: rest =>
            match rest.dropWhile isSpace with
            | '{' :: rest => some rest
            | _ => none
          | _ => none
        else none
      | _ => none
    else none

/-- The search for `_HEADERS_ENV_START_RE`: the text up to its brace, and what is left. -/
def searchStart : Text → Option (Text × Text)
  | [] => none
  | c :: text =>
    match matchStart (c :: text) with
    | some rest => some ((c :: text).take ((c :: text).length - rest.length), rest)
    | none => (searchStart text).map fun found => (c :: found.1, found.2)

theorem stripPrefix?_eq_some {part text rest : Text} :
    stripPrefix? part text = some rest ↔ text = part ++ rest := by
  induction part generalizing text with
  | nil => simp [stripPrefix?]
  | cons c part ih =>
    cases text with
    | nil => simp [stripPrefix?]
    | cons d text =>
      simp only [stripPrefix?, List.cons_append, List.cons.injEq]
      split_ifs with h
      · rw [ih]
        simp [h]
      · simp [Ne.symm h]

theorem matchStart_length {text rest : Text} (h : matchStart text = some rest) :
    rest.length < text.length := by
  cases text with
  | nil => cases h
  | cons c text =>
    simp only [matchStart] at h
    split_ifs at h
    split at h
    · next d named hname =>
      have hnamed : named.length < text.length := by
        obtain hname | ⟨-, hname⟩ := Option.or_eq_some_iff.mp hname
        · rw [stripPrefix?_eq_some.mp hname]
          simp only [List.length_append, List.length_cons]
          omega
        · rw [stripPrefix?_eq_some.mp hname]
          simp only [List.length_append, List.length_cons]
          omega
      split_ifs at h
      split at h
      · next value hcolon =>
        have hlt := (List.dropWhile_suffix isSpace (l := named)).length_le
        rw [hcolon] at hlt
        split at h
        · next object hbrace =>
          have hlt' := (List.dropWhile_suffix isSpace (l := value)).length_le
          rw [hbrace] at hlt'
          obtain rfl := Option.some.inj h
          simp only [List.length_cons] at *
          omega
        · cases h
      · cases h
    · cases h

theorem searchStart_length {text before after : Text}
    (h : searchStart text = some (before, after)) : after.length < text.length := by
  induction text generalizing before with
  | nil => cases h
  | cons c text ih =>
    simp only [searchStart] at h
    split at h
    · next rest hmatch =>
      cases h
      exact matchStart_length hmatch
    · obtain ⟨⟨before', after'⟩, hfound, heq⟩ := Option.map_eq_some_iff.mp h
      cases heq
      exact Nat.lt_succ_of_lt (ih hfound)

/-- `_mask_headers_env` -/
def maskHeadersEnv (text : Text) : Option Text :=
  match h : searchStart text with
  | none => some text
  | some (before, after) =>
    have := searchStart_length h
    have := scanBrackets_length ['{'] ['}'] 1 after
    (maskObjectBody (findObjectEnd after).1).bind fun masked =>
      (maskHeadersEnv ((findObjectEnd after).2.drop 1)).map
        (before ++ masked ++ (findObjectEnd after).2.take 1 ++ ·)
termination_by text.length
decreasing_by
  rw [List.length_drop]
  unfold findObjectEnd
  omega

/-! ## The token -/

/-- The pattern of `_build_redactor_regex` at the front of a text, from its key on: the value, and
what is left after its closing quote. -/
def matchMetaKey (metaKey text : Text) : Option (Text × Text) :=
  match stripPrefix? metaKey text with
  | none => none
  | some rest =>
    let unquoted := match rest with
      | c :: inner => if isQuote c then inner else rest
      | [] => []
    match unquoted.dropWhile isSpace with
    | ':' :: rest =>
      match rest.dropWhile isSpace with
      | quote :: rest =>
        match rest.dropWhile fun c => !isQuote c with
        | closing :: left =>
          if isQuote quote ∧ closing = quote then some (rest.takeWhile fun c => !isQuote c, left)
          else none
        | [] => none
      | [] => none
    | _ => none

/-- The pattern of `_build_redactor_regex`, whose key may follow a quote. -/
def matchMeta (metaKey : Text) : Text → Option (Text × Text)
  | [] => matchMetaKey metaKey []
  | c :: text =>
    (if isQuote c then matchMetaKey metaKey text else none).or (matchMetaKey metaKey (c :: text))

/-- `str.replace` of a part that is not empty. -/
def replaceAll (part new : Text) : Text → Text
  | [] => []
  | c :: text =>
    if part.isPrefixOf (c :: text) then new ++ replaceAll part new (text.drop (part.length - 1))
    else c :: replaceAll part new text
termination_by text => text.length

/-- `_redact_meta_match` -/
def redactMetaMatch (matched value : Text) : Text :=
  if value = [] then matched else replaceAll value redaction matched

theorem matchMetaKey_length {metaKey text : Text} {found : Text × Text}
    (h : matchMetaKey metaKey text = some found) : found.2.length < text.length := by
  simp only [matchMetaKey] at h
  split at h
  · cases h
  · next rest hkey =>
    have hrest : rest.length ≤ text.length := by
      rw [stripPrefix?_eq_some.mp hkey, List.length_append]
      omega
    split at h
    · next value hcolon =>
      have hvalue : value.length < rest.length := by
        have hlt := (List.dropWhile_suffix isSpace (l := match rest with
          | c :: inner => if isQuote c then inner else rest
          | [] => [])).length_le
        rw [hcolon] at hlt
        cases rest with
        | nil => simp at hlt
        | cons c inner =>
          dsimp only at hlt
          split_ifs at hlt <;> simp only [List.length_cons] at * <;> omega
      split at h
      · next quote quoted hquote =>
        have hlt := (List.dropWhile_suffix isSpace (l := value)).length_le
        rw [hquote] at hlt
        split at h
        · next closing left hclosing =>
          have hlt' := (List.dropWhile_suffix (fun c => !isQuote c) (l := quoted)).length_le
          rw [hclosing] at hlt'
          split_ifs at h
          obtain rfl := Option.some.inj h
          simp only [List.length_cons] at *
          omega
        · cases h
      · cases h
    · cases h

theorem matchMeta_length {metaKey text : Text} {found : Text × Text}
    (h : matchMeta metaKey text = some found) : found.2.length < text.length := by
  cases text with
  | nil => exact matchMetaKey_length h
  | cons c text =>
    obtain h | ⟨-, h⟩ := Option.or_eq_some_iff.mp h
    · split_ifs at h
      exact Nat.lt_succ_of_lt (matchMetaKey_length h)
    · exact matchMetaKey_length h

/-- `pattern.sub(_redact_meta_match, text)` -/
def subMeta (metaKey text : Text) : Text :=
  match h : matchMeta metaKey text with
  | some (value, rest) =>
    have := matchMeta_length h
    redactMetaMatch (text.take (text.length - rest.length)) value ++ subMeta metaKey rest
  | none =>
    match text with
    | [] => []
    | c :: text => c :: subMeta metaKey text
termination_by text.length

/-! ## Texts -/

/-- `_HEADERS_ENV_MARKERS` -/
def headersEnvMarkers : List Text :=
  ["\"headers\"".toList, "'headers'".toList, "\"env\"".toList, "'env'".toList]

/-- `_has_marker` -/
def hasMarker (text metaKey : Text) : Bool :=
  contains metaKey text || headersEnvMarkers.any (contains · text)

/-- `_redact_text` -/
def redactText (text metaKey : Text) : Option Text :=
  let text := if contains metaKey text then subMeta metaKey text else text
  if headersEnvMarkers.any (contains · text) then maskHeadersEnv text else some text

end TaiSkeleton.Connectors
