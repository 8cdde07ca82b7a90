import TaiSkeleton.Connectors.MaskedBodies

/-!
# The bodies that the scan gets through

What may stand in the body of a `headers` or `env` object, as a grammar: strings, collections whose
brackets are counted alike, and bare runs up to a comma. The scan of a body ends exactly on the
texts of the grammar; on any other it comes to a closing brace where it expects a key.
-/

namespace TaiSkeleton.Connectors

/-! ## Strings -/

/-- What follows the opening quote of a string, with the closing quote as its last character. -/
inductive Quoted (quote : Char) : Text → Prop where
  | close : Quoted quote [quote]
  | escaped (c : Char) {s : Text} (h : Quoted quote s) : Quoted quote ('\\' :: c :: s)
  | char {c : Char} {s : Text} (hescape : c ≠ '\\') (hquote : c ≠ quote) (h : Quoted quote s) :
    Quoted quote (c :: s)

/-- What follows the opening quote of a string that is not closed. -/
inductive Unquoted (quote : Char) : Text → Prop where
  | nil : Unquoted quote []
  | lone : Unquoted quote ['\\']
  | escaped (c : Char) {s : Text} (h : Unquoted quote s) : Unquoted quote ('\\' :: c :: s)
  | char {c : Char} {s : Text} (hescape : c ≠ '\\') (hquote : c ≠ quote)
    (h : Unquoted quote s) : Unquoted quote (c :: s)

variable {quote c : Char} {s t rest opening closing : Text} {depth : ℕ}

theorem isQuote_ne (h : isQuote quote = true) : quote ≠ '\\' := by
  rintro rfl
  exact absurd h (by decide)

theorem Quoted.read (hquote : isQuote quote = true) (h : Quoted quote s) (rest : Text) :
    readString quote (s ++ rest) = (s, rest) := by
  induction h with
  | close =>
    rw [List.singleton_append, readString.eq_def]
    simp only [isQuote_ne hquote, if_false, if_true]
  | escaped c _ ih =>
    rw [List.cons_append, List.cons_append, readString.eq_def]
    simp only [if_true, ih]
  | char hescape hne _ ih =>
    rw [List.cons_append, readString.eq_def]
    simp only [hescape, hne, if_false, ih]

theorem Unquoted.read (h : Unquoted quote s) : readString quote s = (s, []) := by
  induction h with
  | nil => rfl
  | lone => rfl
  | escaped c _ ih =>
    rw [readString.eq_def]
    simp only [if_true, ih]
  | char hescape hne _ ih =>
    rw [readString.eq_def]
    simp only [hescape, hne, if_false, ih]

/-- A text is closed at some place, or not at all. -/
theorem quoted_or_unquoted (quote : Char) (t : Text) :
    (∃ s rest, t = s ++ rest ∧ Quoted quote s) ∨ Unquoted quote t := by
  fun_induction readString quote t with
  | case1 => exact .inr .nil
  | case2 => exact .inr .lone
  | case3 c t ih =>
    obtain ⟨s, rest, rfl, h⟩ | h := ih
    · exact .inl ⟨_, rest, rfl, h.escaped c⟩
    · exact .inr (h.escaped c)
  | case4 t _ => exact .inl ⟨[quote], t, rfl, .close⟩
  | case5 c t hescape hne ih =>
    obtain ⟨s, rest, rfl, h⟩ | h := ih
    · exact .inl ⟨_, rest, rfl, h.char hescape hne⟩
    · exact .inr (h.char hescape hne)

/-! ## Brackets -/

/-- A text that closes so many open brackets, the last of them with its last character. -/
inductive Closes (opening closing : Text) : ℕ → Text → Prop where
  | last {c : Char} (hquote : isQuote c = false) (hopening : c ∉ opening) (hc : c ∈ closing) :
    Closes opening closing 1 [c]
  | string {depth : ℕ} {quote : Char} {s t : Text} (hquote : isQuote quote = true)
    (hs : Quoted quote s) (h : Closes opening closing depth t) :
    Closes opening closing depth (quote :: (s ++ t))
  | opens {depth : ℕ} {c : Char} {t : Text} (hquote : isQuote c = false) (hc : c ∈ opening)
    (h : Closes opening closing (depth + 1) t) : Closes opening closing depth (c :: t)
  | closes {depth : ℕ} {c : Char} {t : Text} (hquote : isQuote c = false)
    (hopening : c ∉ opening) (hc : c ∈ closing) (h : Closes opening closing (depth + 1) t) :
    Closes opening closing (depth + 2) (c :: t)
  | other {depth : ℕ} {c : Char} {t : Text} (hquote : isQuote c = false) (hopening : c ∉ opening)
    (hclosing : c ∉ closing) (h : Closes opening closing depth t) :
    Closes opening closing depth (c :: t)

/-- A text that leaves one of so many open brackets open. -/
inductive LeavesOpen (opening closing : Text) : ℕ → Text → Prop where
  | nil {depth : ℕ} : LeavesOpen opening closing depth []
  | unquoted {depth : ℕ} {quote : Char} {s : Text} (hquote : isQuote quote = true)
    (hs : Unquoted quote s) : LeavesOpen opening closing depth (quote :: s)
  | string {depth : ℕ} {quote : Char} {s t : Text} (hquote : isQuote quote = true)
    (hs : Quoted quote s) (h : LeavesOpen opening closing depth t) :
    LeavesOpen opening closing depth (quote :: (s ++ t))
  | opens {depth : ℕ} {c : Char} {t : Text} (hquote : isQuote c = false) (hc : c ∈ opening)
    (h : LeavesOpen opening closing (depth + 1) t) : LeavesOpen opening closing depth (c :: t)
  | closes {depth : ℕ} {c : Char} {t : Text} (hquote : isQuote c = false)
    (hopening : c ∉ opening) (hc : c ∈ closing) (h : LeavesOpen opening closing (depth + 1) t) :
    LeavesOpen opening closing (depth + 2) (c :: t)
  | other {depth : ℕ} {c : Char} {t : Text} (hquote : isQuote c = false) (hopening : c ∉ opening)
    (hclosing : c ∉ closing) (h : LeavesOpen opening closing depth t) :
    LeavesOpen opening closing depth (c :: t)

theorem scanBrackets_string (hquote : isQuote quote = true) :
    scanBrackets opening closing depth (quote :: t) =
      (quote :: (readString quote t).1 ++
          (scanBrackets opening closing depth (readString quote t).2).1,
        (scanBrackets opening closing depth (readString quote t).2).2) := by
  rw [scanBrackets]
  simp only [hquote, if_true]

theorem scanBrackets_other (hquote : isQuote c = false) (hopening : c ∉ opening)
    (hclosing : c ∉ closing) :
    scanBrackets opening closing depth (c :: t) =
      (c :: (scanBrackets opening closing depth t).1,
        (scanBrackets opening closing depth t).2) := by
  rw [scanBrackets]
  simp only [hquote, hopening, hclosing, Bool.false_eq_true, if_false]

/-- The scan stops before the last character of a text that closes the brackets. -/
theorem Closes.scan (h : Closes opening closing depth s) (rest : Text) :
    ∃ body, ∃ c ∈ closing, s = body ++ [c] ∧
      scanBrackets opening closing depth (s ++ rest) = (body, c :: rest) := by
  induction h with
  | @last c hquote hopening hc =>
    exact ⟨[], c, hc, rfl, scanBrackets_end hquote hopening hc rest⟩
  | @string depth quote s t hquote hs _ ih =>
    obtain ⟨body, c, hc, rfl, hscan⟩ := ih
    refine ⟨quote :: (s ++ body), c, hc, by simp, ?_⟩
    rw [List.cons_append, List.append_assoc, scanBrackets_string hquote, hs.read hquote, hscan]
    rfl
  | @opens depth c t hquote hc _ ih =>
    obtain ⟨body, last, hlast, rfl, hscan⟩ := ih
    exact ⟨c :: body, last, hlast, rfl,
      by rw [List.cons_append, scanBrackets_open hquote hc, hscan]⟩
  | @closes depth c t hquote hopening hc _ ih =>
    obtain ⟨body, last, hlast, rfl, hscan⟩ := ih
    exact ⟨c :: body, last, hlast, rfl,
      by rw [List.cons_append, scanBrackets_close hquote hopening hc, hscan]⟩
  | @other depth c t hquote hopening hclosing _ ih =>
    obtain ⟨body, last, hlast, rfl, hscan⟩ := ih
    exact ⟨c :: body, last, hlast, rfl,
      by rw [List.cons_append, scanBrackets_other hquote hopening hclosing, hscan]⟩

theorem LeavesOpen.scan (h : LeavesOpen opening closing depth s) :
    scanBrackets opening closing depth s = (s, []) := by
  induction h with
  | nil => rw [scanBrackets]
  | unquoted hquote hs =>
    rw [scanBrackets_string hquote, hs.read, scanBrackets, List.append_nil]
  | string hquote hs _ ih =>
    rw [scanBrackets_string hquote, hs.read hquote, ih]
    rfl
  | opens hquote hc _ ih => rw [scanBrackets_open hquote hc, ih]
  | closes hquote hopening hc _ ih => rw [scanBrackets_close hquote hopening hc, ih]
  | other hquote hopening hclosing _ ih => rw [scanBrackets_other hquote hopening hclosing, ih]

/-- A text closes the brackets at some place, or not at all. -/
theorem closes_or_leavesOpen (opening closing : Text) (depth : ℕ) (t : Text) (h : 1 ≤ depth) :
    (∃ s rest, t = s ++ rest ∧ Closes opening closing depth s) ∨
      LeavesOpen opening closing depth t := by
  fun_induction scanBrackets opening closing depth t with
  | case1 => exact .inr .nil
  | case2 depth quote t hquote _ rest ih =>
    obtain ⟨s, left, rfl, hs⟩ | hs := quoted_or_unquoted quote t
    · rw [hs.read hquote] at ih
      obtain ⟨u, left', rfl, hu⟩ | hu := ih h
      · exact .inl ⟨quote :: (s ++ u), left', by simp, hu.string hquote hs⟩
      · exact .inr (hu.string hquote hs)
    · exact .inr (.unquoted hquote hs)
  | case3 depth c t hquote hc rest ih =>
    have hquote := (Bool.not_eq_true _).mp hquote
    obtain ⟨s, left, rfl, hs⟩ | hs := ih (Nat.le_succ_of_le h)
    · exact .inl ⟨c :: s, left, rfl, hs.opens hquote hc⟩
    · exact .inr (hs.opens hquote hc)
  | case4 depth c t hquote hopening hc hdepth =>
    have hquote := (Bool.not_eq_true _).mp hquote
    obtain rfl : depth = 1 := by omega
    exact .inl ⟨[c], t, rfl, .last hquote hopening hc⟩
  | case5 depth c t hquote hopening hc hdepth rest ih =>
    have hquote := (Bool.not_eq_true _).mp hquote
    obtain ⟨depth, rfl⟩ : ∃ n, depth = n + 2 := ⟨depth - 2, by omega⟩
    obtain ⟨s, left, rfl, hs⟩ | hs := ih (Nat.le_add_left 1 depth)
    · exact .inl ⟨c :: s, left, rfl, hs.closes hquote hopening hc⟩
    · exact .inr (hs.closes hquote hopening hc)
  | case6 depth c t hquote hopening hclosing rest ih =>
    have hquote := (Bool.not_eq_true _).mp hquote
    obtain ⟨s, left, rfl, hs⟩ | hs := ih h
    · exact .inl ⟨c :: s, left, rfl, hs.other hquote hopening hclosing⟩
    · exact .inr (hs.other hquote hopening hclosing)

/-! ## Bodies -/

/-- The brackets that `_skip_value` counts, all alike. -/
abbrev ClosesAll : Text → Prop := Closes ['[', '{', '('] [']', '}', ')'] 1

abbrev LeavesAllOpen : Text → Prop := LeavesOpen ['[', '{', '('] [']', '}', ')'] 1

/-- Where the scan of a body stands. -/
inductive Place where
  | key
  | value

/-- What may stand in a body from a key on, or from a value on. No closing brace may stand where a
key is expected, nor end a bare run. -/
inductive Fits : Place → Text → Prop where
  | nil : Fits .key []
  | gap {c : Char} {t : Text} (hc : Dialect.isGap c = true) (h : Fits .key t) : Fits .key (c :: t)
  | unquoted {place : Place} {quote : Char} {s : Text} (hquote : isQuote quote = true)
    (hs : Unquoted quote s) : Fits place (quote :: s)
  | lone {quote : Char} {s t : Text} (hquote : isQuote quote = true) (hs : Quoted quote s)
    (hcolon : (t.dropWhile isBlank).head? ≠ some ':') (h : Fits .key t) :
    Fits .key (quote :: (s ++ t))
  | member {quote : Char} {s blank t : Text} (hquote : isQuote quote = true) (hs : Quoted quote s)
    (hblank : ∀ c ∈ blank, isBlank c = true) (h : Fits .value (t.dropWhile isBlank)) :
    Fits .key (quote :: (s ++ (blank ++ ':' :: t)))
  | unkeyed {c : Char} {t : Text} (hgap : Dialect.isGap c = false) (hquote : isQuote c = false)
    (h : Fits .value (c :: t)) : Fits .key (c :: t)
  | string {quote : Char} {s t : Text} (hquote : isQuote quote = true) (hs : Quoted quote s)
    (h : Fits .key t) : Fits .value (quote :: (s ++ t))
  | collection {c : Char} {s t : Text} (hc : c ∈ ['[', '{', '(']) (hs : ClosesAll s)
    (h : Fits .key t) : Fits .value (c :: (s ++ t))
  | leftOpen {c : Char} {s : Text} (hc : c ∈ ['[', '{', '(']) (hs : LeavesAllOpen s) :
    Fits .value (c :: s)
  | bare {s t : Text} (hs : ∀ c ∈ s, c ≠ ',' ∧ c ≠ '}')
    (hhead : ∀ c ∈ s.head?, isQuote c = false ∧ c ∉ ['[', '{', '(']) (h : Fits .key t) :
    Fits .value (s ++ ',' :: t)
  | bareEnd {s : Text} (hs : ∀ c ∈ s, c ≠ ',' ∧ c ≠ '}')
    (hhead : ∀ c ∈ s.head?, isQuote c = false ∧ c ∉ ['[', '{', '(']) : Fits .value s

/-- An iteration of the loop of `_mask_object_body`: what it appends, and what it leaves. -/
def bodyIteration : Text → Option (Text × Text)
  | [] => none
  | c :: text =>
    some (if c ∈ [' ', '\t', '\r', '\n'] ∨ c = ',' then ([c], text)
      else if isQuote c then maskMember c text
      else (maskedValue, skipValue (c :: text)))

theorem isGap_iff : Dialect.isGap c = true ↔ c ∈ [' ', '\t', '\r', '\n'] ∨ c = ',' := by
  simp [Dialect.isGap, or_assoc]

/-- The loop does not pass a closing brace where it expects a key. -/
theorem bodyIteration_stuck (t : Text) : bodyIteration ('}' :: t) = some (maskedValue, '}' :: t) :=
  rfl

theorem maskObjectBody_stuck (t : Text) : maskObjectBody ('}' :: t) = none := by
  rw [maskObjectBody]
  rfl

theorem maskObjectBody_iteration {passed left : Text} (hc : c ≠ '}')
    (h : bodyIteration (c :: t) = some (passed, left)) :
    maskObjectBody (c :: t) = (maskObjectBody left).map (passed ++ ·) := by
  obtain h := Option.some.inj h
  rw [maskObjectBody.eq_def]
  dsimp only
  split_ifs at h ⊢ with hgap hquote
  · cases h
    rfl
  · rw [h]
  · cases h
    rfl

theorem bodyIteration_length {passed left : Text} (hc : c ≠ '}')
    (h : bodyIteration (c :: t) = some (passed, left)) : left.length ≤ t.length := by
  obtain h := Option.some.inj h
  split_ifs at h with hgap hquote
  · cases h
    exact Nat.le_refl _
  · rw [show left = (maskMember c t).2 by rw [h]]
    exact maskMember_length c t
  · cases h
    exact skipValue_length (not_or.mp hgap).2 hc t

/-! ## The scan and the grammar -/

/-- The scan from a place ends. -/
def Masks : Place → Text → Prop
  | .key, t => (maskObjectBody t).isSome = true
  | .value, t => (maskObjectBody (skipValue t)).isSome = true

theorem masks_nil : Masks .key [] := by
  show (maskObjectBody []).isSome = true
  rw [maskObjectBody]
  rfl

theorem masks_iteration {passed left : Text} (hc : c ≠ '}')
    (h : bodyIteration (c :: t) = some (passed, left)) :
    Masks .key (c :: t) ↔ Masks .key left := by
  show (maskObjectBody (c :: t)).isSome = true ↔ (maskObjectBody left).isSome = true
  rw [maskObjectBody_iteration hc h, Option.isSome_map]

theorem ne_brace_of_quote (h : isQuote c = true) : c ≠ '}' := by
  rintro rfl
  exact absurd h (by decide)

theorem ne_brace_of_gap (h : Dialect.isGap c = true) : c ≠ '}' := by
  rintro rfl
  exact absurd h (by decide)

theorem masks_gap (hc : Dialect.isGap c = true) : Masks .key (c :: t) ↔ Masks .key t :=
  masks_iteration (ne_brace_of_gap hc) (by rw [bodyIteration, if_pos (isGap_iff.mp hc)])

theorem masks_quote (hquote : isQuote c = true) :
    Masks .key (c :: t) ↔ Masks .key (maskMember c t).2 :=
  masks_iteration (ne_brace_of_quote hquote)
    (by rw [bodyIteration, if_neg (not_gap_of_quote hquote), if_pos hquote])

theorem masks_unkeyed (hgap : Dialect.isGap c = false) (hquote : isQuote c = false)
    (hc : c ≠ '}') : Masks .key (c :: t) ↔ Masks .value (c :: t) := by
  have hfirst : bodyIteration (c :: t) = some (maskedValue, skipValue (c :: t)) := by
    rw [bodyIteration, if_neg (mt isGap_iff.mpr (by simp [hgap])), if_neg (by simp [hquote])]
  exact masks_iteration hc hfirst

theorem masks_gaps {gaps : Text} (h : ∀ c ∈ gaps, Dialect.isGap c = true) :
    Masks .key (gaps ++ t) ↔ Masks .key t := by
  show (maskObjectBody (gaps ++ t)).isSome = true ↔ (maskObjectBody t).isSome = true
  rw [maskObjectBody_gap h, Option.isSome_map]

theorem gap_of_blank (h : isBlank c = true) : Dialect.isGap c = true := by
  obtain h | h := (Bool.or_eq_true _ _).mp h
  · rw [beq_iff_eq.mp h]
    rfl
  · rw [beq_iff_eq.mp h]
    rfl

theorem masks_dropBlanks : Masks .key (t.dropWhile isBlank) ↔ Masks .key t := by
  conv_rhs => rw [← List.takeWhile_append_dropWhile (p := isBlank) (l := t)]
  exact (masks_gaps fun c hc => gap_of_blank (List.all_eq_true.mp List.all_takeWhile c hc)).symm

theorem skipValue_quote (hquote : isQuote c = true) : skipValue (c :: t) = (readString c t).2 := by
  rw [skipValue, if_pos hquote]

theorem skipValue_collection (hc : c ∈ ['[', '{', '(']) : skipValue (c :: t) =
    ((scanBrackets ['[', '{', '('] [']', '}', ')'] 1 t).2).drop 1 := by
  rw [skipValue, if_neg (by simp [(opening_bracket c hc).1]), if_pos hc]

theorem skipValue_run (hhead : ∀ c ∈ t.head?, isQuote c = false ∧ c ∉ ['[', '{', '(']) :
    skipValue t = t.dropWhile fun d => d ≠ ',' && d ≠ '}' := by
  cases t with
  | nil => rfl
  | cons c t =>
    obtain ⟨hquote, hopening⟩ := hhead c rfl
    rw [skipValue, if_neg (by simp [hquote]), if_neg hopening]

theorem ClosesAll.skip (hc : c ∈ ['[', '{', '(']) (h : ClosesAll s) (rest : Text) :
    skipValue (c :: (s ++ rest)) = rest := by
  obtain ⟨body, last, -, -, hscan⟩ := h.scan rest
  rw [skipValue_collection hc, hscan]
  rfl

theorem dropWhile_run (hs : ∀ c ∈ s, c ≠ ',' ∧ c ≠ '}') (t : Text) :
    ((s ++ t).dropWhile fun d => d ≠ ',' && d ≠ '}') =
      t.dropWhile fun d => d ≠ ',' && d ≠ '}' := by
  refine List.dropWhile_append_of_pos fun c hc => ?_
  obtain ⟨hcomma, hbrace⟩ := hs c hc
  simp [hcomma, hbrace]

/-- What is left of a member after its key. -/
theorem maskMember_of_colon {value : Text} (hs : Quoted quote s) (hquote : isQuote quote = true)
    {blank : Text} (hblank : ∀ c ∈ blank, isBlank c = true) :
    (maskMember quote (s ++ (blank ++ ':' :: value))).2 =
      skipValue (value.dropWhile isBlank) := by
  have hdrop : (blank ++ ':' :: value).dropWhile isBlank = ':' :: value := by
    rw [List.dropWhile_append_of_pos hblank]
    rfl
  unfold maskMember
  rw [hs.read hquote]
  dsimp only
  simp only [hdrop]

theorem maskMember_of_no_colon {t : Text}
    (hcolon : ((readString quote t).2.dropWhile isBlank).head? ≠ some ':') :
    (maskMember quote t).2 = (readString quote t).2.dropWhile isBlank := by
  unfold maskMember
  dsimp only
  split
  · next value heq =>
    rw [heq] at hcolon
    exact absurd rfl hcolon
  · rfl

/-- The scan gets through the texts of the grammar. -/
theorem Fits.masks {place : Place} (h : Fits place t) : Masks place t := by
  induction h with
  | nil => exact masks_nil
  | gap hc _ ih => exact (masks_gap hc).mpr ih
  | @unquoted place quote s hquote hs =>
    cases place with
    | key =>
      refine (masks_quote hquote).mpr ?_
      rw [maskMember_of_no_colon (by rw [hs.read]; simp), hs.read]
      exact masks_nil
    | value =>
      show (maskObjectBody (skipValue (quote :: s))).isSome = true
      rw [skipValue_quote hquote, hs.read]
      exact masks_nil
  | @lone quote s t hquote hs hcolon _ ih =>
    refine (masks_quote hquote).mpr ?_
    have hread := hs.read hquote t
    rw [maskMember_of_no_colon (by rw [hread]; exact hcolon), hread]
    exact masks_dropBlanks.mpr ih
  | member hquote hs hblank _ ih =>
    refine (masks_quote hquote).mpr ?_
    rw [maskMember_of_colon hs hquote hblank]
    exact ih
  | @unkeyed c t hgap hquote _ ih =>
    refine (masks_unkeyed hgap hquote ?_).mpr ih
    rintro rfl
    have hstuck : (maskObjectBody ('}' :: t)).isSome = true := ih
    rw [maskObjectBody_stuck] at hstuck
    cases hstuck
  | @string quote s t hquote hs _ ih =>
    show (maskObjectBody (skipValue (quote :: (s ++ t)))).isSome = true
    rw [skipValue_quote hquote, hs.read hquote]
    exact ih
  | @collection c s t hc hs _ ih =>
    show (maskObjectBody (skipValue (c :: (s ++ t)))).isSome = true
    rw [hs.skip hc]
    exact ih
  | @leftOpen c s hc hs =>
    show (maskObjectBody (skipValue (c :: s))).isSome = true
    rw [skipValue_collection hc, hs.scan]
    exact masks_nil
  | @bare s t hs hhead _ ih =>
    have hhead' : ∀ c ∈ (s ++ ',' :: t).head?, isQuote c = false ∧ c ∉ ['[', '{', '('] := by
      cases s with
      | nil =>
        intro c hc
        obtain rfl := Option.some.inj hc
        decide
      | cons c s => exact hhead
    show (maskObjectBody (skipValue (s ++ ',' :: t))).isSome = true
    rw [skipValue_run hhead', dropWhile_run hs]
    exact (masks_gap (c := ',') rfl).mpr ih
  | @bareEnd s hs hhead =>
    show (maskObjectBody (skipValue s)).isSome = true
    rw [skipValue_run hhead, ← List.append_nil s, dropWhile_run hs]
    exact masks_nil

/-- A bare run, up to what it ends at. -/
theorem fits_run (hhead : ∀ c ∈ t.head?, isQuote c = false ∧ c ∉ ['[', '{', '('])
    (ih : ∀ u : Text, u.length < t.length → Masks .key u → Fits .key u)
    (h : Masks .value t) : Fits .value t := by
  have hsplit := List.takeWhile_append_dropWhile (p := fun d => d ≠ ',' && d ≠ '}') (l := t)
  have hs : ∀ c ∈ t.takeWhile fun d => d ≠ ',' && d ≠ '}', c ≠ ',' ∧ c ≠ '}' := by
    intro c hc
    simpa using List.all_eq_true.mp List.all_takeWhile c hc
  have hhead' : ∀ c ∈ (t.takeWhile fun d => d ≠ ',' && d ≠ '}').head?,
      isQuote c = false ∧ c ∉ ['[', '{', '('] := by
    intro c hc
    refine hhead c ?_
    rw [← hsplit, List.head?_append, hc]
    rfl
  have hleft : Masks .key (t.dropWhile fun d => d ≠ ',' && d ≠ '}') := by
    rw [← skipValue_run hhead]
    exact h
  cases hdrop : t.dropWhile fun d => d ≠ ',' && d ≠ '}' with
  | nil =>
    rw [hdrop, List.append_nil] at hsplit
    rw [← hsplit]
    exact .bareEnd hs hhead'
  | cons d rest =>
    have hend : (d ≠ ',' && d ≠ '}') = false := by
      have := List.head?_dropWhile_not (fun d => d ≠ ',' && d ≠ '}') t
      rwa [hdrop] at this
    rw [hdrop] at hleft hsplit
    rw [← hsplit]
    by_cases hcomma : d = ','
    · subst hcomma
      refine .bare hs hhead' (ih rest ?_ ((masks_gap rfl).mp hleft))
      rw [← hsplit, List.length_append, List.length_cons]
      omega
    · obtain rfl : d = '}' := by simpa [hcomma] using hend
      have hstuck : (maskObjectBody ('}' :: rest)).isSome = true := hleft
      rw [maskObjectBody_stuck] at hstuck
      cases hstuck

/-- A value after which the scan ends. -/
theorem fits_value (ih : ∀ u : Text, u.length < t.length → Masks .key u → Fits .key u)
    (h : Masks .value t) : Fits .value t := by
  cases t with
  | nil => exact .bareEnd (fun c hc => nomatch hc) (fun c hc => nomatch hc)
  | cons c t =>
    have hlength (s rest : Text) : rest.length < (c :: (s ++ rest)).length := by
      rw [List.length_cons, List.length_append]
      omega
    by_cases hquote : isQuote c = true
    · obtain ⟨s, rest, rfl, hs⟩ | hs := quoted_or_unquoted c t
      · have hrest : (maskObjectBody (skipValue (c :: (s ++ rest)))).isSome = true := h
        rw [skipValue_quote hquote, hs.read hquote] at hrest
        exact .string hquote hs (ih rest (hlength s rest) hrest)
      · exact .unquoted hquote hs
    by_cases hc : c ∈ ['[', '{', '(']
    · obtain ⟨s, rest, rfl, hs⟩ | hs :=
        closes_or_leavesOpen ['[', '{', '('] [']', '}', ')'] 1 t (Nat.le_refl 1)
      · have hrest : (maskObjectBody (skipValue (c :: (s ++ rest)))).isSome = true := h
        rw [ClosesAll.skip hc hs] at hrest
        exact .collection hc hs (ih rest (hlength s rest) hrest)
      · exact .leftOpen hc hs
    · refine fits_run (fun d hd => ?_) ih h
      obtain rfl := Option.some.inj hd
      exact ⟨(Bool.not_eq_true _).mp hquote, hc⟩

/-- A key after which the scan ends. -/
theorem fits_key (ih : ∀ u : Text, u.length < t.length → Masks .key u → Fits .key u)
    (ihValue : ∀ u : Text, u.length ≤ t.length → Masks .value u → Fits .value u)
    (h : Masks .key t) : Fits .key t := by
  cases t with
  | nil => exact .nil
  | cons c t =>
    by_cases hgap : Dialect.isGap c = true
    · exact .gap hgap (ih t (Nat.lt_succ_self _) ((masks_gap hgap).mp h))
    by_cases hquote : isQuote c = true
    · have hleft := (masks_quote hquote).mp h
      obtain ⟨s, rest, rfl, hs⟩ | hs := quoted_or_unquoted c t
      · by_cases hcolon : (rest.dropWhile isBlank).head? = some ':'
        · obtain ⟨value, hvalue⟩ := List.head?_eq_some_iff.mp hcolon
          have hblank : ∀ c ∈ rest.takeWhile isBlank, isBlank c = true :=
            List.all_eq_true.mp List.all_takeWhile
          have hsplit := List.takeWhile_append_dropWhile (p := isBlank) (l := rest)
          rw [hvalue] at hsplit
          rw [← hsplit] at hleft ihValue ⊢
          rw [maskMember_of_colon hs hquote hblank] at hleft
          refine .member hquote hs hblank (ihValue _ ?_ hleft)
          have := (List.dropWhile_suffix isBlank (l := value)).length_le
          simp only [List.length_cons, List.length_append]
          omega
        · have hread := hs.read hquote rest
          rw [maskMember_of_no_colon (by rw [hread]; exact hcolon), hread] at hleft
          refine .lone hquote hs hcolon (ih rest ?_ (masks_dropBlanks.mp hleft))
          rw [List.length_cons, List.length_append]
          omega
      · exact .unquoted hquote hs
    · have hgap := (Bool.not_eq_true _).mp hgap
      have hquote := (Bool.not_eq_true _).mp hquote
      refine .unkeyed hgap hquote (ihValue _ (Nat.le_refl _) ((masks_unkeyed hgap hquote ?_).mp h))
      rintro rfl
      have hstuck : (maskObjectBody ('}' :: t)).isSome = true := h
      rw [maskObjectBody_stuck] at hstuck
      cases hstuck

/-- The scan of a body ends exactly on the texts of the grammar. -/
theorem masks_iff_fits : Masks .key t ↔ Fits .key t := by
  refine ⟨fun h => ?_, Fits.masks⟩
  induction hn : t.length using Nat.strong_induction_on generalizing t with
  | _ n ih =>
    have ihKey (u : Text) (hu : u.length < n) (hmasks : Masks .key u) : Fits .key u :=
      ih u.length hu hmasks rfl
    subst hn
    refine fits_key ihKey (fun u hu => fits_value fun v hv => ihKey v ?_) h
    exact Nat.lt_of_lt_of_le hv hu

end TaiSkeleton.Connectors
