import TaiSkeleton.Connectors.ScannedText

/-!
# Masked bodies

What the redactor makes of the body of a mapping: the keys stay, with their separators, and each
value is a mask. A member without a quoted key is masked as a whole, up to its comma.
-/

namespace TaiSkeleton.Connectors

variable {d : Dialect} {quote : Char} {t rest : Text}

/-- A key that is rendered as a string. -/
def Dialect.quotesKey : Dialect → Key → Bool
  | json .., _ => true
  | repr _, .str _ => true
  | repr _, .scalar _ => false

def Doc.isScalar : Doc → Bool
  | .scalar _ => true
  | _ => false

/-- A mapping whose members the redactor can tell apart: an unquoted key stands before a value
without a comma or a closing brace, and the comma follows at once on what ends without a quote or a
bracket. -/
structure Orderly (d : Dialect) (members : List (Key × Doc)) : Prop where
  unquoted : ∀ member ∈ members, d.quotesKey member.1 = false →
    ∀ c ∈ member.2.render d, c ≠ ',' ∧ c ≠ '}'
  delimited : ∀ member ∈ members.dropLast,
    d.quotesKey member.1 = false ∨ member.2.isScalar = true → d.itemSep.head? = some ','

/-- A member with a mask in place of its value. -/
def maskedMember (d : Dialect) (k : Key) : Text :=
  if d.quotesKey k then d.key k ++ d.keySep ++ maskedValue else maskedValue

def maskedBody (d : Dialect) (keys : List Key) : Text :=
  d.itemSep.intercalate (keys.map (maskedMember d))

/-- The text ends here, or goes on with a comma. -/
def AtComma (rest : Text) : Prop := rest = [] ∨ rest.head? = some ','

theorem dropWhile_comma (h : ∀ c ∈ t, c ≠ ',' ∧ c ≠ '}') (hrest : AtComma rest) :
    (t ++ rest).dropWhile (fun c => c ≠ ',' && c ≠ '}') = rest := by
  rw [List.dropWhile_append_of_pos fun c hc => by simp [h c hc]]
  cases rest with
  | nil => rfl
  | cons c rest =>
    obtain hnil | hcomma := hrest
    · cases hnil
    · obtain rfl := Option.some.inj hcomma
      rfl

theorem plain_of_ne_nil (h : t ≠ []) (hplain : ∀ c ∈ t, isPlain c = true) :
    ∃ c t', t = c :: t' ∧ isPlain c = true := by
  cases t with
  | nil => exact absurd rfl h
  | cons c t => exact ⟨c, t, rfl, hplain c List.mem_cons_self⟩

theorem word_ne_nil (d : Dialect) (s : Scalar) : d.word s ≠ [] := by
  cases s with
  | none => cases d <;> exact fun h => nomatch h
  | bool b => cases d <;> cases b <;> exact fun h => nomatch h
  | number n => cases d <;> exact n.property.1

theorem word_head (d : Dialect) (s : Scalar) : ∃ c t, d.word s = c :: t ∧ isPlain c = true :=
  plain_of_ne_nil (word_ne_nil d s) (word_plain d s)

/-- What starts with a plain character is skipped up to its comma. -/
theorem skipValue_bare {c : Char} (hc : isPlain c = true)
    (h : ∀ x ∈ c :: t, x ≠ ',' ∧ x ≠ '}') (hrest : AtComma rest) :
    skipValue (c :: t ++ rest) = rest := by
  have hinert := inert_of_plain hc
  have hquote : isQuote c = false := by
    rw [isInert, Bool.and_eq_true, Bool.not_eq_true'] at hinert
    exact hinert.1
  have hbracket : c ∉ ['[', '{', '('] := by
    rintro hmem
    simp only [isInert, Bool.and_eq_true, Bool.not_eq_true', List.contains_eq_mem,
      decide_eq_false_iff_not] at hinert
    exact hinert.2 (List.mem_append_left [']', '}', ')'] hmem)
  rw [List.cons_append, skipValue]
  simp only [hquote, hbracket, Bool.false_eq_true, if_false]
  exact dropWhile_comma h hrest

theorem skipValue_bracketed {c c' : Char} {inner : Text} (hc : c ∈ ['[', '{', '('])
    (hc' : c' ∈ [']', '}', ')'])
    (h : Balanced ['[', '{', '('] [']', '}', ')'] inner) :
    skipValue (c :: inner ++ [c'] ++ rest) = rest := by
  obtain ⟨hquote, -⟩ := opening_bracket c hc
  obtain ⟨hquote', hother⟩ := closing_bracket c' hc'
  rw [List.append_assoc, List.cons_append, skipValue]
  simp only [hquote, hc, Bool.false_eq_true, if_false, if_true]
  rw [h 0, List.singleton_append, scanBrackets_end hquote' hother hc']
  simp

/-- The value of a member is skipped as a whole. -/
theorem skipValue_render (hd : d.Spaced) {value : Doc}
    (hrest : value.isScalar = true → AtComma rest) :
    skipValue (value.render d ++ rest) = rest := by
  cases value with
  | scalar s =>
    obtain ⟨c, t, heq, hc⟩ := word_head d s
    have hplain := word_plain d s
    rw [Doc.render]
    rw [heq] at hplain ⊢
    exact skipValue_bare hc (fun x hx => ⟨ne_of_plain rfl (hplain x hx),
      ne_of_plain rfl (hplain x hx)⟩) (hrest rfl)
  | str s =>
    obtain ⟨quote, body, hquote, heq, hread⟩ := literal_read d s
    rw [Doc.render, heq, List.cons_append, skipValue]
    simp only [hquote, if_true, hread]
  | list items =>
    refine skipValue_bracketed (by decide) (by decide) (.intercalate (.itemSep .all hd) ?_)
    intro t ht
    obtain ⟨item, -, rfl⟩ := mem_renderItems ht
    exact .render .all hd item
  | dict members =>
    exact skipValue_bracketed (by decide) (by decide)
      (.body .all hd fun member _ => .render .all hd member.2)

theorem not_blank_of_plain {c : Char} (h : isPlain c = true) : isBlank c = false := by
  simp [isBlank, ne_of_plain (x := ' ') rfl h, ne_of_plain (x := '\t') rfl h]

theorem not_blank_of_quote {c : Char} (h : isQuote c = true) : isBlank c = false := by
  obtain h | h := (Bool.or_eq_true _ _).mp h
  · rw [beq_iff_eq.mp h]
    rfl
  · rw [beq_iff_eq.mp h]
    rfl

theorem render_head (d : Dialect) (value : Doc) :
    ∃ c t, value.render d = c :: t ∧ isBlank c = false := by
  cases value with
  | scalar s =>
    obtain ⟨c, t, heq, hc⟩ := word_head d s
    exact ⟨c, t, heq, not_blank_of_plain hc⟩
  | str s => exact ⟨_, _, rfl, not_blank_of_quote (isQuote_quote d s)⟩
  | list items => exact ⟨'[', _, rfl, rfl⟩
  | dict members => exact ⟨'{', _, rfl, rfl⟩

theorem takeWhile_blank {c : Char} (h : ∀ x ∈ t, isBlank x = true) (hc : isBlank c = false)
    (rest : Text) :
    (t ++ c :: rest).takeWhile isBlank = t ∧ (t ++ c :: rest).dropWhile isBlank = c :: rest := by
  rw [List.takeWhile_append_of_pos h, List.dropWhile_append_of_pos h,
    List.takeWhile_cons_of_neg (by simp [hc]), List.dropWhile_cons_of_neg (by simp [hc])]
  simp

theorem maskMember_eq (hd : d.Spaced) {body : Text} {value : Doc}
    (hread : ∀ rest, readString quote (body ++ rest) = (body, rest))
    (hrest : value.isScalar = true → AtComma rest) :
    maskMember quote (body ++ (d.keySep ++ (value.render d ++ rest))) =
      (quote :: body ++ d.keySep ++ maskedValue, rest) := by
  obtain ⟨before, after, heq, hbefore, hafter⟩ := hd.keySep
  obtain ⟨c, t, hvalue, hc⟩ := render_head d value
  have hskip := skipValue_render hd hrest
  rw [hvalue] at hskip
  obtain ⟨htake, hdrop⟩ := takeWhile_blank hbefore (rfl : isBlank ':' = false)
    (after ++ (c :: t ++ rest))
  obtain ⟨htake', hdrop'⟩ := takeWhile_blank hafter hc (t ++ rest)
  rw [heq, hvalue, maskMember, hread]
  simp only [List.append_assoc, List.cons_append] at htake hdrop htake' hdrop' hskip ⊢
  simp only [htake, hdrop, htake', hdrop', hskip]

theorem key_read (h : d.quotesKey k = true) :
    ∃ quote body, isQuote quote = true ∧ d.key k = quote :: body ∧
      ∀ rest, readString quote (body ++ rest) = (body, rest) := by
  cases d with
  | json ensureAscii itemSep keySep =>
    cases k with
    | str s => exact literal_read _ s
    | scalar s => exact literal_read _ _
  | repr printable =>
    cases k with
    | str s => exact literal_read _ s
    | scalar s => cases h

theorem maskObjectBody_gap (h : ∀ c ∈ t, Dialect.isGap c = true) :
    maskObjectBody (t ++ rest) = (maskObjectBody rest).map (t ++ ·) := by
  induction t with
  | nil => simp
  | cons c t ih =>
    have hc : c ∈ [' ', '\t', '\r', '\n'] ∨ c = ',' := by
      have := h c List.mem_cons_self
      simp only [Dialect.isGap, List.contains_eq_mem, decide_eq_true_eq] at this
      simpa [or_assoc] using this
    rw [List.cons_append, maskObjectBody.eq_def]
    simp only [hc, if_true]
    rw [ih fun c hc => h c (List.mem_cons_of_mem _ hc), Option.map_map]
    rfl

theorem not_gap_of_quote {c : Char} (h : isQuote c = true) :
    ¬(c ∈ [' ', '\t', '\r', '\n'] ∨ c = ',') := by
  obtain h | h := (Bool.or_eq_true _ _).mp h
  · rw [beq_iff_eq.mp h]
    decide
  · rw [beq_iff_eq.mp h]
    decide

/-- One member of a mapping. -/
theorem maskObjectBody_member (hd : d.Spaced) {k : Key} {value : Doc}
    (hunquoted : d.quotesKey k = false → ∀ c ∈ value.render d, c ≠ ',' ∧ c ≠ '}')
    (hrest : d.quotesKey k = false ∨ value.isScalar = true → AtComma rest) :
    maskObjectBody (d.key k ++ d.keySep ++ value.render d ++ rest) =
      (maskObjectBody rest).map (maskedMember d k ++ ·) := by
  unfold maskedMember
  split_ifs with hkey
  · obtain ⟨quote, body, hquote, heq, hread⟩ := key_read hkey
    rw [heq, List.append_assoc, List.append_assoc, List.cons_append, maskObjectBody.eq_def]
    simp only [not_gap_of_quote hquote, hquote, if_false, if_true,
      maskMember_eq hd hread fun h => hrest (.inr h)]
  · have hfalse : d.quotesKey k = false := Bool.eq_false_iff.mpr hkey
    obtain ⟨before, after, hsep, hbefore, hafter⟩ := hd.keySep
    obtain ⟨c, w, hword, hplain, hw⟩ : ∃ c w, d.key k = c :: w ∧ isPlain c = true ∧
        ∀ x ∈ c :: w, isPlain x = true := by
      cases d with
      | json => cases hfalse
      | repr printable =>
        cases k with
        | str s => cases hfalse
        | scalar s =>
          obtain ⟨c, w, heq, hc⟩ := word_head (.repr printable) s
          exact ⟨c, w, heq, hc, heq ▸ word_plain (.repr printable) s⟩
    have hblank : ∀ x, isBlank x = true → x ≠ ',' ∧ x ≠ '}' := by
      intro x hx
      constructor
      · rintro rfl
        exact absurd hx (by decide)
      · rintro rfl
        exact absurd hx (by decide)
    have hrun : ∀ x ∈ c :: (w ++ d.keySep ++ value.render d), x ≠ ',' ∧ x ≠ '}' := by
      intro x hx
      rw [← List.cons_append, ← List.cons_append] at hx
      obtain hx | hx := List.mem_append.mp hx
      · obtain hx | hx := List.mem_append.mp hx
        · exact ⟨ne_of_plain rfl (hw x hx), ne_of_plain rfl (hw x hx)⟩
        · rw [hsep] at hx
          obtain hx | hx := List.mem_append.mp hx
          · exact hblank x (hbefore x hx)
          · obtain rfl | hx := List.mem_cons.mp hx
            · exact ⟨by decide, by decide⟩
            · exact hblank x (hafter x hx)
      · exact hunquoted hfalse x hx
    have hskip : skipValue (c :: (w ++ d.keySep ++ value.render d) ++ rest) = rest :=
      skipValue_bare hplain hrun (hrest (.inl hfalse))
    have hgap : ¬(c ∈ [' ', '\t', '\r', '\n'] ∨ c = ',') := by
      simp [ne_of_plain (x := ' ') rfl hplain, ne_of_plain (x := '\t') rfl hplain,
        ne_of_plain (x := '\r') rfl hplain, ne_of_plain (x := '\n') rfl hplain,
        ne_of_plain (x := ',') rfl hplain]
    have hquote : isQuote c = false := by
      simp [isQuote, ne_of_plain (x := '"') rfl hplain, ne_of_plain (x := '\'') rfl hplain]
    rw [hword]
    simp only [List.cons_append] at hskip ⊢
    rw [maskObjectBody.eq_def]
    simp only [hgap, hquote, ne_of_plain (x := '}') rfl hplain, if_false, Bool.false_eq_true, hskip]

theorem atComma_itemSep (h : d.itemSep.head? = some ',') : AtComma (d.itemSep ++ rest) := by
  refine .inr ?_
  rw [List.head?_append, h]
  rfl

/-- What the redactor makes of the body of a mapping depends on its keys alone. -/
theorem maskObjectBody_body (hd : d.Spaced) {members : List (Key × Doc)}
    (h : Orderly d members) :
    maskObjectBody (bodyText d members) = some (maskedBody d (members.map Prod.fst)) := by
  unfold bodyText maskedBody
  induction members with
  | nil =>
    rw [renderMembers, List.intercalate_nil, maskObjectBody.eq_def]
    rfl
  | cons member members ih =>
    obtain ⟨k, value⟩ := member
    have hunquoted := h.unquoted (k, value) List.mem_cons_self
    cases members with
    | nil =>
      have hmember : maskObjectBody (d.key k ++ d.keySep ++ value.render d ++ []) =
          (maskObjectBody []).map (maskedMember d k ++ ·) :=
        maskObjectBody_member hd hunquoted fun _ => .inl rfl
      rw [List.append_nil] at hmember
      rw [renderMembers, renderMembers, List.intercalate_singleton, hmember, maskObjectBody.eq_def]
      simp
    | cons member' members =>
      have hrest : Orderly d (member' :: members) :=
        ⟨fun member hmember => h.unquoted member (List.mem_cons_of_mem _ hmember),
          fun member hmember => h.delimited member (List.mem_cons_of_mem _ hmember)⟩
      have hcomma : d.quotesKey k = false ∨ value.isScalar = true →
          AtComma (d.itemSep ++ d.itemSep.intercalate (renderMembers d (member' :: members))) :=
        fun hbare => atComma_itemSep (h.delimited (k, value) List.mem_cons_self hbare)
      have hcons : renderMembers d (member' :: members) =
          (d.key member'.1 ++ d.keySep ++ member'.2.render d) :: renderMembers d members := by
        rw [renderMembers]
      rw [hcons] at ih hcomma
      rw [renderMembers, hcons, List.intercalate_cons_cons, List.append_assoc,
        maskObjectBody_member hd hunquoted hcomma, maskObjectBody_gap hd.itemSep, ih hrest]
      simp

end TaiSkeleton.Connectors
