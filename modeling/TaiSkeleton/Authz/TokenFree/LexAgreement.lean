import TaiSkeleton.Authz.TokenFree.LexRegions

/-!
# The scan reads the tokens jq reads

A stream that the scan lexes in a region of code is a run of jq's lexer through that region
(`lex_emits`), and so, hole by hole, are the tokens of an accepted condition
(`parseCondition_jqLex`).
-/

namespace TaiSkeleton.Authz.TokenFree

open Lib

variable {conditionText : Text} {stop depth index : ℕ} {outer : Option (List ℕ)}

/-! ## Streams in a region -/

/-- A digit starts a number. -/
theorem nextToken_digit {fuel lexDepth : ℕ} {char : Char} {rest rest' : Text} {token : Token}
    (hdigit : char.isDigit = true)
    (h : nextToken conditionText fuel lexDepth stop index char rest = .ok (token, rest')) :
    token.kind = .number := by
  have hne : ∀ d, d.isDigit = false → char ≠ d := by
    rintro d hd rfl
    rw [hdigit] at hd
    exact absurd hd (by decide)
  unfold nextToken at h
  simp only at h
  rw [if_neg (hne '"' (by decide)), if_neg (hne '$' (by decide)), if_neg (hne '@' (by decide)),
    if_pos hdigit] at h
  obtain ⟨rfl, _⟩ := Prod.mk.inj (Except.ok.inj h)
  rfl

theorem lex_cons {fuel lexDepth spent s : ℕ} {char : Char} {rest : Text} {tokens : List Token}
    (hlt : index < stop) (hblank : char ≠ ' ')
    (h : lex conditionText (fuel + 1) lexDepth stop (char :: rest) index spent =
      .ok (tokens, s)) :
    ∃ token rest' spent' tail,
      nextToken conditionText fuel lexDepth stop index char rest = .ok (token, rest') ∧
      lex conditionText fuel lexDepth stop rest' token.stop spent' = .ok (tail, s) ∧
      tokens = token :: tail := by
  simp only [lex, if_neg (Nat.not_le.mpr hlt), if_neg hblank, bind_eq_ok] at h
  obtain ⟨⟨token, rest'⟩, hnext, spent', _, ⟨tail, s'⟩, hlex, h⟩ := h
  obtain ⟨rfl, rfl⟩ := Prod.mk.inj (Except.ok.inj h)
  exact ⟨token, rest', spent', tail, hnext, hlex, rfl⟩

theorem lex_digit {fuel lexDepth spent s : ℕ} {char : Char} {rest : Text} {tokens : List Token}
    (hlt : index < stop) (hdigit : char.isDigit = true)
    (h : lex conditionText fuel lexDepth stop (char :: rest) index spent = .ok (tokens, s)) :
    ∃ token ∈ tokens.head?, token.kind = .number := by
  cases fuel with
  | zero => simp [lex] at h
  | succ n =>
    have hblank : char ≠ ' ' := by
      rintro rfl
      exact absurd hdigit (by decide)
    obtain ⟨token, _, _, tail, hnext, _, rfl⟩ := lex_cons hlt hblank h
    exact ⟨token, rfl, nextToken_digit hdigit hnext⟩

/-- In a linked stream no digit follows a `.` directly: it would be a number next to it. -/
theorem lex_dot {fuel lexDepth spent s : ℕ} {rest : Text} {tokens : List Token}
    (hrest : rest = conditionText.drop index)
    (h : lex conditionText fuel lexDepth stop rest index spent = .ok (tokens, s))
    (hlinked : Linked tokens) :
    ∀ t ∈ tokens, t.isOperator ["."] = true → t.stop < stop →
      ∀ c, conditionText[t.stop]? = some c → c.isDigit = false := by
  induction fuel generalizing rest index spent tokens s with
  | zero => simp [lex] at h
  | succ n ih =>
    by_cases hlt : index < stop
    swap
    · cases rest <;> simp only [lex, if_pos (Nat.not_lt.mp hlt), bind_eq_ok] at h <;>
      · obtain ⟨_, _, h⟩ := h
        obtain ⟨rfl, _⟩ := Prod.mk.inj (Except.ok.inj h)
        simp
    cases rest with
    | nil =>
      simp only [lex, bind_eq_ok] at h
      obtain ⟨_, _, h⟩ := h
      obtain ⟨rfl, _⟩ := Prod.mk.inj (Except.ok.inj h)
      simp
    | cons char rest =>
      by_cases hblank : char = ' '
      · simp only [lex, if_neg (Nat.not_le.mpr hlt), if_pos hblank] at h
        exact ih (drop_succ_of_cons hrest) h hlinked
      obtain ⟨token, rest', spent', tail, hnext, hlex, rfl⟩ := lex_cons hlt hblank h
      have hrest' := (nextToken_ends hrest hnext).2
      have hind := ih hrest' hlex (List.IsChain.tail hlinked)
      intro t ht hdot hstop c hc
      rcases List.mem_cons.mp ht with rfl | ht
      swap
      · exact hind t ht hdot hstop c hc
      by_contra hdigit
      have hcons : rest' = c :: conditionText.drop (t.stop + 1) := by
        rw [hrest']
        obtain ⟨hlen, rfl⟩ := List.getElem?_eq_some_iff.mp hc
        exact List.drop_eq_getElem_cons hlen
      rw [hcons] at hlex
      obtain ⟨u, hu, hnumber⟩ := lex_digit hstop (by simpa using hdigit) hlex
      rcases (List.isChain_cons.mp hlinked).1 u hu with hn | hn
      · simp only [Token.isOperator, Bool.and_eq_true, beq_iff_eq] at hdot
        exact hn.2 ⟨hdot.1, by simpa using hdot.2⟩
      · exact hn.1 hnumber

/-- The tokens that the scan lexes in a region are a run of jq's lexer through the region. -/
theorem lex_emits {body : Interpolation → List Span} {fuel lexDepth spent s : ℕ} {rest : Text}
    {tokens : List Token} (hrest : rest = conditionText.drop index)
    (hregion : Region conditionText stop outer depth index)
    (h : lex conditionText fuel lexDepth stop rest index spent = .ok (tokens, s))
    (hagree : ∀ t ∈ tokens, Agreeable conditionText body stop t) :
    ∃ depth' index', Region conditionText stop outer depth' index' ∧
      (conditionText.drop index' = [] ∨ stop ≤ index') ∧
      Emits jqStep ⟨false, openHoles outer depth, rest, index⟩
        (tokens.flatMap (jqSpans conditionText body))
        ⟨false, openHoles outer depth', conditionText.drop index', index'⟩ := by
  induction fuel generalizing rest index depth spent tokens s with
  | zero => simp [lex] at h
  | succ n ih =>
    cases rest with
    | nil =>
      simp only [lex, bind_eq_ok] at h
      obtain ⟨_, _, h⟩ := h
      obtain ⟨rfl, _⟩ := Prod.mk.inj (Except.ok.inj h)
      refine ⟨depth, index, hregion, .inl hrest.symm, ?_⟩
      rw [← hrest]
      exact .refl _
    | cons char rest =>
      by_cases hlt : index < stop
      swap
      · simp only [lex, if_pos (Nat.not_lt.mp hlt), bind_eq_ok] at h
        obtain ⟨_, _, h⟩ := h
        obtain ⟨rfl, _⟩ := Prod.mk.inj (Except.ok.inj h)
        refine ⟨depth, index, hregion, .inr (Nat.not_lt.mp hlt), ?_⟩
        rw [← hrest]
        exact .refl _
      by_cases hblank : char = ' '
      · subst hblank
        simp only [lex, if_neg (Nat.not_le.mpr hlt), if_true] at h
        have hregion' := hregion.next hrest (by decide) (by decide) (by decide)
        obtain ⟨depth', index', hend, hstop, hrun⟩ :=
          ih (drop_succ_of_cons hrest) hregion' h hagree
        exact ⟨depth', index', hend, hstop, emits_blank.trans hrun⟩
      obtain ⟨token, rest', spent', tail, hnext, hlex, rfl⟩ := lex_cons hlt hblank h
      obtain ⟨depth₁, hregion₁, hfirst⟩ :=
        nextToken_emits hrest hregion hlt hnext (hagree token (by simp))
      obtain ⟨depth', index', hend, hstop, hrun⟩ := ih (nextToken_ends hrest hnext).2 hregion₁ hlex
        fun t ht => hagree t (by simp [ht])
      exact ⟨depth', index', hend, hstop, hfirst.trans hrun⟩

/-- Where the scan of a hole's body can go no further it is at its `)`, and nothing is open. -/
theorem Region.finish {outer : List ℕ} (h : Region conditionText stop (some outer) depth index)
    (hend : conditionText.drop index = [] ∨ stop ≤ index) : depth = 0 ∧ index = stop := by
  have hle := h.le_of_some
  obtain ⟨fuel, scanDepth, start, rest, hscan⟩ := h
  have hclose := ((stringEnds conditionText fuel).scanBody rfl hscan).2
  have hindex : index = stop := by
    rcases hend with hnil | hge
    · have hlen := List.drop_eq_nil_iff.mp hnil
      rw [List.drop_eq_nil_iff.mpr (by omega)] at hclose
      exact absurd hclose (by simp)
    · omega
  refine ⟨?_, hindex⟩
  subst hindex
  cases fuel with
  | zero => simp [scanBody] at hscan
  | succ n =>
    rw [← hclose] at hscan
    simp only [scanBody, if_neg (show ')' ≠ '"' by decide), if_neg (show ')' ≠ '(' by decide),
      if_true, Nat.add_sub_cancel] at hscan
    split_ifs at hscan with hz
    · exact hz
    · have hlt := ((stringEnds conditionText n).scanBody (drop_succ_of_cons hclose) hscan).1
      omega

/-! ## Holes in holes -/

/-- The spans of a stream with its quoted fields split. -/
def jqView (conditionText : Text) (fuel nesting : ℕ) (tokens : List Token) : List Span :=
  (spans conditionText fuel nesting tokens).flatMap (splitQuotedField conditionText)

theorem holeSpans_split (body : Interpolation → List Span) (hole : Interpolation) :
    (holeSpans body hole).flatMap (splitQuotedField conditionText) =
      holeSpans (fun hole => (body hole).flatMap (splitQuotedField conditionText)) hole := by
  simp [holeSpans, splitQuotedField]

theorem tokenSpans_split (body : Interpolation → List Span) (t : Token) :
    (tokenSpans body t).flatMap (splitQuotedField conditionText) =
      jqSpans conditionText (fun hole => (body hole).flatMap (splitQuotedField conditionText)) t := by
  unfold jqSpans tokenSpans
  cases hk : t.kind with
  | string => simp [splitQuotedField, List.flatMap_assoc, holeSpans_split]
  | _ => simp [splitQuotedField]

theorem jqView_succ (fuel nesting : ℕ) (tokens : List Token) :
    jqView conditionText fuel (nesting + 1) tokens =
      tokens.flatMap (jqSpans conditionText fun hole =>
        jqView conditionText fuel nesting (holeTokens conditionText fuel hole)) := by
  unfold jqView
  rw [spans, List.flatMap_assoc]
  congr 1
  funext t
  exact tokenSpans_split _ t

/-- The spans of a hole's body are among those of its stream. -/
theorem hole_mem_spans {fuel nesting : ℕ} {tokens : List Token} {t : Token} {hole : Interpolation}
    {s : Span} (ht : t ∈ tokens) (hk : t.kind = .string) (hhole : hole ∈ t.interpolations)
    (hs : s ∈ spans conditionText fuel nesting (holeTokens conditionText fuel hole)) :
    s ∈ spans conditionText fuel (nesting + 1) tokens := by
  refine List.mem_flatMap.mpr ⟨t, ht, ?_⟩
  simp only [tokenSpans, hk]
  refine List.mem_cons_of_mem _ (List.mem_append_left _ (List.mem_flatMap.mpr ⟨hole, hhole, ?_⟩))
  exact List.mem_cons_of_mem _ (List.mem_append_left _ hs)

theorem agreeable {fuel nesting lexFuel lexDepth spent s : ℕ} {rest : Text} {tokens : List Token}
    (hrest : rest = conditionText.drop index)
    (h : lex conditionText lexFuel lexDepth stop rest index spent = .ok (tokens, s))
    {admitted : Token → Prop} (hclean : Clean admitted tokens)
    (hadmitted : ∀ t, admitted t → t.kind ≠ .format ∧ t.isOperator [".."] = false)
    (hsep : Separated conditionText (spans conditionText fuel (nesting + 1) tokens))
    {body : Interpolation → List Span}
    (hholes : ∀ t ∈ tokens, t.kind = .string → ∀ hole ∈ t.interpolations,
      Scanned conditionText hole → HoleRun conditionText body hole) :
    ∀ t ∈ tokens, Agreeable conditionText body stop t := by
  intro t ht
  obtain ⟨hformat, hdescent⟩ := hadmitted t (hclean.admitted t ht)
  have hspan : ∀ s ∈ tokenSpans (fun hole =>
      spans conditionText fuel nesting (holeTokens conditionText fuel hole)) t,
      s ∈ spans conditionText fuel (nesting + 1) tokens :=
    fun s hs => List.mem_flatMap.mpr ⟨t, ht, hs⟩
  refine ⟨hformat, hdescent, ?_, ?_, lex_dot hrest h hclean.linked t ht, hholes t ht⟩
  · intro hk
    have hmem := hspan ⟨.number, t.position, t.stop⟩ (by simp [tokenSpans, hk])
    exact (hsep _ hmem).1 rfl
  · intro hk c hc
    have hmem := hspan ⟨.variable, t.position, t.stop⟩ (by simp [tokenSpans, hk])
    have hall := (hsep _ hmem).2 rfl
    simp only [hc] at hall
    simpa using hall

/-- The stream of a region, with the bodies of its holes, is a run of jq's lexer. -/
theorem stream_emits {fuel nesting lexFuel lexDepth spent s : ℕ} {rest : Text}
    {tokens : List Token} (hrest : rest = conditionText.drop index)
    (hregion : Region conditionText stop outer depth index)
    (h : lex conditionText lexFuel lexDepth stop rest index spent = .ok (tokens, s))
    (hclean : Clean (Admitted conditionText fuel nesting) tokens)
    (hsep : Separated conditionText (spans conditionText fuel (nesting + 1) tokens)) :
    ∃ depth' index', Region conditionText stop outer depth' index' ∧
      (conditionText.drop index' = [] ∨ stop ≤ index') ∧
      Emits jqStep ⟨false, openHoles outer depth, rest, index⟩
        (jqView conditionText fuel (nesting + 1) tokens)
        ⟨false, openHoles outer depth', conditionText.drop index', index'⟩ := by
  induction nesting generalizing stop depth index outer lexFuel lexDepth spent s rest tokens with
  | zero =>
    rw [jqView_succ]
    refine lex_emits hrest hregion h (agreeable hrest h hclean (fun t ha => ⟨ha.1, ha.2.1⟩) hsep ?_)
    intro t ht hk hole hhole
    rw [(hclean.admitted t ht).2.2 hk] at hhole
    exact absurd hhole List.not_mem_nil
  | succ n ih =>
    rw [jqView_succ]
    refine lex_emits hrest hregion h (agreeable hrest h hclean (fun t ha => ⟨ha.1, ha.2.1⟩) hsep ?_)
    intro t ht hk hole hhole hscanned outer'
    obtain ⟨body, spent', hbody, hbodyClean⟩ := (hclean.admitted t ht).2.2 hk hole hhole
    have htokens : holeTokens conditionText fuel hole = body := by
      simp only [holeTokens, hbody]
    have hbodySep : Separated conditionText (spans conditionText fuel (n + 1) body) := by
      rw [← htokens]
      exact fun s hs => hsep s (hole_mem_spans ht hk hhole hs)
    have hbodyRegion : Region conditionText hole.stop (some outer') 0 hole.start := by
      obtain ⟨scanFuel, scanDepth, rest₁, hscan⟩ := hscanned
      cases scanFuel with
      | zero => simp [scanInterpolation] at hscan
      | succ k =>
        simp only [scanInterpolation, bind_eq_ok] at hscan
        obtain ⟨d, _, hscan⟩ := hscan
        exact ⟨k, d, hole.start, rest₁, hscan⟩
    obtain ⟨depth', index', hend, hstop, hrun⟩ := ih rfl hbodyRegion hbody hbodyClean hbodySep
    obtain ⟨rfl, rfl⟩ := hend.finish hstop
    show Emits jqStep _ (jqView conditionText fuel (n + 1) (holeTokens conditionText fuel hole)) _
    rw [htokens]
    exact hrun

/-! ## The agreement -/

/-- On a condition that the parser accepts, jq's lexer reads the tokens of the scan, those of every
hole among them. -/
theorem parseCondition_jqLex {fuel : ℕ} {program : Node}
    (h : parseCondition conditionText fuel = .ok program)
    (hsep : Separated conditionText (lexSpans conditionText fuel)) :
    jqLex conditionText =
      some ((lexSpans conditionText fuel).flatMap (splitQuotedField conditionText)) := by
  obtain ⟨tokens, spent, hlex, hclean⟩ := parseCondition_clean h
  have hspans : lexSpans conditionText fuel = spans conditionText fuel (fuel + 1) tokens := by
    simp only [lexSpans, hlex]
  rw [hspans] at hsep ⊢
  have hregion : Region conditionText conditionText.length none 0 0 := rfl
  obtain ⟨depth', index', _, hstop, hrun⟩ :=
    stream_emits (List.drop_zero).symm hregion hlex hclean hsep
  have hnil : conditionText.drop index' = [] := by
    rcases hstop with hnil | hge
    · exact hnil
    · exact List.drop_eq_nil_iff.mpr hge
  rw [hnil] at hrun
  exact jqLex_eq hrun

/-- A field, a literal with a hole, a quoted field and a number in the hole. -/
def holeCondition : Text := ".scope_id == \"s-\\(.\"n\" + 1.5)\"".toList

theorem holeCondition_jqLex :
    jqLex holeCondition =
      some ((lexSpans holeCondition 40).flatMap (splitQuotedField holeCondition)) := by
  have hok : (parseCondition holeCondition 40).isOk = true := by decide +kernel
  obtain ⟨program, h⟩ := exists_ok_of_isOk hok
  exact parseCondition_jqLex h (by decide +kernel)

/-- `."a"` is one token of the scan, and three of jq's. -/
theorem quotedField_jqLex_ne :
    assertSourceShape ".\"a\"".toList = .ok () ∧
      (parseCondition ".\"a\"".toList 30).isOk = true ∧
      jqLex ".\"a\"".toList ≠ some (lexSpans ".\"a\"".toList 30) := by
  decide +kernel

end TaiSkeleton.Authz.TokenFree
