import TaiSkeleton.Lib.Machine
import TaiSkeleton.Connectors.ObjectBodies
import TaiSkeleton.Connectors.RedactedAlike

/-!
# The redactor ends

The loops of the redactor, iteration by iteration. All but one pass at least a character in every
iteration. The loop over the body of an object does so exactly where the body is of the grammar of
`Fits`, and else repeats one iteration for ever; where all loops end, the output is linear in the
length of the input.
-/

namespace TaiSkeleton.Connectors

open Lib

variable {quote c : Char} {text t s body out metaKey opening closing : Text} {depth : ℕ}

/-! ## The loops -/

/-- An iteration of `_read_string`: none at the closing quote. -/
def readIteration (quote : Char) : Text → Option (Text × Text)
  | [] => none
  | c :: text =>
    if c = '\\' then some (c :: text.take 1, text.drop 1)
    else if c = quote then none
    else some ([c], text)

/-- An iteration of `_find_object_end`, or of the loop over brackets of `_skip_value`: none at the
bracket that brings the depth to zero. -/
def bracketIteration (opening closing : Text) : ℕ × Text → Option (Text × (ℕ × Text))
  | (_, []) => none
  | (depth, c :: text) =>
    if isQuote c then some (c :: (readString c text).1, (depth, (readString c text).2))
    else if c ∈ opening then some ([c], (depth + 1, text))
    else if c ∈ closing then
      if depth ≤ 1 then none else some ([c], (depth - 1, text))
    else some ([c], (depth, text))

/-- An iteration of the loop over a bare scalar of `_skip_value`. -/
def bareIteration : Text → Option (Text × Text)
  | [] => none
  | c :: text => if c ≠ ',' && c ≠ '}' then some ([c], text) else none

/-- An iteration of `_mask_headers_env`: what the search goes on in. -/
def startIteration (text : Text) : Option (Text × Text) :=
  (searchStart text).map fun found =>
    (found.1 ++ (findObjectEnd found.2).1 ++ (findObjectEnd found.2).2.take 1,
      (findObjectEnd found.2).2.drop 1)

theorem readString_run (quote : Char) (text : Text) :
    ∃ passed left, Emits (readIteration quote) text passed left ∧
      readIteration quote left = none ∧
      readString quote text = (passed ++ left.take 1, left.drop 1) := by
  fun_induction readString quote text with
  | case1 => exact ⟨[], [], .refl _, rfl, rfl⟩
  | case2 => exact ⟨['\\'], [], .single rfl, rfl, rfl⟩
  | case3 escaped text ih =>
    obtain ⟨passed, left, hrun, hstop, hread⟩ := ih
    have hfirst : readIteration quote ('\\' :: escaped :: text) =
        some (['\\', escaped], text) := rfl
    refine ⟨'\\' :: escaped :: passed, left, .head hfirst hrun, hstop, ?_⟩
    rw [hread]
    rfl
  | case4 text hescape =>
    refine ⟨[], quote :: text, .refl _, ?_, rfl⟩
    rw [readIteration, if_neg hescape, if_pos rfl]
  | case5 c text hescape hquote ih =>
    obtain ⟨passed, left, hrun, hstop, hread⟩ := ih
    have hfirst : readIteration quote (c :: text) = some ([c], text) := by
      rw [readIteration, if_neg hescape, if_neg hquote]
    refine ⟨c :: passed, left, .head hfirst hrun, hstop, ?_⟩
    rw [hread]
    rfl

theorem scanBrackets_run (opening closing : Text) (depth : ℕ) (text : Text) :
    ∃ left, Emits (bracketIteration opening closing) (depth, text)
        (scanBrackets opening closing depth text).1 left ∧
      bracketIteration opening closing left = none ∧
      left.2 = (scanBrackets opening closing depth text).2 := by
  fun_induction scanBrackets opening closing depth text with
  | case1 depth => exact ⟨(depth, []), .refl _, rfl, rfl⟩
  | case2 depth c text hquote _ rest ih =>
    obtain ⟨left, hrun, hstop, hleft⟩ := ih
    have hfirst : bracketIteration opening closing (depth, c :: text) =
        some (c :: (readString c text).1, (depth, (readString c text).2)) := by
      rw [bracketIteration, if_pos hquote]
    exact ⟨left, .head hfirst hrun, hstop, hleft⟩
  | case3 depth c text hquote hc rest ih =>
    obtain ⟨left, hrun, hstop, hleft⟩ := ih
    have hfirst : bracketIteration opening closing (depth, c :: text) =
        some ([c], (depth + 1, text)) := by
      rw [bracketIteration, if_neg hquote, if_pos hc]
    exact ⟨left, .head hfirst hrun, hstop, hleft⟩
  | case4 depth c text hquote hopening hc hdepth =>
    refine ⟨(depth, c :: text), .refl _, ?_, rfl⟩
    rw [bracketIteration, if_neg hquote, if_neg hopening, if_pos hc, if_pos hdepth]
  | case5 depth c text hquote hopening hc hdepth rest ih =>
    obtain ⟨left, hrun, hstop, hleft⟩ := ih
    have hfirst : bracketIteration opening closing (depth, c :: text) =
        some ([c], (depth - 1, text)) := by
      rw [bracketIteration, if_neg hquote, if_neg hopening, if_pos hc, if_neg hdepth]
    exact ⟨left, .head hfirst hrun, hstop, hleft⟩
  | case6 depth c text hquote hopening hclosing rest ih =>
    obtain ⟨left, hrun, hstop, hleft⟩ := ih
    have hfirst : bracketIteration opening closing (depth, c :: text) =
        some ([c], (depth, text)) := by
      rw [bracketIteration, if_neg hquote, if_neg hopening, if_neg hclosing]
    exact ⟨left, .head hfirst hrun, hstop, hleft⟩

/-- `maskObjectBody` is what the loop of `_mask_object_body` has appended when it ends. -/
theorem maskObjectBody_eq_some_iff :
    maskObjectBody text = some out ↔ Emits bodyIteration text out [] := by
  constructor
  · intro h
    fun_induction maskObjectBody text generalizing out with
    | case1 =>
      obtain rfl := Option.some.inj h
      exact .refl _
    | case2 c text hgap ih =>
      obtain ⟨out, hout, rfl⟩ := Option.map_eq_some_iff.mp h
      have hfirst : bodyIteration (c :: text) = some ([c], text) := by
        rw [bodyIteration, if_pos hgap]
      exact .head hfirst (ih hout)
    | case3 c text hgap hquote _ ih =>
      obtain ⟨out, hout, rfl⟩ := Option.map_eq_some_iff.mp h
      exact .head (by rw [bodyIteration, if_neg hgap, if_pos hquote]) (ih hout)
    | case4 => cases h
    | case5 c text hgap hquote hbrace ih =>
      obtain ⟨out, hout, rfl⟩ := Option.map_eq_some_iff.mp h
      exact .head (by rw [bodyIteration, if_neg hgap, if_neg hquote]) (ih hout)
  · intro h
    generalize hend : ([] : Text) = left at h
    induction h with
    | refl s =>
      subst hend
      rw [maskObjectBody]
    | @head s s' s'' out outs first rest ih =>
      have hrest := ih hend
      cases s with
      | nil => cases first
      | cons c text =>
        by_cases hc : c = '}'
        · subst hc
          rw [bodyIteration_stuck] at first
          cases first
          rw [maskObjectBody_stuck] at hrest
          cases hrest
        · rw [maskObjectBody_iteration hc first, hrest]
          rfl

/-! ## Progress -/

theorem readIteration_length {left : Text} (h : readIteration quote text = some (t, left)) :
    left.length < text.length := by
  cases text with
  | nil => cases h
  | cons c text =>
    rw [readIteration] at h
    split_ifs at h
    · cases h
      rw [List.length_drop, List.length_cons]
      omega
    · cases h
      exact Nat.lt_succ_self _

theorem bracketIteration_length {left : ℕ × Text}
    (h : bracketIteration opening closing (depth, text) = some (t, left)) :
    left.2.length < text.length := by
  cases text with
  | nil => cases h
  | cons c text =>
    rw [bracketIteration] at h
    split_ifs at h
    · cases h
      exact Nat.lt_succ_of_le (readString_length c text)
    · cases h
      exact Nat.lt_succ_self _
    · cases h
      exact Nat.lt_succ_self _
    · cases h
      exact Nat.lt_succ_self _

theorem bareIteration_length {left : Text} (h : bareIteration text = some (t, left)) :
    left.length < text.length := by
  cases text with
  | nil => cases h
  | cons c text =>
    rw [bareIteration] at h
    split_ifs at h
    cases h
    exact Nat.lt_succ_self _

theorem startIteration_length {left : Text} (h : startIteration text = some (t, left)) :
    left.length < text.length := by
  obtain ⟨⟨before, after⟩, hfound, heq⟩ := Option.map_eq_some_iff.mp h
  cases heq
  have hafter := searchStart_length hfound
  have hend := scanBrackets_length ['{'] ['}'] 1 after
  show ((findObjectEnd after).2.drop 1).length < text.length
  rw [List.length_drop]
  unfold findObjectEnd
  omega

/-- Where the loop over a body ends, every iteration passes a character. -/
theorem bodyIteration_progress {passed left left' : Text}
    (h : (maskObjectBody text).isSome = true) (hrun : Emits bodyIteration text t left)
    (hstep : bodyIteration left = some (passed, left')) : left'.length < left.length := by
  induction hrun with
  | refl s =>
    cases s with
    | nil => cases hstep
    | cons c s =>
      refine Nat.lt_succ_of_le (bodyIteration_length ?_ hstep)
      rintro rfl
      rw [maskObjectBody_stuck] at h
      cases h
  | @head s s' s'' out outs first rest ih =>
    refine ih ?_ hstep
    cases s with
    | nil => cases first
    | cons c s =>
      by_cases hc : c = '}'
      · subst hc
        rw [maskObjectBody_stuck] at h
        cases h
      · rwa [maskObjectBody_iteration hc first, Option.isSome_map] at h

/-! ## The bodies of a text -/

/-- The bodies of the `headers` and `env` objects of a text: each from a start that the search finds
to the brace that closes it, or to the end. -/
inductive HasBody : Text → Text → Prop where
  | closed {text before body rest : Text}
    (hfound : searchStart text = some (before, body ++ '}' :: rest))
    (hbody : Closes ['{'] ['}'] 1 (body ++ ['}'])) : HasBody text body
  | leftOpen {text before body : Text} (hfound : searchStart text = some (before, body))
    (hbody : LeavesOpen ['{'] ['}'] 1 body) : HasBody text body
  | later {text before body rest more : Text}
    (hfound : searchStart text = some (before, body ++ '}' :: rest))
    (hbody : Closes ['{'] ['}'] 1 (body ++ ['}'])) (h : HasBody rest more) : HasBody text more

theorem findObjectEnd_closed (h : Closes ['{'] ['}'] 1 (body ++ ['}'])) (rest : Text) :
    findObjectEnd (body ++ '}' :: rest) = (body, '}' :: rest) := by
  obtain ⟨body', c, -, hbody, hscan⟩ := h.scan rest
  obtain ⟨rfl, hc⟩ := List.append_inj' hbody rfl
  obtain rfl := (List.cons.inj hc).1
  rwa [List.append_assoc] at hscan

theorem maskHeadersEnv_none (h : searchStart text = none) : maskHeadersEnv text = some text := by
  rw [maskHeadersEnv]
  split
  · rfl
  · next hsome =>
    rw [h] at hsome
    cases hsome

theorem maskHeadersEnv_closed {before rest : Text}
    (hfound : searchStart text = some (before, body ++ '}' :: rest))
    (hbody : Closes ['{'] ['}'] 1 (body ++ ['}'])) :
    maskHeadersEnv text = (maskObjectBody body).bind fun masked =>
      (maskHeadersEnv rest).map (before ++ masked ++ ['}'] ++ ·) := by
  rw [maskHeadersEnv_step hfound, findObjectEnd_closed hbody]
  rfl

theorem maskHeadersEnv_leftOpen {before : Text} (hfound : searchStart text = some (before, body))
    (hbody : LeavesOpen ['{'] ['}'] 1 body) :
    maskHeadersEnv text = (maskObjectBody body).map (before ++ ·) := by
  have hend : findObjectEnd body = (body, []) := hbody.scan
  have hnil : maskHeadersEnv [] = some [] := maskHeadersEnv_none rfl
  rw [maskHeadersEnv_step hfound, hend]
  simp only [List.drop_nil, List.take_nil, hnil, Option.map_some, List.append_nil]
  rw [Option.map_eq_bind]
  rfl

/-- The search finds no start, or the object of a start is closed, or it is left open. -/
theorem searchStart_cases (text : Text) :
    searchStart text = none ∨
      (∃ before body rest, searchStart text = some (before, body ++ '}' :: rest) ∧
        Closes ['{'] ['}'] 1 (body ++ ['}'])) ∨
      ∃ before body, searchStart text = some (before, body) ∧ LeavesOpen ['{'] ['}'] 1 body := by
  cases hfound : searchStart text with
  | none => exact .inl rfl
  | some found =>
    obtain ⟨before, after⟩ := found
    obtain ⟨s, rest, rfl, hs⟩ | hs := closes_or_leavesOpen ['{'] ['}'] 1 after (Nat.le_refl 1)
    · obtain ⟨body, c, hc, rfl, -⟩ := hs.scan []
      obtain rfl := List.mem_singleton.mp hc
      rw [List.append_assoc]
      exact .inr (.inl ⟨before, body, rest, rfl, hs⟩)
    · exact .inr (.inr ⟨before, after, rfl, hs⟩)

theorem hasBody_none (h : searchStart text = none) : ¬HasBody text body := by
  intro hbody
  cases hbody with
  | closed hfound =>
    rw [h] at hfound
    cases hfound
  | leftOpen hfound =>
    rw [h] at hfound
    cases hfound
  | later hfound =>
    rw [h] at hfound
    cases hfound

theorem after_unique {before before' after after' : Text}
    (h : searchStart text = some (before, after))
    (h' : searchStart text = some (before', after')) : after = after' :=
  (Prod.mk.inj (Option.some.inj (h.symm.trans h'))).2

theorem hasBody_closed_iff {before rest body' : Text}
    (hfound : searchStart text = some (before, body ++ '}' :: rest))
    (hbody : Closes ['{'] ['}'] 1 (body ++ ['}'])) :
    HasBody text body' ↔ body' = body ∨ HasBody rest body' := by
  have hend := findObjectEnd_closed hbody rest
  constructor
  · intro h
    cases h with
    | closed hfound' hbody' =>
      rw [after_unique hfound hfound', findObjectEnd_closed hbody'] at hend
      exact .inl (Prod.mk.inj hend).1
    | leftOpen hfound' hbody' =>
      rw [after_unique hfound hfound', show findObjectEnd body' = _ from hbody'.scan] at hend
      cases (Prod.mk.inj hend).2
    | later hfound' hbody' h =>
      rw [after_unique hfound hfound', findObjectEnd_closed hbody'] at hend
      rw [← (List.cons.inj (Prod.mk.inj hend).2).2]
      exact .inr h
  · rintro (rfl | h)
    · exact .closed hfound hbody
    · exact .later hfound hbody h

theorem hasBody_leftOpen_iff {before body' : Text}
    (hfound : searchStart text = some (before, body)) (hbody : LeavesOpen ['{'] ['}'] 1 body) :
    HasBody text body' ↔ body' = body := by
  have hend : findObjectEnd body = (body, []) := hbody.scan
  constructor
  · intro h
    cases h with
    | closed hfound' hbody' =>
      rw [after_unique hfound hfound', findObjectEnd_closed hbody'] at hend
      cases (Prod.mk.inj hend).2
    | leftOpen hfound' hbody' => exact after_unique hfound' hfound
    | later hfound' hbody' h =>
      rw [after_unique hfound hfound', findObjectEnd_closed hbody'] at hend
      cases (Prod.mk.inj hend).2
  · rintro rfl
    exact .leftOpen hfound hbody

/-- The loop over the starts ends where the loop over each body does. -/
theorem maskHeadersEnv_isSome_iff :
    (maskHeadersEnv text).isSome = true ↔
      ∀ body, HasBody text body → (maskObjectBody body).isSome = true := by
  induction hn : text.length using Nat.strong_induction_on generalizing text with
  | _ n ih =>
    subst hn
    obtain hnone | ⟨before, body, rest, hfound, hbody⟩ | ⟨before, body, hfound, hbody⟩ :=
      searchStart_cases text
    · exact iff_of_true (by rw [maskHeadersEnv_none hnone]; rfl)
        fun body h => absurd h (hasBody_none hnone)
    · have hrest : rest.length < text.length := by
        have := searchStart_length hfound
        rw [List.length_append, List.length_cons] at this
        omega
      have hmap (masked : Text) : ((maskHeadersEnv rest).map
          (before ++ masked ++ ['}'] ++ ·)).isSome = (maskHeadersEnv rest).isSome :=
        Option.isSome_map
      rw [maskHeadersEnv_closed hfound hbody, Option.isSome_bind]
      simp only [hmap, hasBody_closed_iff hfound hbody, forall_eq_or_imp, ← ih _ hrest rfl]
      cases maskObjectBody body <;> simp
    · rw [maskHeadersEnv_leftOpen hfound hbody, Option.isSome_map]
      simp only [hasBody_leftOpen_iff hfound hbody, forall_eq]

/-! ## Lengths -/

theorem maskMember_output (quote : Char) (text : Text) :
    (maskMember quote text).1.length + 12 * (maskMember quote text).2.length ≤
      12 * (text.length + 1) := by
  have hkey := congrArg List.length (readString_append quote text)
  have hgap := congrArg List.length
    (List.takeWhile_append_dropWhile (p := isBlank) (l := (readString quote text).2))
  rw [List.length_append] at hkey hgap
  unfold maskMember
  dsimp only
  split
  · next value heq =>
    have hvalue := congrArg List.length
      (List.takeWhile_append_dropWhile (p := isBlank) (l := value))
    have hskip := skipValue_le (value.dropWhile isBlank)
    have hmask : maskedValue.length = 12 := rfl
    rw [heq, List.length_cons] at hgap
    simp only [List.length_append, List.length_cons] at hvalue ⊢
    omega
  · simp only [List.length_append, List.length_cons]
    omega

theorem maskObjectBody_output (h : maskObjectBody text = some out) :
    out.length ≤ 12 * text.length := by
  fun_induction maskObjectBody text generalizing out with
  | case1 =>
    obtain rfl := Option.some.inj h
    exact Nat.le_refl _
  | case2 c text hgap ih =>
    obtain ⟨out, hout, rfl⟩ := Option.map_eq_some_iff.mp h
    have := ih hout
    simp only [List.length_cons]
    omega
  | case3 c text hgap hquote _ ih =>
    obtain ⟨out, hout, rfl⟩ := Option.map_eq_some_iff.mp h
    have := ih hout
    have hmember := maskMember_output c text
    simp only [List.length_append, List.length_cons]
    omega
  | case4 => cases h
  | case5 c text hgap hquote hbrace ih =>
    obtain ⟨out, hout, rfl⟩ := Option.map_eq_some_iff.mp h
    have := ih hout
    have hskip := skipValue_length (not_or.mp hgap).2 hbrace text
    have hmask : maskedValue.length = 12 := rfl
    simp only [List.length_append, List.length_cons]
    omega

theorem searchStart_output {before after : Text} (h : searchStart text = some (before, after)) :
    before.length + after.length = text.length := by
  induction text generalizing before with
  | nil => cases h
  | cons c text ih =>
    simp only [searchStart] at h
    split at h
    · next rest hmatch =>
      have hlength := matchStart_length hmatch
      cases h
      simp only [List.length_take, List.length_cons] at hlength ⊢
      omega
    · obtain ⟨⟨before', after'⟩, hfound, heq⟩ := Option.map_eq_some_iff.mp h
      cases heq
      have : before'.length + after'.length = text.length := ih hfound
      show before'.length + 1 + after'.length = text.length + 1
      omega

theorem maskHeadersEnv_output (h : maskHeadersEnv text = some out) :
    out.length ≤ 12 * text.length := by
  induction hn : text.length using Nat.strong_induction_on generalizing text out with
  | _ n ih =>
    subst hn
    obtain hnone | ⟨before, body, rest, hfound, hbody⟩ | ⟨before, body, hfound, hbody⟩ :=
      searchStart_cases text
    · rw [maskHeadersEnv_none hnone] at h
      obtain rfl := Option.some.inj h
      omega
    · have hlength := searchStart_output hfound
      rw [List.length_append, List.length_cons] at hlength
      rw [maskHeadersEnv_closed hfound hbody] at h
      obtain ⟨masked, hmasked, h⟩ := Option.bind_eq_some_iff.mp h
      obtain ⟨out, hout, rfl⟩ := Option.map_eq_some_iff.mp h
      have hbodyOut := maskObjectBody_output hmasked
      have hrestOut := ih rest.length (by omega) hout rfl
      simp only [List.length_append, List.length_cons, List.length_nil]
      omega
    · have hlength := searchStart_output hfound
      rw [maskHeadersEnv_leftOpen hfound hbody] at h
      obtain ⟨masked, hmasked, rfl⟩ := Option.map_eq_some_iff.mp h
      have hbodyOut := maskObjectBody_output hmasked
      rw [List.length_append]
      omega

theorem replaceAll_output {part : Text} (hpart : part ≠ []) (text : Text) :
    (replaceAll part redaction text).length ≤ 10 * text.length := by
  have hlength := List.length_pos_of_ne_nil hpart
  have hredaction : redaction.length = 10 := rfl
  fun_induction replaceAll part redaction text with
  | case1 => exact Nat.le_refl _
  | case2 c text hfound ih =>
    rw [List.length_append, List.length_cons]
    rw [List.length_drop] at ih
    omega
  | case3 c text hfound ih =>
    rw [List.length_cons, List.length_cons]
    omega

theorem redactMetaMatch_output (matched value : Text) :
    (redactMetaMatch matched value).length ≤ 10 * matched.length := by
  unfold redactMetaMatch
  split_ifs with hvalue
  · omega
  · exact replaceAll_output hvalue matched

theorem subMeta_output (metaKey text : Text) :
    (subMeta metaKey text).length ≤ 10 * text.length := by
  induction hn : text.length using Nat.strong_induction_on generalizing text with
  | _ n ih =>
    subst hn
    cases hfound : matchMeta metaKey text with
    | some found =>
      have hlength := matchMeta_length hfound
      have hrest := ih found.2.length hlength found.2 rfl
      have hmatch := redactMetaMatch_output (text.take (text.length - found.2.length)) found.1
      rw [List.length_take] at hmatch
      rw [subMeta_some hfound, List.length_append]
      omega
    | none =>
      cases text with
      | nil =>
        rw [subMeta_nil]
        exact Nat.le_refl _
      | cons c text =>
        have hrest := ih text.length (Nat.lt_succ_self _) text rfl
        rw [subMeta_cons hfound, List.length_cons, List.length_cons]
        omega

/-! ## The end -/

/-- A body that `_redact_text` scans. -/
def Scanned (text metaKey body : Text) : Prop :=
  headersEnvMarkers.any (contains · (subMeta metaKey text)) = true ∧
    HasBody (subMeta metaKey text) body

/-- `_redact_text` returns a text of a length linear in the input's, and every iteration of its
loops leaves less of the text than it found. -/
structure Ends (text metaKey : Text) : Prop where
  returns : ∃ out, redactText text metaKey = some out ∧ out.length ≤ 120 * text.length
  bodies : ∀ body, Scanned text metaKey body → ∀ passed left, Emits bodyIteration body passed left →
    ∀ passed' left', bodyIteration left = some (passed', left') → left'.length < left.length
  reads : ∀ quote t passed left, readIteration quote t = some (passed, left) →
    left.length < t.length
  brackets : ∀ opening closing depth t passed left,
    bracketIteration opening closing (depth, t) = some (passed, left) → left.2.length < t.length
  scalars : ∀ t passed left, bareIteration t = some (passed, left) → left.length < t.length
  starts : ∀ t passed left, startIteration t = some (passed, left) → left.length < t.length

theorem redactText_output (h : redactText text metaKey = some out) :
    out.length ≤ 120 * text.length := by
  have hmasked := subMeta_output metaKey text
  rw [redactText_eq] at h
  split_ifs at h
  · have := maskHeadersEnv_output h
    omega
  · obtain rfl := Option.some.inj h
    omega

theorem redactText_isSome_iff :
    (redactText text metaKey).isSome = true ↔
      ∀ body, Scanned text metaKey body → (maskObjectBody body).isSome = true := by
  rw [redactText_eq]
  split_ifs with hmarker
  · rw [maskHeadersEnv_isSome_iff]
    exact forall_congr' fun body => ⟨fun h hbody => h hbody.2, fun h hbody => h ⟨hmarker, hbody⟩⟩
  · exact iff_of_true rfl fun body hbody => absurd hbody.1 hmarker

/-- The redactor ends exactly where no body has a closing brace at a key or behind a bare run. -/
theorem redactText_ends_iff (text metaKey : Text) :
    Ends text metaKey ↔ ∀ body, Scanned text metaKey body → Fits .key body := by
  constructor
  · intro h body hbody
    obtain ⟨out, hout, -⟩ := h.returns
    have hsome : (redactText text metaKey).isSome = true := by
      rw [hout]
      rfl
    exact masks_iff_fits.mp (redactText_isSome_iff.mp hsome body hbody)
  · intro h
    have hmasks (body : Text) (hbody : Scanned text metaKey body) :
        (maskObjectBody body).isSome = true := masks_iff_fits.mpr (h body hbody)
    obtain ⟨out, hout⟩ := Option.isSome_iff_exists.mp (redactText_isSome_iff.mpr hmasks)
    exact {
      returns := ⟨out, hout, redactText_output hout⟩
      bodies := fun body hbody _ _ hrun _ _ hstep =>
        bodyIteration_progress (hmasks body hbody) hrun hstep
      reads := fun _ _ _ _ => readIteration_length
      brackets := fun _ _ _ _ _ _ => bracketIteration_length
      scalars := fun _ _ _ => bareIteration_length
      starts := fun _ _ _ => startIteration_length }

/-- The repr of a config whose one value shows an object in braces. -/
def boxedConfig : Text := "\x7b'env': \x7b'BOX': <Box \x7b\x7d>\x7d\x7d".toList

/-- The run `<Box {` ends at a closing brace, which the loop never passes. -/
theorem boxedConfig_never_ends : ¬Ends boxedConfig metaTokenKey := by
  intro h
  obtain ⟨out, hout, -⟩ := h.returns
  have hnone : redactText boxedConfig metaTokenKey = none := by decide +kernel
  rw [hnone] at hout
  cases hout

end TaiSkeleton.Connectors
