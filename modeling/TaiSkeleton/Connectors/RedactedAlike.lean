import TaiSkeleton.Connectors.MaskedBodies
import TaiSkeleton.Connectors.RedactorGuard

/-!
# Redaction hides the secrets

Two texts that show the same document but for its secrets are redacted alike where the redactor
comes to each mapping from outside of one: the pattern of the token leaves the mappings alone, and
the object of an earlier start, in a string say, does not run into a mapping.
-/

namespace TaiSkeleton.Connectors

variable {d : Dialect} {metaKey t rest more : Text}

/-! ## The loop over the starts -/

/-- The loop of `_mask_headers_env` comes to the brace at the end of the text: the object of each
start before it ends in the text. -/
inductive Reaches : Text → Prop where
  | here {text : Text} (h : searchStart text = some (text, [])) : Reaches text
  | past {text before after rest : Text} {c : Char} (h : searchStart text = some (before, after))
    (hend : (findObjectEnd after).2 = c :: rest) (hrest : Reaches rest) : Reaches text

theorem maskHeadersEnv_step {before after : Text} (h : searchStart t = some (before, after)) :
    maskHeadersEnv t = (maskObjectBody (findObjectEnd after).1).bind fun masked =>
      (maskHeadersEnv ((findObjectEnd after).2.drop 1)).map
        (before ++ masked ++ (findObjectEnd after).2.take 1 ++ ·) := by
  rw [maskHeadersEnv]
  split
  · next hnone =>
    rw [h] at hnone
    cases hnone
  · next hsome =>
    rw [h] at hsome
    cases hsome
    rfl

/-- Behind a text that the loop comes to the end of, two bodies that are masked alike make no
difference. -/
theorem maskHeadersEnv_of_reaches {body body' rest' : Text} (h : Reaches t)
    (hbody : findObjectEnd (body ++ '}' :: rest) = (body, '}' :: rest))
    (hbody' : findObjectEnd (body' ++ '}' :: rest') = (body', '}' :: rest'))
    (hmask : maskObjectBody body = maskObjectBody body')
    (hrest : maskHeadersEnv rest = maskHeadersEnv rest') :
    maskHeadersEnv (t ++ (body ++ '}' :: rest)) =
      maskHeadersEnv (t ++ (body' ++ '}' :: rest')) := by
  induction h with
  | here h =>
    rw [maskHeadersEnv_step (searchStart_more h), maskHeadersEnv_step (searchStart_more h),
      List.nil_append, List.nil_append, hbody, hbody', hmask]
    show (maskObjectBody body').bind (fun masked => (maskHeadersEnv rest).map _) =
      (maskObjectBody body').bind fun masked => (maskHeadersEnv rest').map _
    rw [hrest]
    rfl
  | past h hend _ ih =>
    rw [maskHeadersEnv_step (searchStart_more h), maskHeadersEnv_step (searchStart_more h)]
    unfold findObjectEnd at hend ⊢
    rw [scanBrackets_more hend, scanBrackets_more hend]
    simp only [List.cons_append, List.drop_succ_cons, List.drop_zero, ih]
    rfl

/-! ## The token -/

/-- No match of the token's pattern begins in the text. -/
def Untouched (metaKey t rest : Text) : Prop :=
  ∀ u ∈ t.tails, u ≠ [] → matchMeta metaKey (u ++ rest) = none

/-- A match of the token's pattern that begins in the text ends in it. -/
def Contained (metaKey t rest : Text) : Prop :=
  ∀ u ∈ t.tails, u ≠ [] → matchMeta metaKey (u ++ rest) =
    (matchMeta metaKey u).map fun found => (found.1, found.2 ++ rest)

instance : Decidable (Untouched metaKey t rest) :=
  inferInstanceAs (Decidable (∀ u ∈ t.tails, u ≠ [] → matchMeta metaKey (u ++ rest) = none))

instance : Decidable (Contained metaKey t rest) :=
  inferInstanceAs (Decidable (∀ u ∈ t.tails, u ≠ [] → matchMeta metaKey (u ++ rest) =
    (matchMeta metaKey u).map fun found => (found.1, found.2 ++ rest)))

theorem subMeta_some {found : Text × Text} (h : matchMeta metaKey t = some found) :
    subMeta metaKey t =
      redactMetaMatch (t.take (t.length - found.2.length)) found.1 ++ subMeta metaKey found.2 := by
  rw [subMeta]
  split
  · next hsome =>
    rw [h] at hsome
    cases hsome
    rfl
  · next hnone =>
    rw [h] at hnone
    cases hnone

theorem subMeta_nil : subMeta metaKey [] = [] := by
  rw [subMeta]
  split
  · next hsome => exact absurd (matchMeta_length hsome) (by simp)
  · rfl

theorem subMeta_cons {c : Char} (h : matchMeta metaKey (c :: t) = none) :
    subMeta metaKey (c :: t) = c :: subMeta metaKey t := by
  rw [subMeta]
  split
  · next hsome =>
    rw [h] at hsome
    cases hsome
  · rfl

theorem matchMetaKey_suffix {found : Text × Text} (h : matchMetaKey metaKey t = some found) :
    found.2 <:+ t := by
  simp only [matchMetaKey] at h
  split at h
  · cases h
  · next rest hkey =>
    have hrest : rest <:+ t := ⟨metaKey, (stripPrefix?_eq_some.mp hkey).symm⟩
    split at h
    · next value hcolon =>
      have hvalue : value <:+ rest := by
        refine ((List.suffix_cons ':' value).trans (hcolon ▸ List.dropWhile_suffix isSpace)).trans
          ?_
        cases rest with
        | nil => exact List.suffix_rfl
        | cons c inner =>
          dsimp only
          split_ifs
          · exact List.suffix_cons c inner
          · exact List.suffix_rfl
      split at h
      · next quote quoted hquote =>
        have hquoted := List.dropWhile_suffix isSpace (l := value)
        rw [hquote] at hquoted
        split at h
        · next closing left hclosing =>
          have hleft := List.dropWhile_suffix (fun c => !isQuote c) (l := quoted)
          rw [hclosing] at hleft
          split_ifs at h
          obtain rfl := Option.some.inj h
          exact ((((List.suffix_cons closing left).trans hleft).trans
            (List.suffix_cons quote quoted)).trans hquoted).trans (hvalue.trans hrest)
        · cases h
      · cases h
    · cases h

theorem matchMeta_suffix {found : Text × Text} (h : matchMeta metaKey t = some found) :
    found.2 <:+ t := by
  cases t with
  | nil => exact matchMetaKey_suffix h
  | cons c t =>
    obtain h | ⟨-, h⟩ := Option.or_eq_some_iff.mp h
    · split_ifs at h
      exact (matchMetaKey_suffix h).trans (List.suffix_cons c t)
    · exact matchMetaKey_suffix h

theorem subMeta_untouched (h : Untouched metaKey t rest) :
    subMeta metaKey (t ++ rest) = t ++ subMeta metaKey rest := by
  induction t with
  | nil => rfl
  | cons c t ih =>
    have hnone := h (c :: t) ((List.mem_tails _ _).mpr List.suffix_rfl) (List.cons_ne_nil c t)
    have htail : Untouched metaKey t rest := fun u hu =>
      h u ((List.mem_tails _ _).mpr (((List.mem_tails _ _).mp hu).trans (List.suffix_cons c t)))
    show subMeta metaKey (c :: (t ++ rest)) = c :: (t ++ subMeta metaKey rest)
    rw [subMeta_cons (t := t ++ rest) hnone, ih htail]

theorem subMeta_contained (h : Contained metaKey t rest) :
    subMeta metaKey (t ++ rest) = subMeta metaKey t ++ subMeta metaKey rest := by
  induction hlen : t.length using Nat.strong_induction_on generalizing t with
  | _ length ih =>
    have htail : ∀ u, u <:+ t → Contained metaKey u rest := fun u hu u' hu' =>
      h u' ((List.mem_tails _ _).mpr (((List.mem_tails _ _).mp hu').trans hu))
    cases t with
    | nil =>
      rw [subMeta_nil]
      rfl
    | cons c t =>
      have hmatch := h (c :: t) ((List.mem_tails _ _).mpr List.suffix_rfl) (List.cons_ne_nil c t)
      cases hfound : matchMeta metaKey (c :: t) with
      | none =>
        rw [hfound] at hmatch
        have hrest := ih t.length (by simp [← hlen]) (htail t (List.suffix_cons c t)) rfl
        show subMeta metaKey (c :: (t ++ rest)) = _
        rw [subMeta_cons (t := t ++ rest) hmatch, subMeta_cons hfound, hrest]
        rfl
      | some found =>
        rw [hfound] at hmatch
        have hlt := matchMeta_length hfound
        have htake : ((c :: t) ++ rest).take (((c :: t) ++ rest).length - (found.2 ++ rest).length)
            = (c :: t).take ((c :: t).length - found.2.length) := by
          have hlength : ((c :: t) ++ rest).length - (found.2 ++ rest).length =
              (c :: t).length - found.2.length := by
            simp only [List.length_append]
            omega
          rw [hlength, List.take_append_of_le_length (Nat.sub_le _ _)]
        rw [subMeta_some hmatch, subMeta_some hfound, htake,
          ih found.2.length (hlen ▸ hlt) (htail found.2 (matchMeta_suffix hfound)) rfl,
          List.append_assoc]

/-- A match has the key in it. -/
theorem contains_of_matchMeta {found : Text × Text} (h : matchMeta metaKey t = some found) :
    contains metaKey t = true := by
  have hkey : ∀ u, matchMetaKey metaKey u = some found → metaKey <+: u := by
    intro u hu
    simp only [matchMetaKey] at hu
    split at hu
    · cases hu
    · next rest hprefix => exact ⟨rest, (stripPrefix?_eq_some.mp hprefix).symm⟩
  rw [contains_iff]
  cases t with
  | nil => exact (hkey [] h).isInfix
  | cons c t =>
    obtain h | ⟨-, h⟩ := Option.or_eq_some_iff.mp h
    · split_ifs at h
      exact (hkey t h).isInfix.trans (List.suffix_cons c t).isInfix
    · exact (hkey (c :: t) h).isInfix

theorem subMeta_of_not_contains (h : contains metaKey t = false) : subMeta metaKey t = t := by
  have hclear : Untouched metaKey t [] := by
    intro u hu _
    refine Option.eq_none_iff_forall_ne_some.mpr fun found hfound => ?_
    have hmem := contains_of_matchMeta hfound
    rw [List.append_nil, contains_iff] at hmem
    have hpart := hmem.trans ((List.mem_tails _ _).mp hu).isInfix
    rw [← contains_iff, h] at hpart
    cases hpart
  have hsub := subMeta_untouched hclear
  rw [List.append_nil, subMeta_nil, List.append_nil] at hsub
  exact hsub

/-! ## Parts -/

/-- Before each mapping the token's matches end, and within it none begins. -/
def Apart (d : Dialect) (metaKey : Text) : Text → List Part → Prop
  | _, [] => True
  | before, .outer text :: parts => Apart d metaKey (before ++ text) parts
  | before, .mapping start members :: parts =>
    Contained metaKey before (textOf d (.mapping start members :: parts)) ∧
      Untouched metaKey (Part.text d (.mapping start members)) (textOf d parts) ∧
      Apart d metaKey [] parts

/-- The loop of `_mask_headers_env` comes to the brace of each mapping. -/
def Reached (metaKey : Text) : Text → List Part → Prop
  | _, [] => True
  | before, .outer text :: parts => Reached metaKey (before ++ text) parts
  | before, .mapping start _ :: parts =>
    Reaches (subMeta metaKey before ++ start) ∧ Reached metaKey [] parts

/-- The parts with the tokens masked between the mappings. -/
def subParts (d : Dialect) (metaKey : Text) : Text → List Part → Text
  | before, [] => subMeta metaKey before
  | before, .outer text :: parts => subParts d metaKey (before ++ text) parts
  | before, .mapping start members :: parts =>
    subMeta metaKey before ++ (Part.text d (.mapping start members) ++ subParts d metaKey [] parts)

theorem subMeta_parts {before : Text} {parts : List Part} (h : Apart d metaKey before parts) :
    subMeta metaKey (before ++ textOf d parts) = subParts d metaKey before parts := by
  induction parts generalizing before with
  | nil =>
    show subMeta metaKey (before ++ []) = _
    rw [List.append_nil]
    rfl
  | cons part parts ih =>
    cases part with
    | outer text =>
      rw [textOf_outer, ← List.append_assoc]
      exact ih h
    | mapping start members =>
      obtain ⟨hbefore, hmapping, hrest⟩ := h
      have hsplit : textOf d (.mapping start members :: parts) =
          Part.text d (.mapping start members) ++ textOf d parts := rfl
      have hparts := ih hrest
      rw [List.nil_append] at hparts
      rw [subMeta_contained hbefore, hsplit, subMeta_untouched hmapping, hparts]
      rfl

theorem findObjectEnd_body (hd : d.Spaced) (members : List (Key × Doc)) (rest : Text) :
    findObjectEnd (bodyText d members ++ '}' :: rest) = (bodyText d members, '}' :: rest) := by
  have hbody : Balanced ['{'] ['}'] (bodyText d members) :=
    .body .object hd fun member _ => .render .object hd member.2
  rw [findObjectEnd, hbody 0, scanBrackets_end rfl (by decide) (by decide), List.append_nil]

theorem keys_of_blankValues {members members' : List (Key × Doc)}
    (h : blankValues members = blankValues members') :
    members.map Prod.fst = members'.map Prod.fst := by
  have hkeys := congrArg (List.map Prod.fst) h
  simp only [blankValues, List.map_map] at hkeys
  exact hkeys

/-- The mappings of the parts are orderly. -/
def OrderlyParts (d : Dialect) (parts : List Part) : Prop :=
  ∀ start members, .mapping start members ∈ parts → d.Spaced ∧ Orderly d members

theorem OrderlyParts.tail {part : Part} {parts : List Part}
    (h : OrderlyParts d (part :: parts)) : OrderlyParts d parts :=
  fun start members hmem => h start members (List.mem_cons_of_mem _ hmem)

/-- The masks of the mappings hide what the parts differ in. -/
theorem maskHeadersEnv_subParts {before : Text} {parts parts' : List Part}
    (halike : parts.map Part.blank = parts'.map Part.blank) (h : OrderlyParts d parts)
    (h' : OrderlyParts d parts') (hreached : Reached metaKey before parts) :
    maskHeadersEnv (subParts d metaKey before parts) =
      maskHeadersEnv (subParts d metaKey before parts') := by
  induction parts generalizing before parts' with
  | nil =>
    cases parts' with
    | nil => rfl
    | cons part' parts' => cases halike
  | cons part parts ih =>
    cases parts' with
    | nil => cases halike
    | cons part' parts' =>
      obtain ⟨hpart, hparts⟩ := List.cons.inj halike
      cases part with
      | outer text =>
        cases part' with
        | outer text' =>
          obtain rfl := Part.outer.inj hpart
          exact ih hparts h.tail h'.tail hreached
        | mapping start' members' => cases hpart
      | mapping start members =>
        cases part' with
        | outer text' => cases hpart
        | mapping start' members' =>
          obtain ⟨rfl, hvalues⟩ := Part.mapping.inj hpart
          obtain ⟨hd, horderly⟩ := h start members List.mem_cons_self
          obtain ⟨-, horderly'⟩ := h' start members' List.mem_cons_self
          have hmask : maskObjectBody (bodyText d members) =
              maskObjectBody (bodyText d members') := by
            rw [maskObjectBody_body hd horderly, maskObjectBody_body hd horderly',
              keys_of_blankValues hvalues]
          have hrest := ih hparts h.tail h'.tail hreached.2
          have hrun := maskHeadersEnv_of_reaches hreached.1
            (findObjectEnd_body hd members (subParts d metaKey [] parts))
            (findObjectEnd_body hd members' (subParts d metaKey [] parts')) hmask hrest
          simpa [subParts, Part.text] using hrun

/-! ## The guard -/

theorem literal_marker {k : Key} (h : k.isHeadersEnv = true) :
    ∃ marker ∈ headersEnvMarkers, d.key k = marker := by
  obtain h | h := (Bool.or_eq_true _ _).mp h
  · rw [beq_iff_eq.mp h]
    cases d with
    | json ensureAscii => cases ensureAscii <;> exact ⟨"\"headers\"".toList, by decide, rfl⟩
    | repr => exact ⟨"'headers'".toList, by decide, rfl⟩
  · rw [beq_iff_eq.mp h]
    cases d with
    | json ensureAscii => cases ensureAscii <;> exact ⟨"\"env\"".toList, by decide, rfl⟩
    | repr => exact ⟨"'env'".toList, by decide, rfl⟩

/-- A mapping of the parts of a document starts with a marker. -/
def Marked (parts : List Part) : Prop :=
  ∀ start members, .mapping start members ∈ parts → ∃ marker ∈ headersEnvMarkers, marker <+: start

theorem Marked.outer {parts : List Part} (text : Text) (h : Marked parts) :
    Marked (.outer text :: parts) := by
  intro start members hmem
  obtain heq | hmem := List.mem_cons.mp hmem
  · cases heq
  · exact h start members hmem

theorem Marked.append {parts parts' : List Part} (h : Marked parts) (h' : Marked parts') :
    Marked (parts ++ parts') := by
  intro start members hmem
  obtain hmem | hmem := List.mem_append.mp hmem
  · exact h start members hmem
  · exact h' start members hmem

theorem Marked.nil : Marked [] := fun _ _ hmem => nomatch hmem

theorem Marked.intercalate {sep : Text} {ls : List (List Part)} (h : ∀ l ∈ ls, Marked l) :
    Marked ([Part.outer sep].intercalate ls) := by
  induction ls with
  | nil => exact .nil
  | cons l ls ih =>
    have hls : ∀ l ∈ ls, Marked l := fun l hl => h l (List.mem_cons_of_mem _ hl)
    cases ls with
    | nil =>
      rw [List.intercalate_singleton]
      exact h l List.mem_cons_self
    | cons l' ls =>
      rw [List.intercalate_cons_cons]
      exact ((h l List.mem_cons_self).append (.outer sep .nil)).append (ih hls)

theorem marked_itemParts {items : List Doc} (h : ∀ item ∈ items, Marked (item.parts d)) :
    ∀ l ∈ itemParts d items, Marked l := by
  induction items with
  | nil => exact fun l hl => nomatch hl
  | cons item items ih =>
    intro l hl
    obtain rfl | hl := List.mem_cons.mp hl
    · exact h item List.mem_cons_self
    · exact ih (fun item hitem => h item (List.mem_cons_of_mem _ hitem)) l hl

theorem marked_memberParts {members : List (Key × Doc)}
    (h : ∀ member ∈ members, Marked (member.2.parts d)) :
    ∀ l ∈ memberParts d members, Marked l := by
  induction members with
  | nil => exact fun l hl => nomatch hl
  | cons member members ih =>
    obtain ⟨k, value⟩ := member
    intro l hl
    obtain rfl | hl := List.mem_cons.mp hl
    · have hvalue : Marked (value.parts d) := h (k, value) List.mem_cons_self
      unfold partsUnder
      split
      · next secrets =>
        split_ifs with hkey
        · intro start members hmem
          cases List.mem_singleton.mp hmem
          obtain ⟨marker, hmarker, heq⟩ := literal_marker (d := d) hkey
          exact ⟨marker, hmarker, d.keySep ++ ['{'], by rw [heq, List.append_assoc]⟩
        · exact hvalue.outer _
      · exact hvalue.outer _
    · exact ih (fun member hmember => h member (List.mem_cons_of_mem _ hmember)) l hl

theorem marked_parts (doc : Doc) : Marked (doc.parts d) := by
  induction doc using Doc.induction with
  | scalar s => exact Marked.nil.outer _
  | str s => exact Marked.nil.outer _
  | list items ih =>
    exact (Marked.outer _ (.intercalate (marked_itemParts ih))).append (Marked.nil.outer _)
  | dict members ih =>
    exact (Marked.outer _ (.intercalate (marked_memberParts ih))).append (Marked.nil.outer _)

theorem start_part_subParts {before start : Text} {members : List (Key × Doc)}
    {parts : List Part} (h : .mapping start members ∈ parts) :
    start <:+: subParts d metaKey before parts := by
  induction parts generalizing before with
  | nil => cases h
  | cons part parts ih =>
    obtain rfl | hmem := List.mem_cons.mp h
    · exact ⟨subMeta metaKey before, bodyText d members ++ ['}'] ++ subParts d metaKey [] parts,
        by simp [subParts, Part.text]⟩
    · cases part with
      | outer text => exact ih hmem
      | mapping start' members' =>
        have hpart : start <:+: subParts d metaKey [] parts := ih hmem
        exact hpart.trans ⟨subMeta metaKey before ++ Part.text d (.mapping start' members'), [],
          by simp [subParts]⟩

/-! ## The hidden secrets -/

/-- A document between its two texts, in parts. -/
def framed (d : Dialect) (before : Text) (doc : Doc) (after : Text) : List Part :=
  .outer before :: doc.parts d ++ [.outer after]

theorem textOf_framed (before after : Text) (doc : Doc) :
    textOf d (framed d before doc after) = before ++ doc.render d ++ after := by
  rw [framed, textOf_append, textOf_outer, textOf_parts]
  simp [textOf, Part.text]

/-- The redactor comes to each `headers` and `env` mapping of the text from outside of one, the
token's pattern leaves the mappings alone, and their members are told apart. -/
structure Hidden (d : Dialect) (metaKey before : Text) (doc : Doc) (after : Text) : Prop where
  orderly : OrderlyParts d (framed d before doc after)
  apart : Apart d metaKey [] (framed d before doc after)
  reached : Reached metaKey [] (framed d before doc after)

theorem marker_of_mapping {before after start : Text} {doc : Doc} {members : List (Key × Doc)}
    (h : .mapping start members ∈ framed d before doc after) :
    (headersEnvMarkers.any
      (contains · (subParts d metaKey [] (framed d before doc after)))) = true := by
  have hmarked : Marked (framed d before doc after) :=
    ((marked_parts doc).outer before).append (Marked.nil.outer after)
  obtain ⟨marker, hmarker, hstart⟩ := hmarked start members h
  rw [List.any_eq_true]
  exact ⟨marker, hmarker, contains_iff.mpr (hstart.isInfix.trans (start_part_subParts h))⟩

theorem redactText_eq :
    redactText t metaKey =
      if headersEnvMarkers.any (contains · (subMeta metaKey t)) then
        maskHeadersEnv (subMeta metaKey t)
      else some (subMeta metaKey t) := by
  have hsub : (if contains metaKey t then subMeta metaKey t else t) = subMeta metaKey t := by
    split_ifs with hkey
    · rfl
    · rw [subMeta_of_not_contains (Bool.eq_false_iff.mpr hkey)]
  unfold redactText
  rw [hsub]

theorem eq_of_no_mapping {parts parts' : List Part}
    (halike : parts.map Part.blank = parts'.map Part.blank)
    (h : ∀ start members, .mapping start members ∉ parts) : parts = parts' := by
  induction parts generalizing parts' with
  | nil =>
    cases parts' with
    | nil => rfl
    | cons part' parts' => cases halike
  | cons part parts ih =>
    cases parts' with
    | nil => cases halike
    | cons part' parts' =>
      obtain ⟨hpart, hparts⟩ := List.cons.inj halike
      have hrest := ih hparts fun start members hmem => h start members (List.mem_cons_of_mem _ hmem)
      cases part with
      | mapping start members => exact absurd List.mem_cons_self (h start members)
      | outer text =>
        cases part' with
        | mapping start' members' => cases hpart
        | outer text' => rw [Part.outer.inj hpart, hrest]

theorem exists_mapping {parts parts' : List Part} {start : Text} {members : List (Key × Doc)}
    (halike : parts.map Part.blank = parts'.map Part.blank)
    (h : .mapping start members ∈ parts) : ∃ members', .mapping start members' ∈ parts' := by
  have hmem : Part.blank (.mapping start members) ∈ parts'.map Part.blank :=
    halike ▸ List.mem_map_of_mem h
  obtain ⟨part', hpart', heq⟩ := List.mem_map.mp hmem
  cases part' with
  | outer text => cases heq
  | mapping start' members' =>
    obtain ⟨rfl, -⟩ := Part.mapping.inj heq
    exact ⟨members', hpart'⟩

/-- Two documents that differ in their secrets only are redacted alike between the same texts. -/
theorem redactText_alike {before after : Text} {doc doc' : Doc} (halike : doc.blank = doc'.blank)
    (h : Hidden d metaKey before doc after) (h' : Hidden d metaKey before doc' after) :
    redactText (before ++ doc.render d ++ after) metaKey =
      redactText (before ++ doc'.render d ++ after) metaKey := by
  have hparts : (framed d before doc after).map Part.blank =
      (framed d before doc' after).map Part.blank := by
    simp only [framed, List.map_append, List.map_cons, ← parts_blank, halike]
  by_cases hmapping : ∃ start members, .mapping start members ∈ framed d before doc after
  · obtain ⟨start, members, hmem⟩ := hmapping
    obtain ⟨members', hmem'⟩ := exists_mapping hparts hmem
    have hsub := subMeta_parts h.apart
    have hsub' := subMeta_parts h'.apart
    rw [List.nil_append, textOf_framed] at hsub hsub'
    rw [redactText_eq, redactText_eq, hsub, hsub', if_pos (marker_of_mapping hmem),
      if_pos (marker_of_mapping hmem')]
    exact maskHeadersEnv_subParts hparts h.orderly h'.orderly h.reached
  · have heq := eq_of_no_mapping hparts fun start members hmem =>
      hmapping ⟨start, members, hmem⟩
    rw [← textOf_framed, ← textOf_framed, heq]

/-! ## Two documents -/

/-- `json.dumps` with its own separators. -/
def jsonDefault : Dialect := .json true [',', ' '] [':', ' ']

/-- A request with a secret in its headers and a token in its meta field. -/
def request (secret : Doc) : Doc :=
  .dict [(.str "headers".toList, .dict [(.str "key".toList, secret), (.str "id".toList, secret)]),
    (.str "_meta".toList, .dict [(.str metaTokenKey, .str "abc".toList)])]

/-- A request whose note has the start of an object in it. -/
def notedRequest (secret : Text) : Doc :=
  .dict [(.str "note".toList, .str "'env': \x7b".toList),
    (.str "headers".toList, .dict [(.str "key".toList, .str secret)])]

theorem jsonDefault_spaced : jsonDefault.Spaced :=
  ⟨⟨[], [' '], rfl, List.all_eq_true.mp rfl, List.all_eq_true.mp rfl⟩, List.all_eq_true.mp rfl⟩

theorem request_hidden (secret : Doc)
    (hapart : Apart jsonDefault metaTokenKey []
      (framed jsonDefault "call ".toList (request secret) [])) :
    Hidden jsonDefault metaTokenKey "call ".toList (request secret) [] where
  orderly start members hmem := by
    have hmembers : members = [(.str "key".toList, secret), (.str "id".toList, secret)] := by
      simp [framed, request, Doc.parts, memberParts, partsUnder, Key.isHeadersEnv] at hmem
      exact hmem.2
    rw [hmembers]
    refine ⟨jsonDefault_spaced, fun member _ hquote => ?_, fun _ _ _ => rfl⟩
    cases hquote
  apart := hapart
  reached := ⟨.here (by decide +kernel), trivial⟩

/-- A text and a number as the secrets of a request. -/
theorem request_alike :
    redactText ("call ".toList ++ (request (.str "a, 'b'\x7d".toList)).render jsonDefault ++ [])
        metaTokenKey =
      redactText ("call ".toList ++ (request (.scalar (.bool true))).render jsonDefault ++ [])
        metaTokenKey :=
  redactText_alike (by rfl)
    (request_hidden _ ⟨by decide +kernel, by decide +kernel, trivial⟩)
    (request_hidden _ ⟨by decide +kernel, by decide +kernel, trivial⟩)

/-- The object that starts in the note runs into the headers, and their values are shown. -/
theorem shown_behind_note :
    (notedRequest "a, 'first'".toList).blank = (notedRequest "a, 'second'".toList).blank ∧
    redactText ([] ++ (notedRequest "a, 'first'".toList).render jsonDefault ++ []) metaTokenKey =
      some "\x7b\"note\": \"'env': \x7b\", \"\"**********\", 'first'\"\x7d\x7d".toList ∧
    redactText ([] ++ (notedRequest "a, 'second'".toList).render jsonDefault ++ []) metaTokenKey =
      some "\x7b\"note\": \"'env': \x7b\", \"\"**********\", 'second'\"\x7d\x7d".toList ∧
    redactText ([] ++ (notedRequest "a, 'first'".toList).render jsonDefault ++ []) metaTokenKey ≠
      redactText ([] ++ (notedRequest "a, 'second'".toList).render jsonDefault ++ [])
        metaTokenKey := by
  refine ⟨by rfl, by decide +kernel, by decide +kernel, by decide +kernel⟩

end TaiSkeleton.Connectors
