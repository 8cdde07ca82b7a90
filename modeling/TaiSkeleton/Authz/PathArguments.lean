import TaiSkeleton.AccessControl.FencedAudit
import TaiSkeleton.Authz.TemplateSegments

/-!
# What the arguments of a path can do

The path of a call is its route template with the arguments in it. Where the parameters of the
template fill whole segments, the path is read back in one way only, its canonical form is the
canonical template with the same arguments in it, and the route it resolves to has the template's
canonical form: no argument moves the decision to another resource.
-/

namespace TaiSkeleton.Authz

open Lib App AccessControl

variable {op : OperationMetadata} {args : CallArguments}

/-! ## The canonical form -/

theorem mem_unsafeSegments {segment : Path} :
    segment ∈ unsafeSegments ↔ segment = [] ∨ segment = ['.'] ∨ segment = ['.', '.'] := by
  simp [unsafeSegments]

theorem resolveSegments_append {segments rest resolved : List Path}
    (h : ∀ segment ∈ segments, segment ∉ unsafeSegments) :
    resolveSegments (segments ++ rest) resolved =
      resolveSegments rest (segments.reverse ++ resolved) := by
  induction segments generalizing resolved with
  | nil => rfl
  | cons segment segments ih =>
    have hsafe := h segment List.mem_cons_self
    rw [mem_unsafeSegments, not_or, not_or] at hsafe
    rw [List.cons_append, resolveSegments, if_neg (not_or.mpr ⟨hsafe.1, hsafe.2.1⟩),
      if_neg hsafe.2.2, ih fun segment hmem => h segment (List.mem_cons_of_mem _ hmem),
      List.reverse_cons, List.append_assoc, List.singleton_append]

theorem segmentOf_of_unsafe {text : Path} (h : text ∈ unsafeSegments) :
    segmentOf text = .literal text := by
  refine segmentOf_of_not_mem fun hmem => ?_
  rcases mem_unsafeSegments.mp h with rfl | rfl | rfl <;> exact absurd hmem (by decide)

theorem not_unsafe_of_mem_fillText {text segment : Path} (hfillable : Fillable args text)
    (htext : text ∉ unsafeSegments) (h : segment ∈ fillText args text) :
    segment ∉ unsafeSegments := by
  unfold fillText at h
  split at h
  · next literal hliteral =>
    rwa [List.mem_singleton.mp h, ← segmentOf_eq_literal hliteral]
  · next name converter hparam =>
    obtain ⟨value, hvalue, -, hsafe⟩ := hfillable name converter hparam
    rw [hvalue] at h
    exact hsafe segment h

/-- The segments of the path so far are those of the template so far, filled; or a parameter that
spanned segments was taken away in part, and what is left of it keeps the path longer. -/
def Synced (args : CallArguments) (texts template path : List Path) : Prop :=
  path = template.flatMap (fun text => (fillText args text).reverse) ∧
      (texts ++ template).countP (fun text => (segmentOf text).spans) ≤ 1 ∨
    template.length < path.length ∧ ∀ text ∈ texts ++ template, (segmentOf text).spans = false

namespace Synced

variable {text : Path} {texts template path : List Path}

/-- A segment that stays out changes nothing. -/
theorem skip (h : Synced args (text :: texts) template path) : Synced args texts template path := by
  rcases h with ⟨hpath, hsingle⟩ | ⟨hlonger, hnone⟩
  · refine .inl ⟨hpath, le_trans ?_ hsingle⟩
    rw [List.cons_append, List.countP_cons]
    exact Nat.le_add_right _ _
  · exact .inr ⟨hlonger, fun text hmem => hnone text (List.mem_cons_of_mem _ hmem)⟩

/-- A segment that stays is filled. -/
theorem push (hfillable : Fillable args text) (h : Synced args (text :: texts) template path) :
    Synced args texts (text :: template) ((fillText args text).reverse ++ path) := by
  have hperm : (texts ++ text :: template).Perm (text :: (texts ++ template)) := List.perm_middle
  rcases h with ⟨hpath, hsingle⟩ | ⟨hlonger, hnone⟩
  · refine .inl ⟨?_, ?_⟩
    · rw [hpath, List.flatMap_cons]
    · rwa [hperm.countP_eq]
  · refine .inr ⟨?_, fun other hmem => hnone other (hperm.mem_iff.mp hmem)⟩
    have hone := length_fillText hfillable (hnone text List.mem_cons_self)
    rw [List.length_append, List.length_reverse, hone, List.length_cons]
    omega

theorem length_flatMap (hfillable : ∀ text ∈ template, Fillable args text)
    (hnone : ∀ text ∈ template, (segmentOf text).spans = false) :
    (template.flatMap fun text => (fillText args text).reverse).length = template.length := by
  induction template with
  | nil => rfl
  | cons text template ih =>
    rw [List.forall_mem_cons] at hfillable hnone
    rw [List.flatMap_cons, List.length_append, List.length_reverse,
      length_fillText hfillable.1 hnone.1, ih hfillable.2 hnone.2, List.length_cons, Nat.add_comm]

/-- Two dots take away a segment of the template, and one segment of the path. -/
theorem pop (hfillable : ∀ text ∈ template, Fillable args text)
    (h : Synced args (text :: texts) template path) :
    Synced args texts template.tail path.tail := by
  rcases h.skip with ⟨hpath, hsingle⟩ | ⟨hlonger, hnone⟩
  · cases template with
    | nil =>
      rw [hpath]
      exact .inl ⟨rfl, hsingle⟩
    | cons last template =>
      have hfirst := hfillable last List.mem_cons_self
      have hperm : (texts ++ last :: template).Perm (last :: (texts ++ template)) :=
        List.perm_middle
      rw [hperm.countP_eq] at hsingle
      rw [hpath, List.flatMap_cons, List.tail_cons]
      cases hspans : (segmentOf last).spans with
      | false =>
        obtain ⟨filled, hfilled⟩ := List.length_eq_one_iff.mp (length_fillText hfirst hspans)
        rw [List.countP_cons_of_neg (by simp [hspans])] at hsingle
        exact .inl ⟨by simp [hfilled], hsingle⟩
      | true =>
        rw [List.countP_cons_of_pos (by exact hspans)] at hsingle
        replace hsingle := List.countP_eq_zero.mp (Nat.le_zero.mp (Nat.le_of_succ_le_succ hsingle))
        have hnone : ∀ text ∈ texts ++ template, (segmentOf text).spans = false := fun text hmem =>
          Bool.eq_false_iff.mpr (hsingle text hmem)
        have hflat := length_flatMap (fun text hmem => hfillable text (List.mem_cons_of_mem _ hmem))
          fun text hmem => hnone text (List.mem_append_right _ hmem)
        cases hfill : (fillText args last).reverse with
        | nil => exact absurd (List.reverse_eq_nil_iff.mp hfill) (fillText_ne_nil last)
        | cons first left =>
          rw [List.cons_append, List.tail_cons]
          cases left with
          | nil =>
            refine .inl ⟨rfl, ?_⟩
            rw [List.countP_eq_zero.mpr hsingle]
            exact Nat.zero_le 1
          | cons second left =>
            refine .inr ⟨?_, hnone⟩
            rw [List.length_append, hflat, List.length_cons]
            omega
  · cases template with
    | nil =>
      cases path with
      | nil => exact absurd hlonger (Nat.lt_irrefl 0)
      | cons first path =>
        cases path with
        | nil =>
          refine .inl ⟨rfl, ?_⟩
          rw [List.countP_eq_zero.mpr fun text hmem => by simp [hnone text hmem]]
          exact Nat.zero_le 1
        | cons second path => exact .inr ⟨Nat.succ_pos _, hnone⟩
    | cons last template =>
      refine .inr ⟨?_, fun text hmem => hnone text ?_⟩
      · rw [List.length_cons] at hlonger
        rw [List.tail_cons, List.length_tail]
        omega
      · rw [List.tail_cons] at hmem
        exact List.perm_middle.mem_iff.mpr (List.mem_cons_of_mem _ hmem)

/-- The canonical segments of a filled template are those of the template, filled, unless the path
has more of them. -/
theorem resolve (htexts : ∀ text ∈ texts, Fillable args text)
    (htemplate : ∀ text ∈ template, Fillable args text) (h : Synced args texts template path) :
    Synced args [] (resolveSegments texts template).reverse
      (resolveSegments (texts.flatMap (fillText args)) path).reverse := by
  induction texts generalizing template path with
  | nil => simpa [resolveSegments] using h
  | cons text texts ih =>
    rw [List.forall_mem_cons] at htexts
    rw [List.flatMap_cons, resolveSegments]
    by_cases hunsafe : text ∈ unsafeSegments
    · have hfill : fillText args text = [text] := by
        rw [fillText, segmentOf_of_unsafe hunsafe]
      rw [hfill, List.singleton_append, resolveSegments]
      split_ifs with hskip hup
      · exact ih htexts.2 htemplate h.skip
      · exact ih htexts.2 (fun text hmem => htemplate text (List.mem_of_mem_tail hmem))
          (h.pop htemplate)
      · exact absurd (mem_unsafeSegments.mp hunsafe) (by
          rw [← or_assoc]
          exact not_or.mpr ⟨hskip, hup⟩)
    · have hsafe := mem_unsafeSegments.not.mp hunsafe
      rw [← or_assoc, not_or] at hsafe
      rw [if_neg hsafe.1, if_neg hsafe.2, resolveSegments_append fun segment hmem =>
        not_unsafe_of_mem_fillText htexts.1 hunsafe hmem]
      exact ih htexts.2 (List.forall_mem_cons.mpr ⟨htexts.1, htemplate⟩) (h.push htexts.1)

end Synced

/-! ## The gate's form of a template -/

theorem gatePieces_skip (text after : Path) :
    gatePieces (text ++ after) text.length = gatePieces after 0 := by
  induction text with
  | nil => rfl
  | cons c text ih =>
    rw [List.cons_append, List.length_cons, gatePieces]
    exact ih

theorem gatePieces_literal {text after : Path} (h : '{' ∉ text) :
    gatePieces (text ++ after) 0 = text.map .char ++ gatePieces after 0 := by
  induction text with
  | nil => rfl
  | cons c text ih =>
    have hc : c ≠ '{' := fun hc => h (hc ▸ List.mem_cons_self)
    rw [List.cons_append, gatePieces, if_neg hc, ih fun hmem => h (List.mem_cons_of_mem c hmem)]
    rfl

/-- What the gate reads in the text of a segment. -/
def gateText (text : Path) : List GatePiece :=
  match segmentOf text with
  | .literal text => text.map .char
  | .param _ none => [.segment]
  | .param _ (some converter) =>
    if converter = multiSegmentConverter then [.rest] else text.map .char

/-- `}` closes the converter, so no other one reads as `:path}`. -/
theorem eq_multiSegmentConverter {converter after : Path} (hconverter : ∀ c ∈ converter, c ≠ '}')
    (h : ":path\x7d".toList <+: ':' :: (converter ++ '}' :: after)) :
    converter = multiSegmentConverter := by
  obtain ⟨rest, hrest⟩ := h
  have hwhole : multiSegmentConverter ++ '}' :: rest = converter ++ '}' :: after :=
    List.tail_eq_of_cons_eq hrest
  calc converter = (converter ++ '}' :: after).takeWhile (· != '}') :=
        (takeWhile_append_stop (fun c hc => by simpa using hconverter c hc) (by decide)).symm
    _ = (multiSegmentConverter ++ '}' :: rest).takeWhile (· != '}') := by rw [hwhole]
    _ = multiSegmentConverter :=
        takeWhile_append_stop (by simp [multiSegmentConverter]) (by decide)

theorem gateParameter_paramText {name after : Path} {converter : Option Path}
    (h : Spelled name converter) : gateParameter (paramText name converter ++ after) =
      match converter with
      | none => some (.segment, (paramText name converter).length)
      | some text =>
        if text = multiSegmentConverter then some (.rest, (paramText name converter).length)
        else none := by
  have hname : ∀ c ∈ name, (c != '}' && c != ':') = true := fun c hc => by simpa using h.name c hc
  cases converter with
  | none =>
    have htext : paramText name none ++ after = name ++ '}' :: after := by simp [paramText]
    rw [htext]
    unfold gateParameter
    rw [takeWhile_append_stop hname (by decide)]
    simp [h.nonempty, paramText]
  | some text =>
    have htext : paramText name (some text) ++ after = name ++ ':' :: (text ++ '}' :: after) := by
      simp [paramText]
    rw [htext]
    unfold gateParameter
    rw [takeWhile_append_stop hname (by decide)]
    by_cases hconverter : text = multiSegmentConverter
    · simp [h.nonempty, paramText, hconverter, multiSegmentConverter]
    · have hnot : ¬":path\x7d".toList <+: ':' :: (text ++ '}' :: after) := fun hprefix =>
        hconverter (eq_multiSegmentConverter (h.converter text rfl).2 hprefix)
      rw [← List.isPrefixOf_iff_prefix] at hnot
      simp only [List.drop_left, if_neg h.nonempty, if_neg hconverter, if_neg hnot]
      rfl

/-- The first segment of a template is read on its own. -/
theorem gatePieces_append {text after : Path} (h : Filled text) :
    gatePieces (text ++ after) 0 = gateText text ++ gatePieces after 0 := by
  rcases h.cases with hbrace | ⟨name, converter, hspelled, rfl, hbrace⟩
  · rw [gatePieces_literal hbrace, gateText, segmentOf_of_not_mem hbrace]
  · have hskip := gatePieces_skip (paramText name converter) after
    have hgate : gateText ('{' :: paramText name converter) = match converter with
        | none => [.segment]
        | some text => if text = multiSegmentConverter then [.rest]
          else ('{' :: paramText name converter).map .char := by
      rw [gateText, segmentOf_paramText hspelled]
      cases converter <;> rfl
    rw [hgate, List.cons_append, gatePieces, if_pos rfl, gateParameter_paramText hspelled]
    cases converter with
    | none => exact congrArg _ hskip
    | some text =>
      by_cases hconverter : text = multiSegmentConverter
      · simp only [if_pos hconverter]
        exact congrArg _ hskip
      · simp only [if_neg hconverter]
        exact congrArg _ (gatePieces_literal hbrace)

theorem not_mem_gateText {text : Path} (h : (segmentOf text).spans = false) :
    .rest ∉ gateText text := by
  unfold gateText
  split
  · simp
  · simp
  · next name converter hsegment =>
    rw [hsegment] at h
    have hconverter : converter ≠ multiSegmentConverter := by
      simpa [TemplateSegment.spans] using h
    rw [if_neg hconverter]
    simp

theorem count_slash_gateText {text : Path} (h : '/' ∉ text) :
    (gateText text).count (.char '/') = 0 := by
  rw [List.count_eq_zero]
  unfold gateText
  split
  · next literal hsegment =>
    rw [← segmentOf_eq_literal hsegment]
    simpa using h
  · simp
  · split_ifs
    · simp
    · simpa using h

/-- The pattern of a template has the slashes of the template, and takes any text only where a
parameter spans segments. -/
theorem gatePieces_intercalate {texts : List Path} (hne : texts ≠ [])
    (hfilled : ∀ text ∈ texts, Filled text) (hslash : ∀ text ∈ texts, '/' ∉ text)
    (hspans : ∀ text ∈ texts, (segmentOf text).spans = false) :
    .rest ∉ gatePieces (['/'].intercalate texts) 0 ∧
      (gatePieces (['/'].intercalate texts) 0).count (.char '/') + 1 = texts.length := by
  induction texts with
  | nil => exact absurd rfl hne
  | cons text texts ih =>
    rw [List.forall_mem_cons] at hfilled hslash hspans
    have hfirst := not_mem_gateText hspans.1
    have hnone := count_slash_gateText hslash.1
    cases texts with
    | nil =>
      have hlast : gatePieces (text ++ []) 0 = _ := gatePieces_append hfilled.1
      rw [List.append_nil] at hlast
      rw [List.intercalate_singleton, hlast]
      simp [gatePieces, hfirst, hnone]
    | cons next texts =>
      obtain ⟨hrest, hcount⟩ := ih (List.cons_ne_nil _ _) hfilled.2 hslash.2 hspans.2
      have hstep : gatePieces ('/' :: ['/'].intercalate (next :: texts)) 0 =
          .char '/' :: gatePieces (['/'].intercalate (next :: texts)) 0 :=
        gatePieces_literal (by decide : '{' ∉ ['/'])
      rw [intercalate_cons_cons, gatePieces_append hfilled.1, hstep]
      constructor
      · simp [hfirst, hrest]
      · rw [List.count_append, hnone, List.count_cons_self, Nat.zero_add, hcount]
        rfl

/-- Without a parameter that takes any text, a pattern fixes the number of slashes. -/
theorem count_slash_of_gateMatches {pieces : List GatePiece} {path : Path}
    (hrest : .rest ∉ pieces) (h : gateMatches pieces path = true) :
    path.count '/' = pieces.count (.char '/') := by
  induction pieces generalizing path with
  | nil =>
    rw [List.isEmpty_iff.mp h]
    rfl
  | cons piece pieces ih =>
    rw [List.mem_cons, not_or] at hrest
    cases piece with
    | char c =>
      cases path with
      | nil => cases h
      | cons d path =>
        rw [gateMatches, Bool.and_eq_true, beq_iff_eq] at h
        obtain ⟨rfl, h⟩ := h
        rw [List.count_cons, List.count_cons, ih hrest.2 h]
        simp
    | segment =>
      rw [gateMatches, splitsAs, List.any_eq_true] at h
      obtain ⟨n, -, hsplit⟩ := h
      rw [Bool.and_eq_true, isSegment, Bool.and_eq_true, List.all_eq_true] at hsplit
      obtain ⟨⟨-, hsegment⟩, hafter⟩ := hsplit
      have hnone : (path.take n).count '/' = 0 :=
        List.count_eq_zero.mpr fun hmem => by simpa using hsegment '/' hmem
      rw [← List.take_append_drop n path, List.count_append, hnone, ih hrest.2 hafter]
      simp
    | rest => exact absurd rfl hrest.1

/-! ## The route of the path -/

variable {recorded : List RouteMetadata} {route : RouteMetadata} {template path : Path}
  {method : String}

/-- What the pin has checked of a path and of its route. -/
theorem ownRoute_eq_ok (htemplate : op.routeTemplate = some template)
    (h : ownRoute op recorded path method = .ok route) :
    WellFormed path ∧ canonicalizePath template = .ok (canonical template) ∧ route ∈ recorded ∧
      canonicalizePath route.path = .ok (canonical template) ∧
      gateServes (canonical path) method route = true := by
  unfold ownRoute at h
  rw [htemplate] at h
  simp only [bind_eq_ok, mapError_eq_ok] at h
  obtain ⟨p, hpath, found, hfound, h⟩ := h
  obtain ⟨hwf, rfl⟩ := canonicalizePath_eq_ok.mp hpath
  cases found with
  | none => cases h
  | some found =>
    simp only [bind_eq_ok, mapError_eq_ok, ensure_eq_ok, beq_iff_eq] at h
    obtain ⟨resolved, hresolved, own, hown, _, rfl, hroute⟩ := h
    obtain rfl := Except.ok.inj hroute
    obtain ⟨-, rfl⟩ := canonicalizePath_eq_ok.mp hown
    have hidem := canonicalizePath_idem hpath
    obtain ⟨hwf', hsame⟩ := canonicalizePath_eq_ok.mp hidem
    obtain ⟨index, hindex, -⟩ := bind_eq_ok.mp hfound
    rw [resolveRouteMeta_eq hindex hwf', ← hsame] at hfound
    refine ⟨hwf, hown, ?_, hresolved, ?_⟩
    · rcases Option.or_eq_some_iff.mp (Except.ok.inj hfound) with h | ⟨-, h⟩
      · exact mem_loadAllRoutes.mp (List.mem_reverse.mp (List.mem_of_find?_eq_some h))
      · exact mem_loadAllRoutes.mp (List.mem_of_find?_eq_some h)
    · rcases Option.or_eq_some_iff.mp (Except.ok.inj hfound) with h | ⟨-, h⟩
      · exact (Bool.and_eq_true _ _ ▸ List.find?_some h).2
      · exact (Bool.and_eq_true _ _ ▸ List.find?_some h).2

theorem count_slash_intercalate {segments : List Path} (hne : segments ≠ [])
    (h : ∀ segment ∈ segments, '/' ∉ segment) :
    (['/'].intercalate segments).count '/' + 1 = segments.length := by
  induction segments with
  | nil => exact absurd rfl hne
  | cons segment segments ih =>
    rw [List.forall_mem_cons] at h
    have hnone := List.count_eq_zero.mpr h.1
    cases segments with
    | nil => simp [hnone]
    | cons next segments =>
      rw [intercalate_cons_cons, List.count_append, hnone, List.count_cons_self, Nat.zero_add,
        ih (List.cons_ne_nil _ _) h.2]
      rfl

/-- A route whose template spans no segments serves no path that is longer than the template. -/
theorem length_le_of_gateServes {texts segments : List Path}
    (hfilled : ∀ text ∈ texts, Filled text) (htexts : ∀ text ∈ texts, Kept text)
    (hsegments : ∀ segment ∈ segments, Kept segment)
    (hspans : ∀ text ∈ texts, (segmentOf text).spans = false)
    (hroute : canonical route.path = joinSegments texts)
    (h : gateServes (joinSegments segments) method route = true) :
    segments.length ≤ texts.length := by
  by_contra hlonger
  rw [not_le] at hlonger
  have hne : segments ≠ [] := List.ne_nil_of_length_pos (lt_of_le_of_lt (Nat.zero_le _) hlonger)
  have hsplit := splitOn_joinSegments hsegments hne
  obtain ⟨-, hserves⟩ := Bool.and_eq_true _ _ ▸ h
  by_cases hnil : texts = []
  · subst hnil
    have hconcrete : isConcrete route = true := by
      rw [isConcrete, hroute]
      decide
    rw [if_pos hconcrete, hroute, beq_iff_eq] at hserves
    rw [← hserves] at hsplit
    have hroot : segments = [[]] := (List.tail_eq_of_cons_eq hsplit).symm
    rw [hroot] at hsegments
    exact (hsegments [] List.mem_cons_self).nonempty rfl
  · split_ifs at hserves with hconcrete
    · rw [hroute, beq_iff_eq] at hserves
      rw [← hserves, splitOn_joinSegments htexts hnil] at hsplit
      rw [List.tail_eq_of_cons_eq hsplit] at hlonger
      exact Nat.lt_irrefl _ hlonger
    · have hstep : templateToRegex (joinSegments texts) =
          .char '/' :: gatePieces (['/'].intercalate texts) 0 :=
        gatePieces_literal (by decide : '{' ∉ ['/'])
      obtain ⟨hrest, hcount⟩ := gatePieces_intercalate hnil hfilled
        (fun text hmem => (htexts text hmem).slash) hspans
      rw [hroute, hstep] at hserves
      have hslashes := count_slash_of_gateMatches (by simpa using hrest) hserves
      have hpath := count_slash_intercalate hne fun segment hmem => (hsegments segment hmem).slash
      rw [joinSegments, List.count_cons_self, hpath, List.count_cons_self, hcount] at hslashes
      exact Nat.ne_of_gt hlonger hslashes

theorem substituteTemplate_joinSegments {texts : List Path} (hfilled : ∀ text ∈ texts, Filled text)
    (hfillable : ∀ text ∈ texts, Fillable args text) :
    substituteTemplate op args (joinSegments texts) 0 =
      .ok (joinSegments (texts.flatMap (fillText args))) := by
  refine substituteTemplate_slash.mpr ⟨_, ?_, rfl⟩
  cases texts with
  | nil => rfl
  | cons text texts =>
    exact (substituteTemplate_intercalate (List.cons_ne_nil _ _) hfilled).mpr ⟨hfillable, rfl⟩

/-- A synthesized path has the segments of its template, filled. -/
theorem fillable_of_synthesizePath (htemplate : op.routeTemplate = some template)
    (hwhole : WholeSegments template) (h : synthesizePath op args = .ok path) :
    (∀ text ∈ template.splitOn '/', Fillable args text) ∧
      path.splitOn '/' = (template.splitOn '/').flatMap (fillText args) := by
  have hne := List.splitOn_ne_nil '/' template
  have hjoin : ['/'].intercalate (template.splitOn '/') = template := List.intercalate_splitOn '/'
  unfold synthesizePath at h
  rw [htemplate] at h
  dsimp only at h
  rw [← hjoin, substituteTemplate_intercalate hne hwhole.filled] at h
  obtain ⟨hfillable, rfl⟩ := h
  exact ⟨hfillable, splitOn_intercalate_fillText hne fun _ => not_mem_of_mem_splitOn⟩

/-- The canonical form of the path is the canonical template, filled. -/
theorem substituteTemplate_canonical {other : OperationMetadata}
    (htemplate : op.routeTemplate = some template) (hwhole : WholeSegments template)
    (hpath : synthesizePath op args = .ok path)
    (hroute : ownRoute op recorded path method = .ok route) :
    substituteTemplate other args (canonical template) 0 = .ok (canonical path) := by
  obtain ⟨-, -, -, hown, hserves⟩ := ownRoute_eq_ok htemplate hroute
  obtain ⟨-, hown⟩ := canonicalizePath_eq_ok.mp hown
  obtain ⟨hfillable, hsplit⟩ := fillable_of_synthesizePath htemplate hwhole hpath
  have hslash : ∀ text ∈ template.splitOn '/', '/' ∉ text := fun _ => not_mem_of_mem_splitOn
  have hslashes : ∀ segment ∈ path.splitOn '/', '/' ∉ segment := fun _ => not_mem_of_mem_splitOn
  rw [hsplit] at hslashes
  have hsub : ∀ text ∈ resolveSegments (template.splitOn '/') [], text ∈ template.splitOn '/' :=
    fun text hmem => (resolveSegments_subset text hmem).resolve_right List.not_mem_nil
  have hsingle := hwhole.single
  rw [templateSegments, List.countP_map] at hsingle
  have hsynced : Synced args (template.splitOn '/') [] [] :=
    .inl ⟨rfl, by rwa [List.append_nil]⟩
  have hkept := resolveSegments_kept hslash (List.forall_mem_nil Kept)
  unfold canonical at hown hserves ⊢
  rw [hsplit] at hserves ⊢
  rcases hsynced.resolve hfillable (List.forall_mem_nil _) with ⟨hresolved, -⟩ | ⟨hlonger, hspans⟩
  · have hfilled : resolveSegments ((template.splitOn '/').flatMap (fillText args)) [] =
        (resolveSegments (template.splitOn '/') []).flatMap (fillText args) := by
      rw [← List.reverse_inj, hresolved, List.reverse_flatMap]
      rfl
    rw [hfilled]
    exact substituteTemplate_joinSegments (fun text hmem => hwhole.filled text (hsub text hmem))
      fun text hmem => hfillable text (hsub text hmem)
  · rw [List.length_reverse, List.length_reverse] at hlonger
    have hlength := length_le_of_gateServes
      (fun text hmem => hwhole.filled text (hsub text hmem)) hkept
      (resolveSegments_kept hslashes (List.forall_mem_nil Kept))
      (fun text hmem => hspans text (by simpa using hmem)) hown.symm hserves
    exact absurd hlonger (not_lt.mpr hlength)

/-! ## The pin -/

/-- What a call's arguments leave as it is: the path is read back as the arguments and in no other
way; its canonical form is the canonical template with the arguments in it; the route is one that
is registered, for the method, under the canonical form of the template, and under the template
itself if no other path has that form; no other arguments make the same path. -/
structure Pinned (op : OperationMetadata) (recorded : List RouteMetadata) (args : CallArguments)
    (template path : Path) (method : String) (route : RouteMetadata) : Prop where
  splits : ∀ values, SplitsAlong (templateSegments template) (path.splitOn '/') values ↔
    values = pathArguments args template
  canonical : ∃ own p, canonicalizePath template = .ok own ∧ canonicalizePath path = .ok p ∧
    synthesizePath { op with routeTemplate := some own } args = .ok p
  registered : route ∈ recorded ∧ method ∈ servedMethods route ∧
    canonicalizePath route.path = canonicalizePath template
  own : (∀ other ∈ recorded, method ∈ servedMethods other →
    canonicalizePath other.path = canonicalizePath template → other.path = template) →
    route.path = template
  distinct : ∀ args', synthesizePath op args' = .ok path →
    pathArguments args' template = pathArguments args template

/-- The path of a call is read back as its arguments. -/
theorem splitsAlong_pathArguments (htemplate : op.routeTemplate = some template)
    (hwhole : WholeSegments template) (h : synthesizePath op args = .ok path) :
    SplitsAlong (templateSegments template) (path.splitOn '/') (pathArguments args template) := by
  obtain ⟨hfillable, hsplit⟩ := fillable_of_synthesizePath htemplate hwhole h
  rw [hsplit]
  exact splitsAlong_fillText hfillable

/-- An argument of a path moves neither its reading nor the route it resolves to. -/
theorem pinned_of_ownRoute (htemplate : op.routeTemplate = some template)
    (hwhole : WholeSegments template) (hpath : synthesizePath op args = .ok path)
    (hroute : ownRoute op recorded path method = .ok route) :
    Pinned op recorded args template path method route := by
  obtain ⟨hwf, htemplate', hrecorded, hown, hserves⟩ := ownRoute_eq_ok htemplate hroute
  have hmethod : method ∈ servedMethods route := by
    obtain ⟨hmethod, -⟩ := Bool.and_eq_true _ _ ▸ hserves
    simpa using hmethod
  have hsplits := splitsAlong_pathArguments htemplate hwhole hpath
  refine ⟨fun values => ⟨fun hvalues => hvalues.unique hsplits hwhole.single, ?_⟩,
    ⟨_, _, htemplate', canonicalizePath_of_wellFormed hwf, ?_⟩,
    ⟨hrecorded, hmethod, hown.trans htemplate'.symm⟩,
    fun halone => halone route hrecorded hmethod (hown.trans htemplate'.symm),
    fun args' hpath' => ?_⟩
  · rintro rfl
    exact hsplits
  · exact substituteTemplate_canonical htemplate hwhole hpath hroute
  · exact (splitsAlong_pathArguments htemplate hwhole hpath').unique hsplits hwhole.single

/-- An operation, and its route, at a template. -/
def exportOperation (template : String) : OperationMetadata :=
  ⟨"export", some template.toList, none⟩

def exportRoute (template : String) : RouteMetadata :=
  ⟨template.toList, ["POST"], ["export"], .write⟩

def exportTemplate : String := "/api/export/\x7bid\x7d/\x7brest:path\x7d"

theorem pinned_export : Pinned (exportOperation exportTemplate) [exportRoute exportTemplate]
    [("id", "a.b".toList), ("rest", "x/y".toList)] exportTemplate.toList
    "/api/export/a.b/x/y".toList "POST" (exportRoute exportTemplate) :=
  pinned_of_ownRoute rfl (by decide +kernel) (by decide +kernel) (by
    unfold ownRoute resolveRouteMeta loadAllRoutes
    rw [List.mergeSort_singleton]
    decide +kernel)

/-- Its first brace opens no parameter. -/
def bracedTemplate : String := "/a\x7b/:\x7d/../:path\x7d/\x7bp:path\x7d/.."

/-- Two routes whose paths have one canonical form: the pin answers with the other one. And a brace
that opens no parameter may open one in the canonical template, along which a long argument is left
in the path. -/
theorem not_pinned_twin_and_brace :
    (WholeSegments "/api/export".toList ∧
      synthesizePath (exportOperation "/api/export") [] = .ok "/api/export".toList ∧
      ownRoute (exportOperation "/api/export")
        [exportRoute "/api/export", exportRoute "/api/export/"] "/api/export".toList "POST" =
          .ok (exportRoute "/api/export/") ∧
      (exportRoute "/api/export/").path ≠ "/api/export".toList) ∧
    (templateSegments bracedTemplate.toList).filter TemplateSegment.isParam =
        [.param "p".toList (some "path".toList)] ∧
      synthesizePath (exportOperation bracedTemplate) [("p", "x/y".toList)] =
        .ok "/a\x7b/:\x7d/../:path\x7d/x/y/..".toList ∧
      ownRoute (exportOperation bracedTemplate) [exportRoute bracedTemplate]
        "/a\x7b/:\x7d/../:path\x7d/x/y/..".toList "POST" = .ok (exportRoute bracedTemplate) ∧
      canonicalizePath bracedTemplate.toList = .ok "/a\x7b/:path\x7d".toList ∧
      canonicalizePath "/a\x7b/:\x7d/../:path\x7d/x/y/..".toList =
        .ok "/a\x7b/:path\x7d/x".toList := by
  refine ⟨⟨by decide +kernel, by decide +kernel, ?_, by decide +kernel⟩, by decide +kernel,
    by decide +kernel, ?_, by decide +kernel, by decide +kernel⟩
  · unfold ownRoute resolveRouteMeta loadAllRoutes
    rw [List.mergeSort_of_pairwise (by decide +kernel)]
    decide +kernel
  · unfold ownRoute resolveRouteMeta loadAllRoutes
    rw [List.mergeSort_singleton]
    decide +kernel

end TaiSkeleton.Authz
