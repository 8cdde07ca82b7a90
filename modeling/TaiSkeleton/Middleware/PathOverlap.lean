import TaiSkeleton.Middleware.PathValues

/-!
# A `:path` value that overlaps itself

A `:path` value of several segments is replaced as a run. A run that begins before the router's
and ends inside it leaves a part of the router's run. All of the value's segments stand before the
router's run then, so what is left reads as literals of the template, or is a value that is taken
later. The output is a template if and only if no such part is left.
-/

namespace TaiSkeleton.AuditLog

open Lib

variable {template : RouteTemplate} {values : Text → Text} {name : Text} {segment : Marked}
  {back : List PathSegment}

/-! ## No value of several segments -/

theorem mem_names_of_mem_map_fst
    (h : name ∈ (sortedNamed (template.pathParams values)).map Prod.fst) :
    name ∈ template.names := by
  obtain ⟨pair, hpair, rfl⟩ := List.mem_map.mp h
  exact (mem_names_of_mem_sortedNamed hpair).1

theorem templated_of_slashFree (hextracts : template.Extracts values)
    (h : ∀ pair ∈ sortedNamed (template.pathParams values), '/' ∉ pair.2) :
    template.Templated values := by
  have hrewritten : template.rewritten values =
      (template.marked values).map (rename (sortedNamed (template.pathParams values))) :=
    rewriteAll_eq_map h _
  -- only the empty value of a `:path` parameter is not taken
  have hwritten : ∀ segment ∈ template.rewritten values,
      template.Written segment ∨ segment = ⟨[], .matched⟩ := by
    intro segment hmem
    rw [hrewritten] at hmem
    obtain ⟨before, hbefore, rfl⟩ := List.mem_map.mp hmem
    rcases mem_marked hbefore with ⟨single, hsingle, rfl⟩ | ⟨name, back, htail, part, hpart, rfl⟩
    · refine .inl (written_rename_single (fun name => mem_names_of_mem_map_fst) hsingle ?_)
      intro name hparam
      exact List.mem_map_of_mem (mem_sortedNamed_of_param hextracts hparam)
    · rcases rename_cases (sortedNamed (template.pathParams values)) ⟨part, .matched⟩ with
        ⟨name', hname', heq⟩ | ⟨heq, hnot⟩
      · exact .inl (.inl ⟨name', mem_names_of_mem_map_fst hname', heq⟩)
      · have hname : (name, values name) ∈ template.pathParams values :=
          mem_pathParams.mpr ⟨mem_names.mpr (.inr ⟨back, htail⟩), rfl⟩
        refine .inr ?_
        by_cases hempty : values name = []
        · rw [hempty, List.splitOn_eq_singleton List.not_mem_nil, List.mem_singleton] at hpart
          rw [heq, hpart]
        · have htaken := mem_sortedNamed.mpr ⟨hname, hempty⟩
          rw [List.splitOn_eq_singleton (h _ htaken), List.mem_singleton] at hpart
          rw [hpart] at hnot
          exact absurd (List.mem_map_of_mem htaken) hnot
  constructor
  · intro text hmem
    rw [splitOn_output hextracts] at hmem
    obtain ⟨segment, hsegment, rfl⟩ := List.mem_map.mp hmem
    rcases hwritten segment hsegment with hwritten | rfl
    · exact hwritten.text_named
    · exact .inr (mem_singles_of_front template.rooted)
  · intro segment hmem hmatched
    rcases hwritten segment hmem with hwritten | rfl
    · exact absurd hmatched hwritten.not_matched
    · rfl

theorem leftOver_singleton (value : Text) (before after : List Text) :
    leftOver [value] before after = [] := by
  have hcovered : coveredFrom [value] 0 before < 1 := coveredFrom_lt Nat.one_pos
  unfold leftOver
  dsimp only
  rw [if_pos (Nat.lt_one_iff.mp hcovered)]

theorem intact_of_slashFree
    (h : ∀ name back, template.tail = some (name, back) → '/' ∉ values name) :
    template.Intact values := by
  intro name back htail segment hmem
  unfold RouteTemplate.leftOf at hmem
  rw [List.splitOn_eq_singleton (h name back htail), leftOver_singleton] at hmem
  cases hmem

/-! ## The values before and after the `:path` value -/

/-- A list is cut at the one element that fails the test. -/
theorem takeWhile_append_cons {α : Type} {p : α → Bool} {a : α} {l : List α} (hmem : a ∈ l)
    (ha : p a = false) (hone : ∀ b ∈ l, p b = false → b = a) :
    l = l.takeWhile p ++ a :: (l.dropWhile p).tail := by
  induction l with
  | nil => cases hmem
  | cons b l ih =>
    cases hb : p b with
    | false =>
      rw [List.takeWhile_cons_of_neg (by simp [hb]), List.dropWhile_cons_of_neg (by simp [hb]),
        hone b List.mem_cons_self hb]
      rfl
    | true =>
      have hne : a ≠ b := by
        rintro rfl
        exact Bool.noConfusion (ha.symm.trans hb)
      rw [List.takeWhile_cons_of_pos hb, List.dropWhile_cons_of_pos hb, List.cons_append,
        ← ih (List.mem_of_ne_of_mem hne hmem) fun c hc => hone c (List.mem_cons_of_mem _ hc)]

theorem sortedNamed_eq (h : (name, values name) ∈ sortedNamed (template.pathParams values)) :
    sortedNamed (template.pathParams values) = ahead name (template.pathParams values) ++
      (name, values name) :: behind name (template.pathParams values) := by
  refine takeWhile_append_cons h (by simp) fun pair hmem hpair => ?_
  have hname : pair.1 = name := by simpa using hpair
  exact Prod.ext hname (hname ▸ (mem_names_of_mem_sortedNamed hmem).2)

variable (template values) in
theorem nodup_sortedNamed :
    ((sortedNamed (template.pathParams values)).map Prod.fst).Nodup := by
  have hnames : (template.pathParams values).map Prod.fst = template.names := by
    unfold RouteTemplate.pathParams
    rw [List.map_map]
    exact List.map_id _
  have hnodup : ((template.pathParams values).map Prod.fst).Nodup := hnames ▸ template.distinct
  exact ((List.perm_insertionSort _ _).map _).nodup_iff.mpr
    (hnodup.sublist (List.filter_sublist.map _))

/-- The values beside the `:path` value have one segment each. -/
theorem mem_beside (htail : template.tail = some (name, back))
    (htaken : (name, values name) ∈ sortedNamed (template.pathParams values)) {pair : Text × Text}
    (h : pair ∈ ahead name (template.pathParams values) ∨
      pair ∈ behind name (template.pathParams values)) :
    pair.1 ∈ template.names ∧ .param pair.1 ∈ template.singles ∧ pair.2 = values pair.1 := by
  have hsorted := sortedNamed_eq htaken
  have hnodup := nodup_sortedNamed template values
  have hmem : pair ∈ sortedNamed (template.pathParams values) := by
    rw [hsorted, List.mem_append, List.mem_cons]
    exact h.imp_right .inr
  have hne : pair.1 ≠ name := by
    rw [hsorted, List.map_append, List.map_cons, List.nodup_append, List.nodup_cons] at hnodup
    rcases h with h | h
    · exact hnodup.2.2 _ (List.mem_map_of_mem h) _ List.mem_cons_self
    · intro heq
      have hbehind : pair.1 ∈ (behind name (template.pathParams values)).map Prod.fst :=
        List.mem_map_of_mem h
      rw [heq] at hbehind
      exact hnodup.2.1.1 hbehind
  obtain ⟨hname, hvalue⟩ := mem_names_of_mem_sortedNamed hmem
  refine ⟨hname, (mem_names.mp hname).resolve_right ?_, hvalue⟩
  rintro ⟨back', htail'⟩
  rw [htail] at htail'
  cases htail'
  exact hne rfl

theorem names_of_beside (htail : template.tail = some (name, back))
    (htaken : (name, values name) ∈ sortedNamed (template.pathParams values))
    {named : List (Text × Text)} (h : ∀ pair ∈ named,
      pair ∈ ahead name (template.pathParams values) ∨
        pair ∈ behind name (template.pathParams values)) :
    ∀ name' ∈ named.map Prod.fst, name' ∈ template.names := by
  intro name' hname'
  obtain ⟨pair, hpair, rfl⟩ := List.mem_map.mp hname'
  exact (mem_beside htail htaken (h pair hpair)).1

theorem mem_sortedNamed_of_tail (htail : template.tail = some (name, back))
    (hne : values name ≠ []) : (name, values name) ∈ sortedNamed (template.pathParams values) :=
  mem_sortedNamed.mpr ⟨mem_pathParams.mpr ⟨mem_names.mpr (.inr ⟨back, htail⟩), rfl⟩, hne⟩

theorem length_le_of_mem_ahead
    (htaken : (name, values name) ∈ sortedNamed (template.pathParams values)) {pair : Text × Text}
    (h : pair ∈ ahead name (template.pathParams values)) :
    (values name).length ≤ pair.2.length := by
  have hsorted := pairwise_sortedNamed (template.pathParams values)
  rw [sortedNamed_eq htaken, List.pairwise_append] at hsorted
  exact hsorted.2.2 _ h _ List.mem_cons_self

theorem length_lt_of_mem_splitOn {value part : Text} (hslash : '/' ∈ value)
    (h : part ∈ value.splitOn '/') : part.length < value.length := by
  refine lt_of_le_of_ne (infix_of_mem_splitOn h).length_le fun hlength => ?_
  rw [(infix_of_mem_splitOn h).eq_of_length hlength] at h
  exact not_mem_of_mem_splitOn h hslash

/-- The longer values are in no segment of the `:path` value. -/
theorem rename_part (htaken : (name, values name) ∈ sortedNamed (template.pathParams values))
    (hslash : '/' ∈ values name) {part : Text} (hpart : part ∈ (values name).splitOn '/') :
    rename (ahead name (template.pathParams values)) ⟨part, .matched⟩ = ⟨part, .matched⟩ := by
  refine rename_of_not_mem fun hvalue => ?_
  obtain ⟨pair, hpair, heq⟩ := List.mem_map.mp hvalue
  have hlength := length_le_of_mem_ahead htaken hpair
  rw [heq] at hlength
  exact absurd (length_lt_of_mem_splitOn hslash hpart) (Nat.not_lt.mpr hlength)

/-! ## What the `:path` value leaves -/

theorem rewriteAll_append (named named' : List (Text × Text)) (pair : Text × Text)
    (segments : List Marked) :
    rewriteAll Marked.text markName (named ++ pair :: named') segments =
      rewriteAll Marked.text markName named' (replaceFrom Marked.text (pair.2.splitOn '/')
        (markName pair.1) 0 (rewriteAll Marked.text markName named segments)) := by
  unfold rewriteAll
  rw [List.foldl_append]
  rfl

/-- The path but for what the `:path` value leaves. -/
theorem rewritten_eq (hextracts : template.Extracts values)
    (htail : template.tail = some (name, back)) (hslash : '/' ∈ values name) :
    ∃ left done : List Marked, left.map Marked.text = template.leftOf values name back ∧
      (∀ segment ∈ left, segment.origin = .matched) ∧
      (∀ segment ∈ done, segment = markName name ∨ ∃ single ∈ template.singles,
        segment = rename (ahead name (template.pathParams values)) (single.marked values)) ∧
      ∀ segment, segment ∈ template.rewritten values ↔
        ∃ before, (before ∈ left ∨ before ∈ done) ∧
          segment = rename (behind name (template.pathParams values)) before := by
  have htaken := mem_sortedNamed_of_tail htail (List.ne_nil_of_mem hslash)
  have hbeside : ∀ pair, pair ∈ ahead name (template.pathParams values) ∨
      pair ∈ behind name (template.pathParams values) → '/' ∉ pair.2 := by
    intro pair hpair
    obtain ⟨-, hparam, hvalue⟩ := mem_beside htail htaken hpair
    rw [hvalue]
    exact (hextracts _ hparam).2
  let run : List Marked := ((values name).splitOn '/').map (⟨·, .matched⟩)
  have hrun : run.map (rename (ahead name (template.pathParams values))) = run := by
    refine (List.map_congr_left fun segment hmem => ?_).trans (List.map_id _)
    obtain ⟨part, hpart, rfl⟩ := List.mem_map.mp hmem
    exact rename_part htaken hslash hpart
  have hneedle : run.map Marked.text = (values name).splitOn '/' := by
    rw [List.map_map]
    exact List.map_id _
  obtain ⟨left, done, done', hleft, htext, hdone, hdone', heq⟩ :=
    exists_replaceFrom_eq (markName name) hneedle (List.splitOn_ne_nil _ _)
      ((template.front.map (PathSegment.marked values)).map
        (rename (ahead name (template.pathParams values))))
      ((back.map (PathSegment.marked values)).map
        (rename (ahead name (template.pathParams values))))
  have hrewritten : template.rewritten values =
      (done ++ left ++ done').map (rename (behind name (template.pathParams values))) := by
    unfold RouteTemplate.rewritten
    rw [sortedNamed_eq htaken, rewriteAll_append,
      rewriteAll_eq_map fun pair hpair => hbeside pair (.inl hpair),
      rewriteAll_eq_map fun pair hpair => hbeside pair (.inr hpair)]
    unfold RouteTemplate.marked
    rw [htail]
    show (replaceFrom _ _ _ 0 ((_ ++ (run ++ _)).map _)).map _ = _
    rw [List.map_append, List.map_append, hrun, ← List.append_assoc, heq]
  refine ⟨left, done ++ done', ?_, ?_, ?_, ?_⟩
  · have htexts : ∀ singles : List PathSegment, ((singles.map (PathSegment.marked values)).map
        (rename (ahead name (template.pathParams values)))).map Marked.text = singles.map
          fun single => renameText (ahead name (template.pathParams values))
            (single.marked values).text := by
      intro singles
      rw [List.map_map, List.map_map]
      exact List.map_congr_left fun single _ => text_rename _
    rw [htext, htexts, htexts]
    rfl
  · intro segment hmem
    obtain ⟨part, -, rfl⟩ := List.mem_map.mp (hleft segment hmem)
    rfl
  · intro segment hmem
    rcases List.mem_append.mp hmem with hmem | hmem
    · refine (hdone segment hmem).imp_right fun hfront => ?_
      obtain ⟨before, hbefore, rfl⟩ := List.mem_map.mp hfront
      obtain ⟨single, hsingle, rfl⟩ := List.mem_map.mp hbefore
      exact ⟨single, mem_singles_of_front hsingle, rfl⟩
    · refine (hdone' segment hmem).imp_right fun hback => ?_
      obtain ⟨before, hbefore, rfl⟩ := List.mem_map.mp hback
      obtain ⟨single, hsingle, rfl⟩ := List.mem_map.mp hbefore
      exact ⟨single, mem_singles_of_back htail hsingle, rfl⟩
  · intro segment
    rw [hrewritten, List.mem_map]
    constructor
    · rintro ⟨before, hmem, rfl⟩
      refine ⟨before, ?_, rfl⟩
      rw [List.mem_append, List.mem_append] at hmem
      rcases hmem with (hmem | hmem) | hmem
      · exact .inr (List.mem_append_left _ hmem)
      · exact .inl hmem
      · exact .inr (List.mem_append_right _ hmem)
    · rintro ⟨before, hmem | hmem, rfl⟩
      · exact ⟨before, List.mem_append_left _ (List.mem_append_right _ hmem), rfl⟩
      · refine ⟨before, ?_, rfl⟩
        rcases List.mem_append.mp hmem with hmem | hmem
        · exact List.mem_append_left _ (List.mem_append_left _ hmem)
        · exact List.mem_append_right _ hmem

/-- But for what the `:path` value leaves, the output is a template. -/
theorem written_of_done (hextracts : template.Extracts values)
    (htail : template.tail = some (name, back)) (hslash : '/' ∈ values name)
    (h : segment = markName name ∨ ∃ single ∈ template.singles,
      segment = rename (ahead name (template.pathParams values)) (single.marked values)) :
    template.Written (rename (behind name (template.pathParams values)) segment) := by
  have htaken := mem_sortedNamed_of_tail htail (List.ne_nil_of_mem hslash)
  have hnamed := names_of_beside htail htaken fun _ => .inr
  have hnamed' := names_of_beside htail htaken fun _ => .inl
  rcases h with rfl | ⟨single, hsingle, rfl⟩
  · exact written_rename hnamed (.inl ⟨name, mem_names.mpr (.inr ⟨back, htail⟩), rfl⟩)
  · cases single with
    | literal text =>
      exact written_rename hnamed (written_rename hnamed' (.inr ⟨text, hsingle, rfl⟩))
    | param name' =>
      rcases rename_cases (ahead name (template.pathParams values))
        (PathSegment.marked values (.param name')) with ⟨name'', hname'', heq⟩ | ⟨heq, hnot⟩
      · rw [heq]
        exact written_rename hnamed (.inl ⟨name'', hnamed' name'' hname'', rfl⟩)
      · -- the value is not taken before the `:path` value, so it is taken after it
        have hvalue := mem_sortedNamed_of_param hextracts hsingle
        rw [sortedNamed_eq htaken, List.mem_append, List.mem_cons] at hvalue
        rcases hvalue with hvalue | hvalue | hvalue
        · exact absurd (List.mem_map_of_mem hvalue) hnot
        · cases hvalue
          exact absurd hslash (hextracts _ hsingle).2
        · rw [heq]
          rcases rename_cases (behind name (template.pathParams values))
            (PathSegment.marked values (.param name')) with ⟨name'', hname'', heq'⟩ | ⟨-, hnot'⟩
          · exact .inl ⟨name'', hnamed name'' hname'', heq'⟩
          · exact absurd (List.mem_map_of_mem hvalue) hnot'

/-- What the `:path` value leaves stands before it, so it reads as part of the template. -/
theorem text_named_of_slash (hextracts : template.Extracts values)
    (htail : template.tail = some (name, back)) (hslash : '/' ∈ values name)
    (h : segment ∈ template.rewritten values) :
    (∃ name ∈ template.names, segment.text = placeholder name) ∨
      .literal segment.text ∈ template.singles := by
  have htaken := mem_sortedNamed_of_tail htail (List.ne_nil_of_mem hslash)
  obtain ⟨left, done, htext, -, hdone, hmem⟩ := rewritten_eq hextracts htail hslash
  obtain ⟨before, hbefore | hbefore, rfl⟩ := (hmem segment).mp h
  · rcases rename_cases (behind name (template.pathParams values)) before with
      ⟨name', hname', heq⟩ | ⟨heq, hnot⟩
    · have hname := names_of_beside htail htaken (fun _ => .inr) name' hname'
      exact .inl ⟨name', hname, congrArg Marked.text heq⟩
    · have hleft : before.text ∈ template.leftOf values name back := by
        rw [← htext]
        exact List.mem_map_of_mem hbefore
      obtain ⟨single, hsingle, hfront⟩ := List.mem_map.mp (mem_of_mem_leftOver hleft)
      have hwritten := written_of_done hextracts htail hslash
        (.inr ⟨single, mem_singles_of_front hsingle, rfl⟩)
      rw [← text_rename] at hfront
      rw [← hfront] at hnot
      rw [rename_of_not_mem hnot] at hwritten
      rw [heq, ← hfront]
      exact hwritten.text_named
  · exact (written_of_done hextracts htail hslash (hdone before hbefore)).text_named

theorem removed_iff_intact (hextracts : template.Extracts values)
    (htail : template.tail = some (name, back)) (hslash : '/' ∈ values name) :
    (∀ segment ∈ template.rewritten values, segment.origin = .matched → segment.text = []) ↔
      template.Intact values := by
  obtain ⟨left, done, htext, hmatched, hdone, hmem⟩ := rewritten_eq hextracts htail hslash
  have htexts : ∀ segment ∈ left, segment.text ∈ template.leftOf values name back := by
    intro segment hleft
    rw [← htext]
    exact List.mem_map_of_mem hleft
  constructor
  · intro h name' back' htail' text hleft
    rw [htail] at htail'
    cases htail'
    rw [← htext] at hleft
    obtain ⟨segment, hsegment, rfl⟩ := List.mem_map.mp hleft
    by_cases hlater : segment.text ∈ (behind name (template.pathParams values)).map Prod.snd
    · exact .inr hlater
    · exact .inl (h segment
        ((hmem segment).mpr ⟨segment, .inl hsegment, (rename_of_not_mem hlater).symm⟩)
        (hmatched segment hsegment))
  · intro h segment hsegment horigin
    obtain ⟨before, hbefore | hbefore, rfl⟩ := (hmem segment).mp hsegment
    · rcases rename_cases (behind name (template.pathParams values)) before with
        ⟨name', -, heq⟩ | ⟨heq, hnot⟩
      · rw [heq] at horigin
        cases horigin
      · rw [heq]
        exact (h name back htail _ (htexts before hbefore)).resolve_right hnot
    · exact absurd horigin
        (written_of_done hextracts htail hslash (hdone before hbefore)).not_matched

/-! ## Which lines record no path parameter -/

/-- The output's segments read as placeholders and literals. No path parameter is in it if and
only if the `:path` value leaves none. -/
theorem output_templated_iff (template : RouteTemplate) (values : Text → Text)
    (hextracts : template.Extracts values) :
    (template.output values).splitOn '/' = (template.rewritten values).map Marked.text ∧
      (∀ segment ∈ (template.output values).splitOn '/',
        (∃ name ∈ template.names, segment = placeholder name) ∨
          .literal segment ∈ template.singles) ∧
      (template.Templated values ↔ template.Intact values) := by
  have hsplit := splitOn_output hextracts
  refine ⟨hsplit, ?_⟩
  by_cases hslash : ∃ name back, template.tail = some (name, back) ∧ '/' ∈ values name
  · obtain ⟨name, back, htail, hslash⟩ := hslash
    have hnamed : ∀ segment ∈ (template.output values).splitOn '/',
        (∃ name ∈ template.names, segment = placeholder name) ∨
          .literal segment ∈ template.singles := by
      intro text htext
      rw [hsplit] at htext
      obtain ⟨segment, hsegment, rfl⟩ := List.mem_map.mp htext
      exact text_named_of_slash hextracts htail hslash hsegment
    exact ⟨hnamed, fun h => (removed_iff_intact hextracts htail hslash).mp h.removed,
      fun h => ⟨hnamed, (removed_iff_intact hextracts htail hslash).mpr h⟩⟩
  · have htail : ∀ name back, template.tail = some (name, back) → '/' ∉ values name :=
      fun name back htail hmem => hslash ⟨name, back, htail, hmem⟩
    have htemplated : template.Templated values := by
      refine templated_of_slashFree hextracts fun pair hpair => ?_
      obtain ⟨hname, hvalue⟩ := mem_names_of_mem_sortedNamed hpair
      rw [hvalue]
      rcases mem_names.mp hname with hparam | ⟨back, hback⟩
      · exact (hextracts _ hparam).2
      · exact htail _ back hback
    exact ⟨htemplated.named, iff_of_true htemplated (intact_of_slashFree htail)⟩

/-- `/a/{x}/b/{p:path}/c` -/
def pathTemplate : RouteTemplate where
  front := [.literal [], .literal "a".toList, .param "x".toList, .literal "b".toList]
  tail := some ("p".toList, [.literal "c".toList])
  rooted := by decide
  slashFree := by decide
  tail_slashFree := by decide
  distinct := by decide

def pathValues (x p name : Text) : Text := if name = "x".toList then x else p

theorem pathTemplate_extracts {x p : Text} (hne : x ≠ []) (hslash : '/' ∉ x) :
    pathTemplate.Extracts (pathValues x p) := by
  intro name hmem
  have hname : name = "x".toList := by
    simpa [RouteTemplate.singles, pathTemplate] using hmem
  rw [hname]
  exact ⟨hne, hslash⟩

theorem output_templated_of_distinct :
    pathTemplate.output (pathValues "k".toList "u/v".toList) =
        "/a/\x7bx\x7d/b/\x7bp\x7d/c".toList ∧
      pathTemplate.Templated (pathValues "k".toList "u/v".toList) :=
  ⟨by decide +kernel, (output_templated_iff pathTemplate (pathValues "k".toList "u/v".toList)
    (pathTemplate_extracts (by decide) (by decide))).2.2.mpr fun name back htail => by
      cases htail
      decide +kernel⟩

/-- The value `b/b` behind the literal `b`. -/
theorem output_keeps_value :
    pathTemplate.Extracts (pathValues "k".toList "b/b".toList) ∧
      pathTemplate.output (pathValues "k".toList "b/b".toList) =
        "/a/\x7bx\x7d/\x7bp\x7d/b/c".toList ∧
      pathTemplate.rewritten (pathValues "k".toList "b/b".toList) =
        [⟨[], .literal⟩, ⟨"a".toList, .literal⟩, markName "x".toList, markName "p".toList,
          ⟨"b".toList, .matched⟩, ⟨"c".toList, .literal⟩] ∧
      ¬ pathTemplate.Templated (pathValues "k".toList "b/b".toList) := by
  have hrewritten : pathTemplate.rewritten (pathValues "k".toList "b/b".toList) =
      [⟨[], .literal⟩, ⟨"a".toList, .literal⟩, markName "x".toList, markName "p".toList,
        ⟨"b".toList, .matched⟩, ⟨"c".toList, .literal⟩] := by
    decide +kernel
  refine ⟨pathTemplate_extracts (by decide) (by decide), by decide +kernel, hrewritten, fun h => ?_⟩
  have hremoved := h.removed ⟨"b".toList, .matched⟩ (by rw [hrewritten]; decide) rfl
  exact absurd hremoved (by decide)

end TaiSkeleton.AuditLog
