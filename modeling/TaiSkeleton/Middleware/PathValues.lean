import TaiSkeleton.Middleware.TemplatedPath

/-!
# What is left of the path values

A value of one segment is replaced wherever it stands. The value of the `:path` parameter is
replaced as a run, and a run that begins before the router's may end inside it: what is left of the
router's run then stands in literals and other values, so it reads as part of the template or is
replaced with the value it equals.
-/

namespace TaiSkeleton.AuditLog

open Lib

variable {template : RouteTemplate} {values : Text → Text} {named : List (Text × Text)}
  {name : Text} {segment : Marked} {segments : List Marked} {back : List PathSegment}

/-! ## The segments of the output -/

theorem map_rewriteAll (segments : List Marked) :
    (rewriteAll Marked.text markName named segments).map Marked.text =
      rewriteAll id placeholder named (segments.map Marked.text) := by
  induction named generalizing segments with
  | nil => rfl
  | cons pair named ih =>
    show (rewriteAll Marked.text markName named _).map Marked.text =
      rewriteAll id placeholder named _
    rw [ih, map_replaceFrom]
    rfl

theorem rewriteAll_ne_nil (h : segments ≠ []) :
    rewriteAll Marked.text markName named segments ≠ [] := by
  induction named generalizing segments with
  | nil => exact h
  | cons pair named ih => exact ih (replaceFrom_ne_nil h)

theorem mem_rewriteAll (h : segment ∈ rewriteAll Marked.text markName named segments) :
    (∃ name ∈ named.map Prod.fst, segment = markName name) ∨ segment ∈ segments := by
  induction named generalizing segments with
  | nil => exact .inr h
  | cons pair named ih =>
    rcases ih h with ⟨name, hname, heq⟩ | hmem
    · exact .inl ⟨name, List.mem_cons_of_mem _ hname, heq⟩
    · rcases mem_replaceFrom hmem with heq | hmem
      · exact .inl ⟨pair.1, List.mem_cons_self, heq⟩
      · exact .inr hmem

/-! ## The values, in their order -/

theorem mem_sortedNamed {pair : Text × Text} {pathParams : List (Text × Text)} :
    pair ∈ sortedNamed pathParams ↔ pair ∈ pathParams ∧ pair.2 ≠ [] := by
  unfold sortedNamed
  rw [List.mem_insertionSort, List.mem_filter, decide_eq_true_eq]

theorem pairwise_sortedNamed (pathParams : List (Text × Text)) :
    (sortedNamed pathParams).Pairwise fun a b => b.2.length ≤ a.2.length := by
  have : Std.Total fun a b : Text × Text => b.2.length ≤ a.2.length :=
    ⟨fun a b => Nat.le_total b.2.length a.2.length⟩
  have : IsTrans (Text × Text) fun a b => b.2.length ≤ a.2.length :=
    ⟨fun a b c hab hbc => hbc.trans hab⟩
  exact List.pairwise_insertionSort _ _

theorem mem_pathParams {pair : Text × Text} : pair ∈ template.pathParams values ↔
    pair.1 ∈ template.names ∧ pair.2 = values pair.1 := by
  unfold RouteTemplate.pathParams
  rw [List.mem_map]
  constructor
  · rintro ⟨name, hname, rfl⟩
    exact ⟨hname, rfl⟩
  · rintro ⟨hname, hvalue⟩
    exact ⟨pair.1, hname, Prod.ext rfl hvalue.symm⟩

theorem mem_names : name ∈ template.names ↔
    .param name ∈ template.singles ∨ ∃ back, template.tail = some (name, back) := by
  have hname : ∀ segments : List PathSegment,
      name ∈ segments.filterMap PathSegment.name? ↔ .param name ∈ segments := by
    intro segments
    rw [List.mem_filterMap]
    constructor
    · rintro ⟨segment, hmem, hsome⟩
      cases segment with
      | literal text => cases hsome
      | param name' =>
        cases hsome
        exact hmem
    · exact fun h => ⟨_, h, rfl⟩
  unfold RouteTemplate.names RouteTemplate.singles
  rw [List.mem_append, List.mem_append, hname]
  cases template.tail with
  | none => simp
  | some tail =>
    obtain ⟨name', back⟩ := tail
    simp only [Option.elim_some, List.mem_cons, hname, Option.some.injEq, Prod.mk.injEq,
      exists_and_left, exists_eq', and_true]
    constructor
    · rintro (h | rfl | h)
      · exact .inl (.inl h)
      · exact .inr rfl
      · exact .inl (.inr h)
    · rintro ((h | h) | rfl)
      · exact .inl h
      · exact .inr (.inr h)
      · exact .inr (.inl rfl)

/-! ## Values of one segment -/

/-- Values of one segment, replaced one after another. -/
def rename (named : List (Text × Text)) (segment : Marked) : Marked :=
  named.foldl (fun segment (name, value) => if segment.text = value then markName name else segment)
    segment

theorem rename_cons (pair : Text × Text) : rename (pair :: named) segment =
    rename named (if segment.text = pair.2 then markName pair.1 else segment) := rfl

theorem text_rename (segment : Marked) :
    (rename named segment).text = renameText named segment.text := by
  induction named generalizing segment with
  | nil => rfl
  | cons pair named ih =>
    rw [rename_cons, ih]
    by_cases hvalue : segment.text = pair.2
    · rw [if_pos hvalue]
      show _ = renameText named (if segment.text = pair.2 then placeholder pair.1 else segment.text)
      rw [if_pos hvalue]
      rfl
    · rw [if_neg hvalue]
      show _ = renameText named (if segment.text = pair.2 then placeholder pair.1 else segment.text)
      rw [if_neg hvalue]

/-- A segment is the name of a parameter, or it is as before and no value. -/
theorem rename_cases (named : List (Text × Text)) (segment : Marked) :
    (∃ name ∈ named.map Prod.fst, rename named segment = markName name) ∨
      rename named segment = segment ∧ segment.text ∉ named.map Prod.snd := by
  induction named generalizing segment with
  | nil => exact .inr ⟨rfl, List.not_mem_nil⟩
  | cons pair named ih =>
    obtain ⟨name, value⟩ := pair
    rw [rename_cons, List.map_cons, List.map_cons]
    split_ifs with hvalue
    · rcases ih (markName name) with ⟨name', hname', heq⟩ | ⟨heq, -⟩
      · exact .inl ⟨name', List.mem_cons_of_mem _ hname', heq⟩
      · exact .inl ⟨name, List.mem_cons_self, heq⟩
    · rcases ih segment with ⟨name', hname', heq⟩ | ⟨heq, hnot⟩
      · exact .inl ⟨name', List.mem_cons_of_mem _ hname', heq⟩
      · refine .inr ⟨heq, fun hmem => ?_⟩
        rcases List.mem_cons.mp hmem with hmem | hmem
        · exact hvalue hmem
        · exact hnot hmem

theorem rename_of_not_mem (h : segment.text ∉ named.map Prod.snd) :
    rename named segment = segment := by
  induction named with
  | nil => rfl
  | cons pair named ih =>
    rw [List.map_cons, List.mem_cons, not_or] at h
    rw [rename_cons, if_neg h.1]
    exact ih h.2

theorem rewriteAll_eq_map (h : ∀ pair ∈ named, '/' ∉ pair.2) (segments : List Marked) :
    rewriteAll Marked.text markName named segments = segments.map (rename named) := by
  induction named generalizing segments with
  | nil => exact (List.map_id _).symm
  | cons pair named ih =>
    show rewriteAll Marked.text markName named (replaceFrom Marked.text (pair.2.splitOn '/')
      (markName pair.1) 0 segments) = _
    rw [List.splitOn_eq_singleton (h pair List.mem_cons_self), replaceFrom_singleton,
      ih fun pair' hmem => h pair' (List.mem_cons_of_mem _ hmem), List.map_map]
    rfl

/-! ## The segments of the path -/

theorem mem_marked (h : segment ∈ template.marked values) :
    (∃ single ∈ template.singles, segment = single.marked values) ∨
      ∃ name back, template.tail = some (name, back) ∧
        ∃ part ∈ (values name).splitOn '/', segment = ⟨part, .matched⟩ := by
  unfold RouteTemplate.marked at h
  unfold RouteTemplate.singles
  rw [List.mem_append] at h
  rcases h with h | h
  · obtain ⟨single, hmem, rfl⟩ := List.mem_map.mp h
    exact .inl ⟨single, List.mem_append_left _ hmem, rfl⟩
  · cases htail : template.tail with
    | none =>
      rw [htail] at h
      cases h
    | some tail =>
      obtain ⟨name, back⟩ := tail
      rw [htail] at h
      rcases List.mem_append.mp h with h | h
      · obtain ⟨part, hmem, rfl⟩ := List.mem_map.mp h
        exact .inr ⟨name, back, rfl, part, hmem, rfl⟩
      · obtain ⟨single, hmem, rfl⟩ := List.mem_map.mp h
        exact .inl ⟨single, List.mem_append_right _ hmem, rfl⟩

theorem marked_ne_nil : template.marked values ≠ [] := by
  unfold RouteTemplate.marked
  refine List.append_ne_nil_of_left_ne_nil ?_ _
  rw [ne_eq, List.map_eq_nil_iff]
  exact List.ne_nil_of_mem template.rooted

theorem not_mem_placeholder (h : '/' ∉ name) : '/' ∉ placeholder name := by
  unfold placeholder
  simp [h]

theorem slashFree_of_mem_names (h : name ∈ template.names) : '/' ∉ name := by
  rcases mem_names.mp h with h | ⟨back, htail⟩
  · exact template.slashFree _ h
  · exact template.tail_slashFree _ htail

theorem slashFree_of_mem_marked (hextracts : template.Extracts values)
    (h : segment ∈ template.marked values) : '/' ∉ segment.text := by
  rcases mem_marked h with ⟨single, hmem, rfl⟩ | ⟨name, back, -, part, hpart, rfl⟩
  · cases single with
    | literal text => exact template.slashFree _ hmem
    | param name => exact (hextracts name hmem).2
  · exact not_mem_of_mem_splitOn hpart

theorem mem_names_of_mem_sortedNamed {pair : Text × Text}
    (h : pair ∈ sortedNamed (template.pathParams values)) :
    pair.1 ∈ template.names ∧ pair.2 = values pair.1 :=
  mem_pathParams.mp (mem_sortedNamed.mp h).1

/-- The segments of the output are those of the rewritten path. -/
theorem splitOn_output (hextracts : template.Extracts values) :
    (template.output values).splitOn '/' = (template.rewritten values).map Marked.text := by
  have hsegments : (template.path values).splitOn '/' =
      (template.marked values).map Marked.text := by
    refine List.splitOn_intercalate _ (fun text hmem => ?_) ?_
    · obtain ⟨segment, hsegment, rfl⟩ := List.mem_map.mp hmem
      exact slashFree_of_mem_marked hextracts hsegment
    · rw [ne_eq, List.map_eq_nil_iff]
      exact marked_ne_nil
  unfold RouteTemplate.output templatedPath
  rw [hsegments, ← map_rewriteAll]
  refine List.splitOn_intercalate _ (fun text hmem => ?_) ?_
  · obtain ⟨segment, hsegment, rfl⟩ := List.mem_map.mp hmem
    rcases mem_rewriteAll hsegment with ⟨name, hname, rfl⟩ | hmarked
    · obtain ⟨pair, hpair, rfl⟩ := List.mem_map.mp hname
      exact not_mem_placeholder (slashFree_of_mem_names (mem_names_of_mem_sortedNamed hpair).1)
    · exact slashFree_of_mem_marked hextracts hmarked
  · rw [ne_eq, List.map_eq_nil_iff]
    exact rewriteAll_ne_nil marked_ne_nil

/-! ## Segments with a literal, or with one value -/

/-- The name of a parameter, or a literal of the template. -/
def RouteTemplate.Written (template : RouteTemplate) (segment : Marked) : Prop :=
  (∃ name ∈ template.names, segment = markName name) ∨
    ∃ text, .literal text ∈ template.singles ∧ segment = ⟨text, .literal⟩

/-- What is replaced, is replaced with the name of a parameter. -/
theorem written_rename (hnamed : ∀ name ∈ named.map Prod.fst, name ∈ template.names)
    (h : template.Written segment) : template.Written (rename named segment) := by
  rcases rename_cases named segment with ⟨name, hname, heq⟩ | ⟨heq, -⟩
  · exact .inl ⟨name, hnamed name hname, heq⟩
  · rw [heq]
    exact h

/-- A value that is taken leaves no segment. -/
theorem written_rename_single (hnamed : ∀ name ∈ named.map Prod.fst, name ∈ template.names)
    {single : PathSegment} (hmem : single ∈ template.singles)
    (htaken : ∀ name, .param name ∈ template.singles → values name ∈ named.map Prod.snd) :
    template.Written (rename named (single.marked values)) := by
  cases single with
  | literal text => exact written_rename hnamed (.inr ⟨text, hmem, rfl⟩)
  | param name =>
    rcases rename_cases named (PathSegment.marked values (.param name)) with
      ⟨name', hname', heq⟩ | ⟨-, hnot⟩
    · exact .inl ⟨name', hnamed name' hname', heq⟩
    · exact absurd (htaken name hmem) hnot

theorem RouteTemplate.Written.text_named (h : template.Written segment) :
    (∃ name ∈ template.names, segment.text = placeholder name) ∨
      .literal segment.text ∈ template.singles := by
  rcases h with ⟨name, hname, rfl⟩ | ⟨text, hmem, rfl⟩
  · exact .inl ⟨name, hname, rfl⟩
  · exact .inr hmem

theorem RouteTemplate.Written.not_matched (h : template.Written segment) :
    segment.origin ≠ .matched := by
  rcases h with ⟨name, -, rfl⟩ | ⟨text, -, rfl⟩
  · exact Origin.noConfusion
  · exact Origin.noConfusion

/-- Each value of one segment is taken. -/
theorem mem_sortedNamed_of_param (hextracts : template.Extracts values)
    (h : .param name ∈ template.singles) :
    (name, values name) ∈ sortedNamed (template.pathParams values) :=
  mem_sortedNamed.mpr ⟨mem_pathParams.mpr ⟨mem_names.mpr (.inl h), rfl⟩, (hextracts name h).1⟩

theorem mem_singles_of_front {single : PathSegment} (h : single ∈ template.front) :
    single ∈ template.singles :=
  List.mem_append_left _ h

theorem mem_singles_of_back {single : PathSegment} (htail : template.tail = some (name, back))
    (h : single ∈ back) : single ∈ template.singles := by
  unfold RouteTemplate.singles
  rw [htail]
  exact List.mem_append_right _ h

end TaiSkeleton.AuditLog
