import TaiSkeleton.Authz.Check
import Mathlib.Data.List.Infix
import Mathlib.Data.List.TakeWhile

/-!
# Templates by their segments

A route template whose parameters fill whole segments is filled segment by segment, and a path
that it makes is read back along it in one way only.
-/

namespace TaiSkeleton.Authz

open Lib App AccessControl

/-! ## The segments of a template -/

/-- A segment of a template: literal text, or one parameter. -/
inductive TemplateSegment where
  | literal (text : Path)
  | param (name : Path) (converter : Option Path)
deriving DecidableEq

/-- The parameter spans segments. -/
def TemplateSegment.spans : TemplateSegment → Bool
  | .literal _ => false
  | .param _ converter => converter == some multiSegmentConverter

/-- The segment is a parameter. -/
def TemplateSegment.isParam : TemplateSegment → Bool
  | .literal _ => false
  | .param _ _ => true

/-- What the text of a segment is: a parameter where `_PATH_PARAM` takes all of it. -/
def segmentOf (text : Path) : TemplateSegment :=
  match if text.head? = some '{' then pathParam text.tail else none with
  | some (name, converter, length) =>
    if length = text.tail.length then .param name converter else .literal text
  | none => .literal text

/-- The segments of a template. -/
def templateSegments (template : Path) : List TemplateSegment :=
  (template.splitOn '/').map segmentOf

/-- The text of a segment is literal or one parameter; no other brace opens in it. -/
def Filled (text : Path) : Prop :=
  '{' ∉ text ∨ (segmentOf text).isParam = true ∧ '{' ∉ text.tail

instance (text : Path) : Decidable (Filled text) := inferInstanceAs (Decidable (_ ∨ _))

/-- The parameters of a template fill whole segments, and at most one of them spans several. -/
structure WholeSegments (template : Path) : Prop where
  filled : ∀ text ∈ template.splitOn '/', Filled text
  single : (templateSegments template).countP TemplateSegment.spans ≤ 1

instance (template : Path) : Decidable (WholeSegments template) :=
  decidable_of_iff ((∀ text ∈ template.splitOn '/', Filled text) ∧
    (templateSegments template).countP TemplateSegment.spans ≤ 1)
    ⟨fun h => ⟨h.1, h.2⟩, fun h => ⟨h.filled, h.single⟩⟩

/-- The arguments of a template's parameters, in the order of the template. -/
def pathArguments (args : CallArguments) (template : Path) : List (Path × Path) :=
  (templateSegments template).filterMap fun
    | .literal _ => none
    | .param name _ => (args.lookup (String.ofList name)).map fun value => (name, value)

/-- The ways to read a path along a template: a parameter takes one segment, and one that spans
segments takes one or more. -/
inductive SplitsAlong : List TemplateSegment → List Path → List (Path × Path) → Prop
  | nil : SplitsAlong [] [] []
  | literal {text : Path} {template : List TemplateSegment} {path : List Path}
      {values : List (Path × Path)} :
      SplitsAlong template path values →
      SplitsAlong (.literal text :: template) (text :: path) values
  | segment {name value : Path} {converter : Option Path} {template : List TemplateSegment}
      {path : List Path} {values : List (Path × Path)} :
      converter ≠ some multiSegmentConverter → SplitsAlong template path values →
      SplitsAlong (.param name converter :: template) (value :: path) ((name, value) :: values)
  | rest {name : Path} {taken : List Path} {template : List TemplateSegment} {path : List Path}
      {values : List (Path × Path)} :
      taken ≠ [] → SplitsAlong template path values →
      SplitsAlong (.param name (some multiSegmentConverter) :: template) (taken ++ path)
        ((name, ['/'].intercalate taken) :: values)

namespace SplitsAlong

variable {template : List TemplateSegment} {path : List Path} {values values' : List (Path × Path)}

/-- Without a parameter that spans segments, a path has as many segments as its template. -/
theorem length_eq (h : SplitsAlong template path values)
    (hsingle : template.countP TemplateSegment.spans = 0) : path.length = template.length := by
  induction h with
  | nil => rfl
  | literal _ ih =>
    rw [List.countP_cons_of_neg (by simp [TemplateSegment.spans])] at hsingle
    rw [List.length_cons, List.length_cons, ih hsingle]
  | segment hconverter _ ih =>
    rw [List.countP_cons_of_neg (by simpa [TemplateSegment.spans] using hconverter)] at hsingle
    rw [List.length_cons, List.length_cons, ih hsingle]
  | rest _ _ _ =>
    rw [List.countP_cons_of_pos (by simp [TemplateSegment.spans])] at hsingle
    exact absurd hsingle (Nat.succ_ne_zero _)

/-- With at most one such parameter, a path is read in one way. -/
theorem unique (h : SplitsAlong template path values) (h' : SplitsAlong template path values')
    (hsingle : template.countP TemplateSegment.spans ≤ 1) : values = values' := by
  induction h generalizing values' with
  | nil =>
    cases h'
    rfl
  | literal _ ih =>
    rw [List.countP_cons_of_neg (by simp [TemplateSegment.spans])] at hsingle
    cases h' with
    | literal h' => exact ih h' hsingle
  | @segment name value converter template path values hconverter _ ih =>
    rw [List.countP_cons_of_neg (by simpa [TemplateSegment.spans] using hconverter)] at hsingle
    generalize hwhole : value :: path = whole at h'
    cases h' with
    | segment _ h' =>
      obtain ⟨rfl, rfl⟩ := List.cons.inj hwhole
      rw [ih h' hsingle]
    | rest _ _ => exact absurd rfl hconverter
  | @rest name taken template path values hne hrest ih =>
    rw [List.countP_cons_of_pos (by simp [TemplateSegment.spans])] at hsingle
    have hnone : template.countP TemplateSegment.spans = 0 := by omega
    generalize hwhole : taken ++ path = whole at h'
    cases h' with
    | segment hconverter _ => exact absurd rfl hconverter
    | @rest _ taken' _ path' values' hne' h' =>
      have hlength : path.length = path'.length :=
        (hrest.length_eq hnone).trans (h'.length_eq hnone).symm
      obtain ⟨rfl, rfl⟩ := List.append_inj' hwhole hlength
      rw [ih h' (by omega)]

end SplitsAlong

/-! ## The text of a parameter -/

/-- The text of a parameter after its brace. -/
def paramText (name : Path) (converter : Option Path) : Path :=
  name ++ converter.elim [] (fun converter => ':' :: converter) ++ ['}']

/-- A name and a converter that the pattern takes whole. -/
structure Spelled (name : Path) (converter : Option Path) : Prop where
  nonempty : name ≠ []
  name : ∀ c ∈ name, c ≠ '}' ∧ c ≠ ':'
  converter : ∀ text, converter = some text → text ≠ [] ∧ ∀ c ∈ text, c ≠ '}'

theorem pathParam_eq_some {text name : Path} {converter : Option Path} {length : ℕ}
    (h : pathParam text = some (name, converter, length)) :
    Spelled name converter ∧ length = (paramText name converter).length ∧
      ∃ after, text = paramText name converter ++ after := by
  have hname : ∀ c ∈ text.takeWhile fun c => c != '}' && c != ':', c ≠ '}' ∧ c ≠ ':' := by
    intro c hc
    simpa using List.mem_takeWhile_imp hc
  have hwhole := List.prefix_append_drop (List.takeWhile_prefix (l := text)
    fun c => c != '}' && c != ':')
  unfold pathParam at h
  dsimp only at h
  split_ifs at h with hnil
  split at h
  · next rest hdrop =>
    obtain ⟨rfl, rfl, rfl⟩ : _ = name ∧ none = converter ∧ _ = length := by simpa using h
    refine ⟨⟨hnil, hname, nofun⟩, by simp [paramText], rest, ?_⟩
    rw [hdrop] at hwhole
    simpa [paramText] using hwhole
  · next rest hdrop =>
    split_ifs at h with hconverter
    obtain ⟨hne, hclosed⟩ := hconverter
    obtain ⟨rfl, rfl, rfl⟩ : _ = name ∧ some _ = converter ∧ _ = length := by simpa using h
    obtain ⟨after, hafter⟩ := List.isPrefixOf_iff_prefix.mp hclosed
    have hrest := List.prefix_append_drop (List.takeWhile_prefix (l := rest) (· != '}'))
    refine ⟨⟨hnil, hname, fun text htext => ?_⟩, by simp [paramText]; omega, after, ?_⟩
    · obtain rfl := Option.some.inj htext
      exact ⟨hne, fun c hc => by simpa using List.mem_takeWhile_imp hc⟩
    · rw [hdrop] at hwhole
      rw [← hafter] at hrest
      calc text = _ ++ ':' :: rest := hwhole
        _ = _ ++ ':' :: (_ ++ (['}'] ++ after)) := by rw [← hrest]
        _ = _ := by simp [paramText]
  · cases h

theorem takeWhile_append_stop {α : Type} {p : α → Bool} {a rest : List α} {x : α}
    (ha : ∀ c ∈ a, p c = true) (hx : p x = false) : (a ++ x :: rest).takeWhile p = a := by
  rw [List.takeWhile_append_of_pos ha, List.takeWhile_cons_of_neg (by simp [hx]), List.append_nil]

theorem pathParam_append {name : Path} {converter : Option Path} (h : Spelled name converter)
    (after : Path) : pathParam (paramText name converter ++ after) =
      some (name, converter, (paramText name converter).length) := by
  have hname : ∀ c ∈ name, (c != '}' && c != ':') = true := fun c hc => by simpa using h.name c hc
  cases converter with
  | none =>
    have htext : paramText name none ++ after = name ++ '}' :: after := by simp [paramText]
    rw [htext]
    unfold pathParam
    rw [takeWhile_append_stop hname (by decide)]
    simp [h.nonempty, paramText]
  | some converter =>
    obtain ⟨hne, hconverter⟩ := h.converter converter rfl
    have htext : paramText name (some converter) ++ after =
        name ++ ':' :: (converter ++ '}' :: after) := by
      simp [paramText]
    have hstop : (converter ++ '}' :: after).takeWhile (· != '}') = converter :=
      takeWhile_append_stop (fun c hc => by simpa using hconverter c hc) (by decide)
    rw [htext]
    unfold pathParam
    rw [takeWhile_append_stop hname (by decide)]
    simp [h.nonempty, hstop, hne, paramText]
    omega

theorem segmentOf_paramText {name : Path} {converter : Option Path} (h : Spelled name converter) :
    segmentOf ('{' :: paramText name converter) = .param name converter := by
  have hparam := pathParam_append h []
  rw [List.append_nil] at hparam
  simp [segmentOf, hparam]

theorem segmentOf_of_not_mem {text : Path} (h : '{' ∉ text) : segmentOf text = .literal text := by
  have hhead : text.head? ≠ some '{' := fun hhead => h (List.mem_of_head? hhead)
  simp [segmentOf, hhead]

theorem segmentOf_eq_literal {text literal : Path} (h : segmentOf text = .literal literal) :
    text = literal := by
  unfold segmentOf at h
  split at h
  · split_ifs at h
    exact TemplateSegment.literal.inj h
  · exact TemplateSegment.literal.inj h

theorem Filled.cases {text : Path} (h : Filled text) : '{' ∉ text ∨
    ∃ name converter, Spelled name converter ∧ text = '{' :: paramText name converter ∧
      '{' ∉ paramText name converter := by
  rcases h with h | ⟨hparam, htail⟩
  · exact .inl h
  right
  unfold segmentOf at hparam
  split at hparam
  · next name converter length hfound =>
    split_ifs at hfound with hhead
    obtain ⟨hspelled, hlength, after, hafter⟩ := pathParam_eq_some hfound
    split_ifs at hparam with hall
    · have hnil : after = [] := by
        rw [hall, hafter, List.length_append] at hlength
        exact List.length_eq_zero_iff.mp (by omega)
      rw [hnil, List.append_nil] at hafter
      rw [hafter] at htail
      refine ⟨name, converter, hspelled, ?_, htail⟩
      rw [← hafter]
      exact (List.cons_head?_tail hhead).symm
    · cases hparam
  · cases hparam

/-! ## The path that a call synthesizes -/

variable {op : OperationMetadata} {args : CallArguments}

/-- The segments that a segment of the template becomes. -/
def fillText (args : CallArguments) (text : Path) : List Path :=
  match segmentOf text with
  | .literal text => [text]
  | .param name _ => ((args.lookup (String.ofList name)).getD []).splitOn '/'

/-- The call has an argument that may fill the parameter. -/
def Fillable (args : CallArguments) (text : Path) : Prop :=
  ∀ name converter, segmentOf text = .param name converter →
    ∃ value, args.lookup (String.ofList name) = some value ∧
      (converter = some multiSegmentConverter ∨ '/' ∉ value) ∧
      ∀ segment ∈ value.splitOn '/', segment ∉ unsafeSegments

theorem substitute_eq_ok {name value : Path} {converter : Option Path} :
    substitute op args name converter = .ok value ↔
      args.lookup (String.ofList name) = some value ∧
        (converter = some multiSegmentConverter ∨ '/' ∉ value) ∧
        ∀ segment ∈ value.splitOn '/', segment ∉ unsafeSegments := by
  unfold substitute
  cases hlookup : args.lookup (String.ofList name) with
  | none => simp
  | some found =>
    simp only [bind_eq_ok, ensure_eq_ok, pure_eq_ok, Option.some.injEq]
    constructor
    · rintro ⟨_, hspans, _, hsafe, hvalue⟩
      obtain rfl := Except.ok.inj hvalue
      exact ⟨rfl, by simpa using hspans, by simpa using hsafe⟩
    · rintro ⟨rfl, hspans, hsafe⟩
      exact ⟨(), by simpa using hspans, (), by simpa using hsafe, rfl⟩

theorem substituteTemplate_skip (text after : Path) :
    substituteTemplate op args (text ++ after) text.length =
      substituteTemplate op args after 0 := by
  induction text with
  | nil => rfl
  | cons c text ih =>
    rw [List.cons_append, List.length_cons, substituteTemplate]
    exact ih

theorem substituteTemplate_literal {text after path : Path} (h : '{' ∉ text) :
    substituteTemplate op args (text ++ after) 0 = .ok path ↔
      ∃ rest, substituteTemplate op args after 0 = .ok rest ∧ path = text ++ rest := by
  induction text generalizing path with
  | nil => simp
  | cons c text ih =>
    have hc : c ≠ '{' := fun hc => h (hc ▸ List.mem_cons_self)
    rw [List.cons_append, substituteTemplate, if_neg hc]
    simp only [bind_eq_ok, ih fun hmem => h (List.mem_cons_of_mem c hmem)]
    constructor
    · rintro ⟨_, ⟨rest, hrest, rfl⟩, hpath⟩
      exact ⟨rest, hrest, (Except.ok.inj hpath).symm⟩
    · rintro ⟨rest, hrest, rfl⟩
      exact ⟨_, ⟨rest, hrest, rfl⟩, rfl⟩

/-- The first segment of a template is filled on its own. -/
theorem substituteTemplate_append {text after path : Path} (h : Filled text) :
    substituteTemplate op args (text ++ after) 0 = .ok path ↔
      Fillable args text ∧ ∃ rest, substituteTemplate op args after 0 = .ok rest ∧
        path = ['/'].intercalate (fillText args text) ++ rest := by
  rcases h.cases with h | ⟨name, converter, hspelled, rfl, h⟩
  · have hsegment := segmentOf_of_not_mem h
    rw [substituteTemplate_literal h]
    simp [Fillable, fillText, hsegment]
  · have hsegment := segmentOf_paramText hspelled
    rw [List.cons_append, substituteTemplate, if_pos rfl, pathParam_append hspelled]
    simp only [bind_eq_ok, substituteTemplate_skip, substitute_eq_ok]
    have hfill : ∀ value, args.lookup (String.ofList name) = some value →
        ['/'].intercalate (fillText args ('{' :: paramText name converter)) = value := by
      intro value hvalue
      simp [fillText, hsegment, hvalue]
    constructor
    · rintro ⟨value, ⟨hvalue, hsafe⟩, rest, hrest, hpath⟩
      refine ⟨fun name' converter' hparam => ?_, rest, hrest, ?_⟩
      · obtain ⟨rfl, rfl⟩ := TemplateSegment.param.inj (hsegment.symm.trans hparam)
        exact ⟨value, hvalue, hsafe⟩
      · rw [hfill value hvalue]
        exact (Except.ok.inj hpath).symm
    · rintro ⟨hfillable, rest, hrest, rfl⟩
      obtain ⟨value, hvalue, hsafe⟩ := hfillable name converter hsegment
      refine ⟨value, ⟨hvalue, hsafe⟩, rest, hrest, ?_⟩
      rw [hfill value hvalue]
      rfl

theorem substituteTemplate_slash {after path : Path} :
    substituteTemplate op args ('/' :: after) 0 = .ok path ↔
      ∃ rest, substituteTemplate op args after 0 = .ok rest ∧ path = '/' :: rest :=
  have hslash : '{' ∉ ['/'] := by decide
  substituteTemplate_literal hslash

theorem fillText_ne_nil (text : Path) : fillText args text ≠ [] := by
  unfold fillText
  split
  · exact List.cons_ne_nil _ _
  · exact List.splitOn_ne_nil _ _

theorem flatMap_fillText_ne_nil {texts : List Path} (h : texts ≠ []) :
    texts.flatMap (fillText args) ≠ [] := by
  obtain ⟨text, texts, rfl⟩ := List.exists_cons_of_ne_nil h
  rw [List.flatMap_cons]
  exact List.append_ne_nil_of_left_ne_nil (fillText_ne_nil text) _

/-- A template whose parameters fill whole segments is filled segment by segment. -/
theorem substituteTemplate_intercalate {texts : List Path} {path : Path} (hne : texts ≠ [])
    (h : ∀ text ∈ texts, Filled text) :
    substituteTemplate op args (['/'].intercalate texts) 0 = .ok path ↔
      (∀ text ∈ texts, Fillable args text) ∧
        path = ['/'].intercalate (texts.flatMap (fillText args)) := by
  induction texts generalizing path with
  | nil => exact absurd rfl hne
  | cons text texts ih =>
    have hfirst := h text List.mem_cons_self
    cases texts with
    | nil =>
      have hlast : text = text ++ [] := (List.append_nil text).symm
      rw [List.intercalate_singleton, hlast, substituteTemplate_append hfirst]
      simp [substituteTemplate]
    | cons next texts =>
      have hnext : next :: texts ≠ [] := List.cons_ne_nil _ _
      have hrest : ∀ path, substituteTemplate op args (['/'].intercalate (next :: texts)) 0 =
          .ok path ↔ _ := fun _ => ih hnext fun text hmem => h text (List.mem_cons_of_mem _ hmem)
      rw [intercalate_cons_cons, substituteTemplate_append hfirst, List.flatMap_cons,
        intercalate_append (fillText_ne_nil text) (flatMap_fillText_ne_nil hnext)]
      simp only [substituteTemplate_slash, hrest, List.forall_mem_cons]
      constructor
      · rintro ⟨htext, _, ⟨_, ⟨hfillable, rfl⟩, rfl⟩, rfl⟩
        exact ⟨⟨htext, hfillable⟩, rfl⟩
      · rintro ⟨⟨htext, hfillable⟩, rfl⟩
        exact ⟨htext, _, ⟨_, ⟨hfillable, rfl⟩, rfl⟩, rfl⟩

/-! ## The segments of the path -/

theorem not_slash_of_mem_fillText {text segment : Path} (htext : '/' ∉ text)
    (h : segment ∈ fillText args text) : '/' ∉ segment := by
  unfold fillText at h
  split at h
  · next literal hliteral =>
    rwa [List.mem_singleton.mp h, ← segmentOf_eq_literal hliteral]
  · exact not_mem_of_mem_splitOn h

/-- The segments of a filled template are those that its segments become. -/
theorem splitOn_intercalate_fillText {texts : List Path} (hne : texts ≠ [])
    (h : ∀ text ∈ texts, '/' ∉ text) :
    (['/'].intercalate (texts.flatMap (fillText args))).splitOn '/' =
      texts.flatMap (fillText args) := by
  refine List.splitOn_intercalate _ (fun segment hmem => ?_) (flatMap_fillText_ne_nil hne)
  obtain ⟨text, htext, hmem⟩ := List.mem_flatMap.mp hmem
  exact not_slash_of_mem_fillText (h text htext) hmem

/-- A parameter that does not span segments becomes one. -/
theorem length_fillText {text : Path} (hfillable : Fillable args text)
    (h : (segmentOf text).spans = false) : (fillText args text).length = 1 := by
  unfold fillText
  split
  · rfl
  · next name converter hparam =>
    obtain ⟨value, hvalue, hspans, -⟩ := hfillable name converter hparam
    rw [hparam] at h
    have hslash : '/' ∉ value := hspans.resolve_left (by simpa [TemplateSegment.spans] using h)
    rw [hvalue, Option.getD_some, List.splitOn_eq_singleton hslash, List.length_singleton]

/-- The filled path is read back as the arguments. -/
theorem splitsAlong_fillText {texts : List Path} (h : ∀ text ∈ texts, Fillable args text) :
    SplitsAlong (texts.map segmentOf) (texts.flatMap (fillText args))
      ((texts.map segmentOf).filterMap fun
        | .literal _ => none
        | .param name _ => (args.lookup (String.ofList name)).map fun value => (name, value)) := by
  induction texts with
  | nil => exact .nil
  | cons text texts ih =>
    have hrest := ih fun text hmem => h text (List.mem_cons_of_mem _ hmem)
    have hfill : fillText args text = match segmentOf text with
      | .literal text => [text]
      | .param name _ => ((args.lookup (String.ofList name)).getD []).splitOn '/' := rfl
    rw [List.map_cons, List.flatMap_cons]
    cases hsegment : segmentOf text with
    | literal literal =>
      rw [hfill, hsegment]
      exact .literal hrest
    | param name converter =>
      obtain ⟨value, hvalue, hspans, -⟩ := h text List.mem_cons_self name converter hsegment
      rw [hfill, hsegment]
      simp only [List.filterMap_cons, hvalue, Option.map_some, Option.getD_some]
      by_cases hconverter : converter = some multiSegmentConverter
      · subst hconverter
        have htaken : SplitsAlong (.param name (some multiSegmentConverter) :: _) _ _ :=
          .rest (List.splitOn_ne_nil '/' value) hrest
        rwa [List.intercalate_splitOn] at htaken
      · rw [List.splitOn_eq_singleton (hspans.resolve_left hconverter)]
        exact .segment hconverter hrest

end TaiSkeleton.Authz
