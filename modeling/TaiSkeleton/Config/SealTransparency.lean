import TaiSkeleton.Config.SealWalk

/-!
# What the seal leaves alone

The seal of the resolved view is the manifest itself. A document is left as it is when no value of
it is taken for that of a marker it is paired with, and no resolved secret of it is anything but the
text that the manifest has there: a plain value that coincides with a resolved one can be paired
with its marker inside a list, or be refused there.
-/

namespace TaiSkeleton.Config

open Lib

variable {ν : Type}

/-! ## Documents -/

mutual

/-- The members of each object have names of their own. -/
def DistinctKeys : Json ν → Prop
  | .arr elements => DistinctElements elements
  | .obj members => (members.map Prod.fst).Nodup ∧ DistinctMembers members
  | _ => True

def DistinctElements : List (Json ν) → Prop
  | [] => True
  | element :: elements => DistinctKeys element ∧ DistinctElements elements

def DistinctMembers : List (String × Json ν) → Prop
  | [] => True
  | (_, value) :: members => DistinctKeys value ∧ DistinctMembers members

end

/-- A manifest document. -/
structure Document (ν : Type) where
  members : List (String × Json ν)
  distinct : DistinctKeys (.obj members)

theorem DistinctElements.mem {elements : List (Json ν)} (h : DistinctElements elements) :
    ∀ element ∈ elements, DistinctKeys element := by
  induction elements with
  | nil => simp
  | cons element elements ih => exact List.forall_mem_cons.mpr ⟨h.1, ih h.2⟩

theorem DistinctMembers.mem {members : List (String × Json ν)} (h : DistinctMembers members) :
    ∀ member ∈ members, DistinctKeys member.2 := by
  induction members with
  | nil => simp
  | cons member members ih => exact List.forall_mem_cons.mpr ⟨h.1, ih h.2⟩

theorem lookup_of_mem {members : List (String × Json ν)} (h : (members.map Prod.fst).Nodup)
    {member : String × Json ν} (hmem : member ∈ members) :
    members.lookup member.1 = some member.2 := by
  induction members with
  | nil => cases hmem
  | cons head members ih =>
    obtain ⟨key, value⟩ := head
    obtain ⟨hhead, htail⟩ := List.nodup_cons.mp h
    obtain rfl | hmem := List.mem_cons.mp hmem
    · exact List.lookup_cons_self
    · have hne : (member.1 == key) = false := by
        refine beq_eq_false_iff_ne.mpr fun heq => hhead ?_
        exact List.mem_map.mpr ⟨member, hmem, heq⟩
      simp only [List.lookup_cons, hne]
      exact ih htail hmem

/-- A secret that is found is at some position. -/
theorem exists_valueAt_of_containsSecret {secrets : List String} {v : Json ν}
    (hdistinct : DistinctKeys v) (h : containsSecret secrets v = true) :
    ∃ position s, valueAt v position = some (.str s) ∧ s ∈ secrets := by
  induction v using Json.induction with
  | null => cases h
  | bool _ => cases h
  | num _ => cases h
  | str s => exact ⟨[], s, rfl, of_decide_eq_true h⟩
  | arr elements ih =>
    obtain ⟨element, hmem, helement⟩ := containsSecretElements_iff.mp h
    obtain ⟨position, s, hleaf, hs⟩ :=
      ih element hmem (DistinctElements.mem hdistinct element hmem) helement
    obtain ⟨i, hi⟩ := List.mem_iff_getElem?.mp hmem
    exact ⟨.index i :: position, s, (valueAt_arr hi position).trans hleaf, hs⟩
  | obj members ih =>
    obtain ⟨member, hmem, hmember⟩ := containsSecretMembers_iff.mp h
    obtain ⟨position, s, hleaf, hs⟩ :=
      ih member hmem (DistinctMembers.mem hdistinct.2 member hmem) hmember
    exact ⟨.key member.1 :: position, s,
      (valueAt_obj (lookup_of_mem hdistinct.1 hmem) position).trans hleaf, hs⟩

/-! ## The resolved view -/

section

variable [PyNumber ν]

theorem pyEqMembers_iff {members members' : List (String × Json ν)} :
    pyEqMembers members members' = true ↔ ∀ member ∈ members, ∃ value,
      members'.lookup member.1 = some value ∧ pyEq member.2 value = true := by
  induction members with
  | nil => simp [pyEqMembers]
  | cons member members ih =>
    obtain ⟨key, value⟩ := member
    rw [pyEqMembers, Bool.and_eq_true, ih, List.forall_mem_cons]
    cases members'.lookup key with
    | none => simp
    | some value' => simp

theorem pyEqElements_self {elements : List (Json ν)}
    (h : ∀ element ∈ elements, pyEq element element = true) :
    pyEqElements elements elements = true := by
  induction elements with
  | nil => rfl
  | cons element elements ih =>
    obtain ⟨hhead, htail⟩ := List.forall_mem_cons.mp h
    rw [pyEqElements, hhead, ih htail]
    rfl

/-- Where no number is a NaN, a value is equal to itself. -/
theorem pyEq_self (hnum : ∀ n : ν, PyNumber.eq n n = true) {v : Json ν}
    (hdistinct : DistinctKeys v) : pyEq v v = true := by
  induction v using Json.induction with
  | null => rfl
  | bool b => exact hnum _
  | num n => exact hnum n
  | str s => exact beq_self_eq_true s
  | arr elements ih =>
    exact pyEqElements_self fun element hmem =>
      ih element hmem (DistinctElements.mem hdistinct element hmem)
  | obj members ih =>
    rw [pyEq, beq_self_eq_true, Bool.true_and]
    exact pyEqMembers_iff.mpr fun member hmem => ⟨member.2, lookup_of_mem hdistinct.1 hmem,
      ih member hmem (DistinctMembers.mem hdistinct.2 member hmem)⟩

theorem sharesIdentity_self_or_none {element : Json ν} (hself : ∀ members,
    element = .obj members → ∀ key value, members.lookup key = some value →
      pyEq value value = true) :
    sharesIdentity element element = true ∨
      ∀ candidate, sharesIdentity element candidate = false := by
  cases element with
  | obj members =>
    cases hkey : identityKey members members with
    | some key =>
      left
      have hfound := List.find?_some hkey
      rw [Bool.and_self] at hfound
      obtain ⟨value, hvalue⟩ := Option.isSome_iff_exists.mp hfound
      simp only [sharesIdentity, hkey, Json.member, hvalue, Option.getD_some]
      exact hself members rfl key value hvalue
    | none =>
      right
      intro candidate
      cases candidate with
      | obj members' =>
        have hnone : identityKey members members' = none := by
          refine List.find?_eq_none.mpr fun key hmem => ?_
          have := List.find?_eq_none.mp hkey key hmem
          simp only [Bool.and_self] at this
          simp [(Bool.not_eq_true _).mp this]
        simp only [sharesIdentity, hnone]
      | null | bool _ | num _ | str _ | arr _ => rfl
  | null | bool _ | num _ | str _ | arr _ => exact .inr fun _ => rfl

/-- An element is matched with itself when those before it are the ones that are used. -/
theorem matchListElement_self {expanded : List (Json ν)} {used : List ℕ} {i : ℕ}
    {element : Json ν} (helement : expanded[i]? = some element)
    (hused : ∀ j, j ∈ used ↔ j < i) (heq : pyEq element element = true)
    (hself : ∀ members, element = .obj members → ∀ key value, members.lookup key = some value →
      pyEq value value = true) :
    matchListElement element expanded used = some i := by
  obtain ⟨hi, rfl⟩ := List.getElem?_eq_some_iff.mp helement
  have hget : expanded.getD i .null = expanded[i] := by
    rw [List.getD_eq_getElem?_getD, helement, Option.getD_some]
  have hi_unused : i ∈ (List.range expanded.length).filter fun j => decide (j ∉ used) :=
    List.mem_filter.mpr ⟨List.mem_range.mpr hi,
      decide_eq_true (mt (hused i).mp (Nat.lt_irrefl i))⟩
  have hfind : ((List.range expanded.length).filter fun j => decide (j ∉ used)).find?
      (fun j => pyEq (expanded.getD j .null) expanded[i]) = some i := by
    rw [List.find?_filter, List.find?_range_eq_some]
    refine ⟨?_, List.mem_range.mpr hi, fun j hj => ?_⟩
    · rw [hget, heq]
      exact decide_eq_true ⟨(List.mem_filter.mp hi_unused).2, rfl⟩
    · simp [(hused j).mpr hj]
  unfold matchListElement
  simp only
  split
  · next j hone =>
    obtain hshares | hnone := sharesIdentity_self_or_none hself
    · have hmem : i ∈ [j] := by
        rw [← hone]
        refine List.mem_filter.mpr ⟨hi_unused, ?_⟩
        rw [hget]
        exact hshares
      rw [List.mem_singleton.mp hmem]
    · have hmem : j ∈ [j] := List.mem_singleton_self j
      rw [← hone] at hmem
      have := (List.mem_filter.mp hmem).2
      rw [hnone] at this
      cases this
  · exact hfind

theorem not_descends_of_str {incoming expanded : Json ν} (s : String) :
    ¬Descends incoming (.str s) expanded := by
  rintro (⟨_, _, _, -, h, -⟩ | ⟨_, _, _, -, h, -⟩) <;> cases h

theorem retagMembers_expanded {preserved expanded : List (String × Json ν)} (path : String)
    {members members' : List (String × Json ν)}
    (h : ResolvesMembers members members')
    (hmarked : ∀ member ∈ members, preserved.lookup member.1 = some member.2)
    (hresolved : ∀ member ∈ members', expanded.lookup member.1 = some member.2)
    (ih : ∀ member ∈ members, ∀ path resolved, Resolves member.2 resolved →
      (∃ name, (name, resolved) ∈ members') →
      retagEnvMarkers path resolved member.2 resolved = (member.2, [])) :
    retagMembers path members' preserved expanded = (members, []) := by
  induction members generalizing members' with
  | nil =>
    cases members' with
    | nil => rfl
    | cons _ _ => exact h.elim
  | cons member members ih' =>
    obtain ⟨key, value⟩ := member
    cases members' with
    | nil => exact h.elim
    | cons member' members' =>
      obtain ⟨key', resolved⟩ := member'
      obtain ⟨rfl, hvalue, htail⟩ := h
      obtain ⟨hmarked, hmarkeds⟩ := List.forall_mem_cons.mp hmarked
      obtain ⟨hresolved, hresolveds⟩ := List.forall_mem_cons.mp hresolved
      have hmember : retagMember path key resolved preserved expanded = (value, []) := by
        simp only [retagMember, hmarked, hresolved]
        exact ih _ List.mem_cons_self _ _ hvalue ⟨key, List.mem_cons_self⟩
      have hrest := ih' htail hmarkeds hresolveds fun member hmem path resolved hres hin =>
        ih member (List.mem_cons_of_mem _ hmem) path resolved hres
          (hin.imp fun _ => List.mem_cons_of_mem _)
      rw [retagMembers_cons, hmember, hrest]
      rfl

/-- The elements from an index on, when those before are used. -/
theorem retagElements_expanded {preserved expanded : List (Json ν)} (path : String)
    {elements elements' : List (Json ν)} {i : ℕ} {used : List ℕ}
    (h : ResolvesElements elements elements') (hmarked : preserved.drop i = elements)
    (hresolved : expanded.drop i = elements') (hused : ∀ j, j ∈ used ↔ j < i)
    (hmatch : ∀ element ∈ elements', ∀ used i, expanded[i]? = some element →
      (∀ j, j ∈ used ↔ j < i) → matchListElement element expanded used = some i)
    (ih : ∀ element ∈ elements, ∀ path resolved, Resolves element resolved →
      resolved ∈ elements' →
      retagEnvMarkers path resolved element resolved = (element, [])) :
    retagElements path i used elements' preserved expanded = (elements, []) := by
  induction elements generalizing elements' i used with
  | nil =>
    cases elements' with
    | nil => rfl
    | cons _ _ => exact h.elim
  | cons element elements ih' =>
    cases elements' with
    | nil => exact h.elim
    | cons resolved elements' =>
      have hmarked₀ : preserved[i]? = some element := by
        rw [← Nat.add_zero i, ← List.getElem?_drop, hmarked]
        rfl
      have hresolved₀ : expanded[i]? = some resolved := by
        rw [← Nat.add_zero i, ← List.getElem?_drop, hresolved]
        rfl
      have hself := hmatch resolved List.mem_cons_self used i hresolved₀ hused
      have helement : retagElement path i resolved preserved expanded (some i) =
          (element, []) := by
        simp only [retagElement, List.getD_eq_getElem?_getD, hmarked₀, hresolved₀,
          Option.getD_some]
        exact ih _ List.mem_cons_self _ _ h.1 List.mem_cons_self
      have hrest : retagElements path (i + 1) (i :: used) elements' preserved expanded =
          (elements, []) := by
        refine ih' h.2 ?_ ?_ ?_
          (fun element hmem => hmatch element (List.mem_cons_of_mem _ hmem))
          (fun element hmem path resolved hres hin =>
            ih element (List.mem_cons_of_mem _ hmem) path resolved hres
              (List.mem_cons_of_mem _ hin))
        · rw [← List.tail_drop, hmarked, List.tail_cons]
        · rw [← List.tail_drop, hresolved, List.tail_cons]
        · intro j
          rw [List.mem_cons, hused]
          omega
      rw [retagElements_cons, hself]
      show ((retagElement path i resolved preserved expanded (some i)).1 ::
        (retagElements path (i + 1) (i :: used) elements' preserved expanded).1, _ ++
          (retagElements path (i + 1) (i :: used) elements' preserved expanded).2) = _
      rw [helement, hrest]
      rfl

/-- The walk of the resolved view puts each marker back and records nothing. -/
theorem retag_expanded (hnum : ∀ n : ν, PyNumber.eq n n = true) {preserved expanded : Json ν}
    (path : String) (hviews : Resolves preserved expanded) (hdistinct : DistinctKeys preserved)
    (hdistinct' : DistinctKeys expanded) :
    retagEnvMarkers path expanded preserved expanded = (preserved, []) := by
  have hself := pyEq_self hnum hdistinct'
  induction preserved using Json.induction generalizing expanded path with
  | null =>
    obtain rfl : expanded = .null := hviews
    rfl
  | bool b =>
    obtain rfl : expanded = .bool b := hviews
    rw [retag_leaf rfl (by rintro (⟨_, _, _, h, -⟩ | ⟨_, _, _, h, -⟩) <;> cases h), if_pos hself]
  | num n =>
    obtain rfl : expanded = .num n := hviews
    rw [retag_leaf rfl (by rintro (⟨_, _, _, h, -⟩ | ⟨_, _, _, h, -⟩) <;> cases h), if_pos hself]
  | str s =>
    by_cases hmarker : isMarker (.str s : Json ν) = true
    · rw [retag_marker hmarker, if_pos hself]
    · have hplain := (Bool.not_eq_true _).mp hmarker
      obtain rfl := hviews hplain
      rw [retag_leaf hplain (not_descends_of_str s), if_pos hself]
  | arr elements ih =>
    obtain ⟨elements', rfl, hviews⟩ := hviews
    have hdistinct'' := DistinctElements.mem hdistinct'
    have hrest := retagElements_expanded path hviews List.drop_zero List.drop_zero
      (show ∀ j, j ∈ ([] : List ℕ) ↔ j < 0 by simp)
      (fun element hmem used i hget hused => matchListElement_self hget hused
        (pyEq_self hnum (hdistinct'' element hmem)) fun members heq key value hlookup => by
          subst heq
          exact pyEq_self hnum (DistinctMembers.mem (hdistinct'' _ hmem).2 _
            (mem_of_lookup hlookup)))
      fun element hmem path resolved hres hin => ih element hmem path hres
        (DistinctElements.mem hdistinct element hmem) (hdistinct'' resolved hin)
        (pyEq_self hnum (hdistinct'' resolved hin))
    rw [retag_arr, hrest]
  | obj members ih =>
    obtain ⟨members', rfl, hviews⟩ := hviews
    have hrest := retagMembers_expanded path hviews
      (fun member hmem => lookup_of_mem hdistinct.1 hmem)
      (fun member hmem => lookup_of_mem hdistinct'.1 hmem)
      fun member hmem path resolved hres ⟨name, hin⟩ => by
        have hresolved := DistinctMembers.mem hdistinct'.2 _ hin
        exact ih member hmem path hres (DistinctMembers.mem hdistinct.2 member hmem) hresolved
          (pyEq_self hnum hresolved)
    rw [retag_obj, hrest]

/-! ## Documents that are left as they are -/

/-- No value is taken for that of a marker it is paired with, and each secret is the text that both
views of the manifest have at the position it is paired with. -/
structure SealKeeps (secret : String → Prop) (document preserved expanded : Json ν) : Prop where
  marker : ∀ position position' value marker resolved,
    Paired document preserved expanded position position' →
    valueAt document position = some value → valueAt preserved position' = some marker →
    isMarker marker = true → valueAt expanded position' = some resolved →
    pyEq resolved value = true → value = marker
  text : ∀ position s, valueAt document position = some (.str s) → secret s →
    ∃ position', Paired document preserved expanded position position' ∧
      valueAt preserved position' = some (.str s) ∧ valueAt expanded position' = some (.str s)

variable {path : String} {document preserved expanded : Json ν} {secret : String → Prop}
  {position position' : List Step}

theorem Paired.flat (h : Paired document preserved expanded position position')
    (hflat : ¬Descends document preserved expanded) : position = [] ∧ position' = [] := by
  cases h with
  | here => exact ⟨rfl, rfl⟩
  | key _ _ _ _ => exact absurd (.inl ⟨_, _, _, rfl, rfl, rfl⟩) hflat
  | index _ _ _ _ _ => exact absurd (.inr ⟨_, _, _, rfl, rfl, rfl⟩) hflat

theorem retagMembers_lookup_of {members preserved expanded : List (String × Json ν)}
    {name : String} {value : Json ν} (h : members.lookup name = some value) :
    (retagMembers path members preserved expanded).1.lookup name =
      some (retagMember path name value preserved expanded).1 := by
  induction members with
  | nil => cases h
  | cons member members ih =>
    obtain ⟨key, value'⟩ := member
    rw [retagMembers_cons]
    by_cases hname : name = key
    · subst hname
      rw [List.lookup_cons_self] at h ⊢
      rw [Option.some.inj h]
    · have hne : (name == key) = false := beq_eq_false_iff_ne.mpr hname
      simp only [List.lookup_cons, hne] at h ⊢
      exact ih h

theorem retagElements_getElem?_of {elements preserved expanded : List (Json ν)} {i n : ℕ}
    {used : List ℕ} {element : Json ν} {j : Option ℕ} (h : elements[i]? = some element)
    (hj : (matchedIndices expanded used elements)[i]? = some j) :
    (retagElements path n used elements preserved expanded).1[i]? =
      some (retagElement path (n + i) element preserved expanded j).1 := by
  induction elements generalizing i n used with
  | nil => cases h
  | cons element' elements ih =>
    rw [retagElements_cons]
    cases i with
    | zero =>
      obtain rfl := Option.some.inj h
      obtain rfl := Option.some.inj hj
      rfl
    | succ i =>
      rw [show n + (i + 1) = n + 1 + i by omega]
      exact ih h hj

/-- A value that is equal to the one of the marker it is paired with becomes the marker. -/
theorem retag_paired (h : Paired document preserved expanded position position')
    {value marker resolved : Json ν} (hvalue : valueAt document position = some value)
    (hmarker : valueAt preserved position' = some marker) (hismarker : isMarker marker = true)
    (hresolved : valueAt expanded position' = some resolved) (heq : pyEq resolved value = true)
    (path : String) :
    valueAt (retagEnvMarkers path document preserved expanded).1 position = some marker := by
  induction h generalizing path with
  | here =>
    simp only [valueAt_nil, Option.some.injEq] at hvalue hmarker hresolved ⊢
    subst hvalue hmarker hresolved
    rw [retag_marker hismarker, if_pos heq]
  | key hmember hmarked hexpanded _ ih =>
    rw [valueAt_obj hmember] at hvalue
    rw [valueAt_obj hmarked] at hmarker
    rw [valueAt_obj hexpanded] at hresolved
    rw [retag_obj, valueAt_obj (retagMembers_lookup_of hmember)]
    simp only [retagMember, hmarked, hexpanded]
    exact ih hvalue hmarker hresolved _
  | index helement hmatched hmarked hexpanded _ ih =>
    rw [valueAt_arr helement] at hvalue
    rw [valueAt_arr hmarked] at hmarker
    rw [valueAt_arr hexpanded] at hresolved
    rw [retag_arr, valueAt_arr (retagElements_getElem?_of helement hmatched)]
    simp only [retagElement, List.getD_eq_getElem?_getD, hmarked, hexpanded, Option.getD_some]
    exact ih hvalue hmarker hresolved _

/-- The walk leaves a document as it is and records no secret. -/
def Untouched (secrets : List String) (document : Json ν)
    (retagged : Json ν × List (String × Json ν)) : Prop :=
  retagged.1 = document ∧ ∀ unmatched ∈ retagged.2, containsSecret secrets unmatched.2 = false

theorem retagMembers_untouched {secrets : List String}
    {members preserved expanded : List (String × Json ν)}
    (h : ∀ member ∈ members, Untouched secrets member.2
      (retagMember path member.1 member.2 preserved expanded)) :
    (retagMembers path members preserved expanded).1 = members ∧
      ∀ unmatched ∈ (retagMembers path members preserved expanded).2,
        containsSecret secrets unmatched.2 = false := by
  induction members with
  | nil => exact ⟨rfl, by simp [retagMembers]⟩
  | cons member members ih =>
    obtain ⟨name, value⟩ := member
    obtain ⟨⟨hvalue, hclean⟩, htail⟩ := List.forall_mem_cons.mp h
    obtain ⟨hmembers, hcleans⟩ := ih htail
    rw [retagMembers_cons]
    refine ⟨?_, List.forall_mem_append.mpr ⟨hclean, hcleans⟩⟩
    show (name, _) :: _ = _
    rw [hvalue, hmembers]

theorem retagElements_untouched {secrets : List String}
    {elements preserved expanded : List (Json ν)} {n : ℕ} {used : List ℕ}
    (h : ∀ i element j, elements[i]? = some element →
      (matchedIndices expanded used elements)[i]? = some j →
      Untouched secrets element (retagElement path (n + i) element preserved expanded j)) :
    (retagElements path n used elements preserved expanded).1 = elements ∧
      ∀ unmatched ∈ (retagElements path n used elements preserved expanded).2,
        containsSecret secrets unmatched.2 = false := by
  induction elements generalizing n used with
  | nil => exact ⟨rfl, by simp [retagElements]⟩
  | cons element elements ih =>
    obtain ⟨helement, hclean⟩ := h 0 element (matchListElement element expanded used) rfl rfl
    have htail : ∀ i element' j, elements[i]? = some element' →
        (matchedIndices expanded ((matchListElement element expanded used).toList ++ used)
          elements)[i]? = some j →
        Untouched secrets element' (retagElement path (n + 1 + i) element' preserved expanded j) := by
      intro i element' j hget hj
      rw [Nat.add_assoc, Nat.add_comm 1 i]
      exact h (i + 1) element' j hget hj
    obtain ⟨helements, hcleans⟩ := ih htail
    rw [retagElements_cons]
    refine ⟨?_, List.forall_mem_append.mpr ⟨hclean, hcleans⟩⟩
    rw [Nat.add_zero] at helement
    simp only [helement, helements]

theorem SealKeeps.member {members members' members'' : List (String × Json ν)} {name : String}
    {value marked resolved : Json ν}
    (h : SealKeeps secret (.obj members) (.obj members') (.obj members''))
    (hvalue : members.lookup name = some value) (hmarked : members'.lookup name = some marked)
    (hresolved : members''.lookup name = some resolved) :
    SealKeeps secret value marked resolved where
  marker position position' value' marker resolved' hpaired hval hmark hismarker hres heq :=
    h.marker (.key name :: position) (.key name :: position') value' marker resolved'
      (.key hvalue hmarked hresolved hpaired) ((valueAt_obj hvalue _).trans hval)
      ((valueAt_obj hmarked _).trans hmark) hismarker ((valueAt_obj hresolved _).trans hres) heq
  text position s hleaf hs := by
    obtain ⟨position', hpaired, hmark, hres⟩ :=
      h.text (.key name :: position) s ((valueAt_obj hvalue _).trans hleaf) hs
    cases hpaired with
    | key hvalue' hmarked' hresolved' hpaired =>
      obtain rfl := Option.some.inj (hvalue.symm.trans hvalue')
      obtain rfl := Option.some.inj (hmarked.symm.trans hmarked')
      obtain rfl := Option.some.inj (hresolved.symm.trans hresolved')
      exact ⟨_, hpaired, (valueAt_obj hmarked _).symm.trans hmark,
        (valueAt_obj hresolved _).symm.trans hres⟩

theorem SealKeeps.element {elements elements' elements'' : List (Json ν)} {i j : ℕ}
    {element marked resolved : Json ν}
    (h : SealKeeps secret (.arr elements) (.arr elements') (.arr elements''))
    (helement : elements[i]? = some element)
    (hmatched : (matchedIndices elements'' [] elements)[i]? = some (some j))
    (hmarked : elements'[j]? = some marked) (hresolved : elements''[j]? = some resolved) :
    SealKeeps secret element marked resolved where
  marker position position' value' marker resolved' hpaired hval hmark hismarker hres heq :=
    h.marker (.index i :: position) (.index j :: position') value' marker resolved'
      (.index helement hmatched hmarked hresolved hpaired) ((valueAt_arr helement _).trans hval)
      ((valueAt_arr hmarked _).trans hmark) hismarker ((valueAt_arr hresolved _).trans hres) heq
  text position s hleaf hs := by
    obtain ⟨position', hpaired, hmark, hres⟩ :=
      h.text (.index i :: position) s ((valueAt_arr helement _).trans hleaf) hs
    cases hpaired with
    | index helement' hmatched' hmarked' hresolved' hpaired =>
      obtain rfl := Option.some.inj (helement.symm.trans helement')
      obtain rfl := Option.some.inj (Option.some.inj (hmatched.symm.trans hmatched'))
      obtain rfl := Option.some.inj (hmarked.symm.trans hmarked')
      obtain rfl := Option.some.inj (hresolved.symm.trans hresolved')
      exact ⟨_, hpaired, (valueAt_arr hmarked _).symm.trans hmark,
        (valueAt_arr hresolved _).symm.trans hres⟩

theorem untouched_of_flat {secrets : List String} (path : String)
    (hdistinct : DistinctKeys document) (hflat : ¬Descends document preserved expanded)
    (h : SealKeeps (· ∈ secrets) document preserved expanded) :
    Untouched secrets document (retagEnvMarkers path document preserved expanded) := by
  have hfound : containsSecret secrets document = true →
      ∃ s, document = .str s ∧ preserved = .str s ∧ expanded = .str s := by
    intro hsecret
    obtain ⟨position, s, hleaf, hs⟩ := exists_valueAt_of_containsSecret hdistinct hsecret
    obtain ⟨position', hpaired, hmarked, hresolved⟩ := h.text position s hleaf hs
    obtain ⟨rfl, rfl⟩ := hpaired.flat hflat
    simp only [valueAt_nil, Option.some.injEq] at hleaf hmarked hresolved
    exact ⟨s, hleaf, hmarked, hresolved⟩
  by_cases hmarker : isMarker preserved = true
  · rw [retag_marker hmarker]
    split_ifs with heq
    · refine ⟨?_, by simp⟩
      exact (h.marker [] [] document preserved expanded .here (valueAt_nil _) (valueAt_nil _)
        hmarker (valueAt_nil _) heq).symm
    · refine ⟨rfl, List.forall_mem_singleton.mpr ?_⟩
      refine Bool.eq_false_iff.mpr fun hsecret => heq ?_
      obtain ⟨s, rfl, -, rfl⟩ := hfound hsecret
      exact beq_self_eq_true s
  · rw [retag_leaf ((Bool.not_eq_true _).mp hmarker) hflat]
    refine ⟨rfl, ?_⟩
    split_ifs with heq
    · simp
    · refine List.forall_mem_singleton.mpr (Bool.eq_false_iff.mpr fun hsecret => heq ?_)
      obtain ⟨s, rfl, -, rfl⟩ := hfound hsecret
      exact beq_self_eq_true s

theorem untouched_of_keeps {secrets : List String} (path : String)
    (hviews : Resolves preserved expanded) (hdistinct : DistinctKeys document)
    (h : SealKeeps (· ∈ secrets) document preserved expanded) :
    Untouched secrets document (retagEnvMarkers path document preserved expanded) := by
  induction document using Json.induction generalizing preserved expanded path with
  | null | bool _ | num _ | str _ =>
    refine untouched_of_flat path hdistinct ?_ h
    rintro (⟨_, _, _, h, -⟩ | ⟨_, _, _, h, -⟩) <;> cases h
  | arr elements ih =>
    by_cases hdescends : Descends (.arr elements) preserved expanded
    · obtain ⟨_, _, _, h', -⟩ | ⟨_, elements', elements'', -, rfl, rfl⟩ := hdescends
      · cases h'
      · rw [retag_arr]
        obtain ⟨_, helements, hviews⟩ := hviews
        obtain rfl := Json.arr.inj helements
        obtain ⟨helements, hclean⟩ : (retagElements path 0 [] elements elements' elements'').1 =
            elements ∧ ∀ unmatched ∈ (retagElements path 0 [] elements elements' elements'').2,
              containsSecret secrets unmatched.2 = false := by
          refine retagElements_untouched fun i element j helement hmatched => ?_
          have hmem := List.mem_of_getElem? helement
          have hdistinct := DistinctElements.mem hdistinct element hmem
          cases j with
          | some j =>
            have hj := lt_of_matched hmatched
            have hj' := hj
            rw [← hviews.length] at hj'
            have hmarked := List.getElem?_eq_getElem hj'
            have hresolved := List.getElem?_eq_getElem hj
            simp only [retagElement, List.getD_eq_getElem?_getD, hmarked, hresolved,
              Option.getD_some]
            exact ih element hmem _ (hviews.getElem? hmarked hresolved) hdistinct
              (h.element helement hmatched hmarked hresolved)
          | none =>
            refine ⟨rfl, List.forall_mem_singleton.mpr (Bool.eq_false_iff.mpr fun hsecret => ?_)⟩
            obtain ⟨position, s, hleaf, hs⟩ := exists_valueAt_of_containsSecret hdistinct hsecret
            obtain ⟨_, hpaired, -, -⟩ :=
              h.text (.index i :: position) s ((valueAt_arr helement _).trans hleaf) hs
            cases hpaired with
            | index _ hmatched' _ _ _ => cases hmatched.symm.trans hmatched'
        exact ⟨congrArg Json.arr helements, hclean⟩
    · exact untouched_of_flat path hdistinct hdescends h
  | obj members ih =>
    by_cases hdescends : Descends (.obj members) preserved expanded
    · obtain ⟨_, members', members'', -, rfl, rfl⟩ | ⟨_, _, _, h', -⟩ := hdescends
      · rw [retag_obj]
        obtain ⟨_, hmembers, hviews⟩ := hviews
        obtain rfl := Json.obj.inj hmembers
        obtain ⟨hmembers, hclean⟩ : (retagMembers path members members' members'').1 = members ∧
            ∀ unmatched ∈ (retagMembers path members members' members'').2,
              containsSecret secrets unmatched.2 = false := by
          refine retagMembers_untouched fun member hmem => ?_
          have hvalue := lookup_of_mem hdistinct.1 hmem
          have hdistinct := DistinctMembers.mem hdistinct.2 member hmem
          obtain ⟨marked, resolved, child, hmarked, hresolved, heq⟩ | ⟨child, hunpaired, heq⟩ :=
            retagMember_cases path member.1 member.2 members' members''
          · rw [heq]
            exact ih member hmem child (Resolves.lookup hviews hmarked hresolved) hdistinct
              (h.member hvalue hmarked hresolved)
          · rw [heq]
            refine ⟨rfl, List.forall_mem_singleton.mpr (Bool.eq_false_iff.mpr fun hsecret => ?_)⟩
            obtain ⟨position, s, hleaf, hs⟩ := exists_valueAt_of_containsSecret hdistinct hsecret
            obtain ⟨_, hpaired, -, -⟩ :=
              h.text (.key member.1 :: position) s ((valueAt_obj hvalue _).trans hleaf) hs
            cases hpaired with
            | key _ hmarked hresolved _ => exact hunpaired _ _ hmarked hresolved
        exact ⟨congrArg Json.obj hmembers, hclean⟩
      · cases h'
    · exact untouched_of_flat path hdistinct hdescends h

/-! ## Sealed documents -/

theorem mem_resolvedSecretsMembers_iff {preserved expanded : List (String × Json ν)} {s : String} :
    s ∈ resolvedSecretsMembers preserved expanded ↔ ∃ member ∈ preserved, ∃ resolved,
      expanded.lookup member.1 = some resolved ∧ s ∈ resolvedSecrets member.2 resolved := by
  induction preserved with
  | nil => simp [resolvedSecretsMembers]
  | cons member preserved ih =>
    obtain ⟨key, value⟩ := member
    rw [resolvedSecretsMembers, List.mem_append, ih, List.exists_mem_cons_iff]
    cases expanded.lookup key with
    | none => simp
    | some resolved => simp

theorem mem_resolvedSecretsElements_iff {preserved expanded : List (Json ν)} {s : String} :
    s ∈ resolvedSecretsElements preserved expanded ↔ ∃ (j : ℕ) (marked resolved : Json ν),
      preserved[j]? = some marked ∧ expanded[j]? = some resolved ∧
        s ∈ resolvedSecrets marked resolved := by
  refine ⟨fun h => ?_, fun ⟨j, marked, resolved, hmarked, hresolved, hs⟩ =>
    mem_resolvedSecretsElements hmarked hresolved hs⟩
  induction preserved generalizing expanded with
  | nil => cases h
  | cons value preserved ih =>
    cases expanded with
    | nil => cases h
    | cons resolved expanded =>
      obtain hs | hs := List.mem_append.mp h
      · exact ⟨0, value, resolved, rfl, rfl, hs⟩
      · obtain ⟨j, marked, resolved, hmarked, hresolved, hs⟩ := ih hs
        exact ⟨j + 1, marked, resolved, hmarked, hresolved, hs⟩

theorem isSecret_of_mem {preserved expanded : Json ν} {s : String}
    (hdistinct : DistinctKeys preserved) (h : s ∈ resolvedSecrets preserved expanded) :
    IsSecret preserved expanded s := by
  induction preserved using Json.induction generalizing expanded with
  | null | bool _ | num _ => cases expanded <;> cases h
  | str m =>
    simp only [resolvedSecrets] at h
    split_ifs at h with hmarker
    · cases expanded with
      | str secret =>
        change s ∈ if secret = "" then [] else [secret] at h
        split_ifs at h with hempty
        · cases h
        · obtain rfl := List.mem_singleton.mp h
          exact ⟨hempty, [], .str m, rfl, hmarker, rfl⟩
      | null | bool _ | num _ | arr _ | obj _ => cases h
    · cases h
  | arr elements ih =>
    cases expanded with
    | arr elements' =>
      obtain ⟨j, marked, resolved, hmarked, hresolved, hs⟩ := mem_resolvedSecretsElements_iff.mp h
      have hmem := List.mem_of_getElem? hmarked
      obtain ⟨hne, position, marker, hmarker, hismarker, hleaf⟩ :=
        ih marked hmem (DistinctElements.mem hdistinct marked hmem) hs
      exact ⟨hne, .index j :: position, marker, (valueAt_arr hmarked _).trans hmarker, hismarker,
        (valueAt_arr hresolved _).trans hleaf⟩
    | null | bool _ | num _ | str _ | obj _ => cases h
  | obj members ih =>
    cases expanded with
    | obj members' =>
      obtain ⟨member, hmem, resolved, hresolved, hs⟩ := mem_resolvedSecretsMembers_iff.mp h
      obtain ⟨hne, position, marker, hmarker, hismarker, hleaf⟩ :=
        ih member hmem (DistinctMembers.mem hdistinct.2 member hmem) hs
      exact ⟨hne, .key member.1 :: position, marker,
        (valueAt_obj (lookup_of_mem hdistinct.1 hmem) _).trans hmarker, hismarker,
        (valueAt_obj hresolved _).trans hleaf⟩
    | null | bool _ | num _ | str _ | arr _ => cases h

/-- The seal of the resolved view is the manifest; a document is left as it is if and only if its
values are kept apart from the markers. -/
theorem seal_transparent_iff (hnum : ∀ n : ν, PyNumber.eq n n = true)
    (preserved expanded : Document ν)
    (hviews : Resolves (.obj preserved.members) (.obj expanded.members)) :
    sealResolvedSecrets expanded.members preserved.members expanded.members =
      .ok preserved.members ∧
    ∀ document : Document ν,
      sealResolvedSecrets document.members preserved.members expanded.members =
          .ok document.members ↔
        SealKeeps (IsSecret (.obj preserved.members) (.obj expanded.members))
          (.obj document.members) (.obj preserved.members) (.obj expanded.members) := by
  refine ⟨?_, fun document => ⟨fun h => ?_, fun h => ?_⟩⟩
  · have hwalk := retag_expanded hnum "" hviews preserved.distinct expanded.distinct
    rw [retag_obj, Prod.mk.injEq, Json.obj.injEq] at hwalk
    rw [sealResolvedSecrets_eq_ok, hwalk.1, hwalk.2]
    exact ⟨rfl, by simp⟩
  · obtain ⟨hsame, hscan⟩ := sealResolvedSecrets_eq_ok.mp h
    have hwalk : (retagEnvMarkers "" (.obj document.members) (.obj preserved.members)
        (.obj expanded.members)).1 = .obj document.members := by
      rw [retag_obj]
      exact congrArg Json.obj hsame
    refine ⟨fun position position' value marker resolved hpaired hvalue hmarker hismarker hresolved
      heq => ?_, fun position s hleaf hs => ?_⟩
    · have hretag := retag_paired hpaired hvalue hmarker hismarker hresolved heq ""
      rw [hwalk] at hretag
      exact Option.some.inj (hvalue.symm.trans hretag)
    · obtain ⟨position', hpaired, htext, hexpanded⟩ :
          MayStay (.obj document.members) (.obj preserved.members) (.obj expanded.members)
            position s := by
        refine mayStay_of_retag "" hviews ?_ (by rw [hwalk]; exact hleaf) hs.mem
        rw [retag_obj]
        exact hscan
      refine ⟨position', hpaired, htext, ?_⟩
      obtain hexpanded | ⟨value, resolved, hvalue, hresolved, heq⟩ := hexpanded
      · exact hexpanded
      · obtain rfl := Option.some.inj (hleaf.symm.trans hvalue)
        cases resolved with
        | str t =>
          obtain rfl : t = s := by simpa [pyEq] using heq
          exact hresolved
        | null | bool _ | num _ | arr _ | obj _ => simp [pyEq] at heq
  · have hkeeps : SealKeeps (· ∈ resolvedSecrets (.obj preserved.members) (.obj expanded.members))
        (.obj document.members) (.obj preserved.members) (.obj expanded.members) :=
      ⟨h.marker, fun position s hleaf hs =>
        h.text position s hleaf (isSecret_of_mem preserved.distinct hs)⟩
    obtain ⟨hsame, hclean⟩ := untouched_of_keeps "" hviews document.distinct hkeeps
    rw [retag_obj] at hsame hclean
    exact sealResolvedSecrets_eq_ok.mpr ⟨Json.obj.inj hsame, hclean⟩

/-- No document is changed or refused whose values are all different from the resolved ones. -/
theorem sealKeeps_of_apart {document preserved expanded : Json ν}
    (h : ∀ position value position' marker resolved, valueAt document position = some value →
      valueAt preserved position' = some marker → isMarker marker = true →
      valueAt expanded position' = some resolved → pyEq resolved value = false) :
    SealKeeps (IsSecret preserved expanded) document preserved expanded where
  marker position position' value marker resolved _ hvalue hmarker hismarker hresolved heq := by
    rw [h position value position' marker resolved hvalue hmarker hismarker hresolved] at heq
    cases heq
  text position s hleaf hs := by
    obtain ⟨-, position', marker, hmarker, hismarker, hresolved⟩ := hs
    have hne := h position _ position' marker _ hleaf hmarker hismarker hresolved
    rw [pyEq, beq_self_eq_true] at hne
    cases hne

end

/-- A list with a marker and, after it, what the marker resolves to. -/
def listPreserved : Document ℤ where
  members := [("xs", .arr [.str "!ENV A", .str "x"])]
  distinct := ⟨by decide, ⟨trivial, trivial, trivial⟩, trivial⟩

def listExpanded : Document ℤ where
  members := [("xs", .arr [.str "x", .str "x"])]
  distinct := ⟨by decide, ⟨trivial, trivial, trivial⟩, trivial⟩

theorem resolves_list : Resolves (.obj listPreserved.members) (.obj listExpanded.members) :=
  ⟨_, rfl, rfl, ⟨_, rfl, nofun, fun _ => rfl, trivial⟩, trivial⟩

theorem seal_transparent_of_list :
    sealResolvedSecrets listExpanded.members listPreserved.members listExpanded.members =
      .ok listPreserved.members ∧
    ∀ document : Document ℤ,
      sealResolvedSecrets document.members listPreserved.members listExpanded.members =
          .ok document.members ↔
        SealKeeps (IsSecret (.obj listPreserved.members) (.obj listExpanded.members))
          (.obj document.members) (.obj listPreserved.members) (.obj listExpanded.members) :=
  seal_transparent_iff (fun n => beq_self_eq_true n) listPreserved listExpanded resolves_list

/-- The plain element of an unchanged manifest becomes a second marker. -/
theorem marker_in_place_of_text :
    Resolves (.obj listPreserved.members) (.obj listExpanded.members) ∧
    sealResolvedSecrets listPreserved.members listPreserved.members listExpanded.members =
      .ok [("xs", .arr [.str "!ENV A", .str "!ENV A"])] ∧
    sealResolvedSecrets listPreserved.members listPreserved.members listExpanded.members ≠
      .ok listPreserved.members := by
  refine ⟨resolves_list, rfl, fun h => ?_⟩
  have hsame : [("xs", (.arr [.str "!ENV A", .str "!ENV A"] : Json ℤ))] = listPreserved.members :=
    Except.ok.inj h
  simp [listPreserved] at hsame

/-- An unchanged manifest is refused for the plain text of an element that has a marker. -/
example :
    (sealResolvedSecrets [("xs", .arr [.obj [("a", .str "!ENV A"), ("b", .str "x")]])]
      [("xs", .arr [.obj [("a", .str "!ENV A"), ("b", .str "x")]])]
      [("xs", .arr [.obj [("a", .str "x"), ("b", .str "x")]])] :
        Except ResolvedSecretError (List (String × Json ℤ))) = .error ⟨"xs[0]"⟩ :=
  rfl

end TaiSkeleton.Config
