import TaiSkeleton.Config.SecretSeal

/-!
# What the seal leaves in a document

The walk of the seal pairs positions of the outgoing document with positions of the manifest. A
resolved secret that is left as text in a sealed document is at a position that is paired with one
where the manifest itself has that text.
-/

namespace TaiSkeleton.Config

open Lib

variable {ν : Type}

/-! ## Positions -/

/-- A step into an object or into a list. -/
inductive Step where
  | key (name : String)
  | index (i : ℕ)
deriving DecidableEq

/-- The value at a position. -/
def valueAt : Json ν → List Step → Option (Json ν)
  | v, [] => some v
  | .obj members, .key name :: path => (members.lookup name).bind fun v => valueAt v path
  | .arr elements, .index i :: path => elements[i]?.bind fun v => valueAt v path
  | _, _ => none

@[simp] theorem valueAt_nil (v : Json ν) : valueAt v [] = some v := by
  cases v <;> rfl

theorem valueAt_key {v v' : Json ν} {name : String} {path : List Step}
    (h : valueAt v (.key name :: path) = some v') :
    ∃ members child, v = .obj members ∧ members.lookup name = some child ∧
      valueAt child path = some v' := by
  cases v with
  | obj members =>
    obtain ⟨child, hchild, h⟩ := Option.bind_eq_some_iff.mp h
    exact ⟨members, child, rfl, hchild, h⟩
  | null | bool _ | num _ | str _ | arr _ => cases h

theorem valueAt_index {v v' : Json ν} {i : ℕ} {path : List Step}
    (h : valueAt v (.index i :: path) = some v') :
    ∃ elements child, v = .arr elements ∧ elements[i]? = some child ∧
      valueAt child path = some v' := by
  cases v with
  | arr elements =>
    obtain ⟨child, hchild, h⟩ := Option.bind_eq_some_iff.mp h
    exact ⟨elements, child, rfl, hchild, h⟩
  | null | bool _ | num _ | str _ | obj _ => cases h

/-- Positions go on only in objects and lists. -/
theorem container_of_valueAt {v v' : Json ν} {step : Step} {path : List Step}
    (h : valueAt v (step :: path) = some v') :
    (∃ members, v = .obj members) ∨ ∃ elements, v = .arr elements := by
  cases step with
  | key name =>
    obtain ⟨members, _, rfl, _⟩ := valueAt_key h
    exact .inl ⟨members, rfl⟩
  | index i =>
    obtain ⟨elements, _, rfl, _⟩ := valueAt_index h
    exact .inr ⟨elements, rfl⟩

theorem valueAt_obj {members : List (String × Json ν)} {name : String} {child : Json ν}
    (h : members.lookup name = some child) (path : List Step) :
    valueAt (.obj members) (.key name :: path) = valueAt child path := by
  show (members.lookup name).bind _ = _
  rw [h]
  rfl

theorem valueAt_arr {elements : List (Json ν)} {i : ℕ} {child : Json ν}
    (h : elements[i]? = some child) (path : List Step) :
    valueAt (.arr elements) (.index i :: path) = valueAt child path := by
  show elements[i]?.bind _ = _
  rw [h]
  rfl

theorem mem_of_lookup {members : List (String × Json ν)} {name : String} {child : Json ν}
    (h : members.lookup name = some child) : (name, child) ∈ members := by
  obtain ⟨before, after, rfl, -⟩ := List.lookup_eq_some_iff.mp h
  simp

theorem containsSecretMembers_iff {secrets : List String} {members : List (String × Json ν)} :
    containsSecretMembers secrets members = true ↔
      ∃ member ∈ members, containsSecret secrets member.2 = true := by
  induction members with
  | nil => simp [containsSecretMembers]
  | cons member members ih => simp [containsSecretMembers, ih]

theorem containsSecretElements_iff {secrets : List String} {elements : List (Json ν)} :
    containsSecretElements secrets elements = true ↔
      ∃ element ∈ elements, containsSecret secrets element = true := by
  induction elements with
  | nil => simp [containsSecretElements]
  | cons element elements ih => simp [containsSecretElements, ih]

/-- A secret at any position is found. -/
theorem containsSecret_of_valueAt {secrets : List String} {v : Json ν} {path : List Step}
    {s : String} (h : valueAt v path = some (.str s)) (hs : s ∈ secrets) :
    containsSecret secrets v = true := by
  induction path generalizing v with
  | nil =>
    obtain rfl : v = .str s := by simpa using h
    exact decide_eq_true hs
  | cons step path ih =>
    cases step with
    | key name =>
      obtain ⟨members, child, rfl, hchild, h⟩ := valueAt_key h
      exact containsSecretMembers_iff.mpr ⟨(name, child), mem_of_lookup hchild, ih h⟩
    | index i =>
      obtain ⟨elements, child, rfl, hchild, h⟩ := valueAt_index h
      exact containsSecretElements_iff.mpr ⟨child, List.mem_of_getElem? hchild, ih h⟩

/-! ## The two views of a manifest -/

mutual

/-- The second view is the first with its markers resolved. -/
def Resolves : Json ν → Json ν → Prop
  | .str s, expanded => isMarker (.str s : Json ν) = false → expanded = .str s
  | .arr preserved, expanded => ∃ elements, expanded = .arr elements ∧
      ResolvesElements preserved elements
  | .obj preserved, expanded => ∃ members, expanded = .obj members ∧
      ResolvesMembers preserved members
  | preserved, expanded => expanded = preserved

def ResolvesElements : List (Json ν) → List (Json ν) → Prop
  | [], [] => True
  | value :: preserved, resolved :: expanded =>
    Resolves value resolved ∧ ResolvesElements preserved expanded
  | _, _ => False

def ResolvesMembers : List (String × Json ν) → List (String × Json ν) → Prop
  | [], [] => True
  | (key, value) :: preserved, (key', resolved) :: expanded =>
    key = key' ∧ Resolves value resolved ∧ ResolvesMembers preserved expanded
  | _, _ => False

end

theorem Resolves.plain {preserved : Json ν} {s : String} (h : Resolves preserved (.str s))
    (hplain : isMarker preserved = false) : preserved = .str s := by
  cases preserved with
  | str t => exact (h hplain).symm
  | arr elements =>
    obtain ⟨_, h, -⟩ := h
    cases h
  | obj members =>
    obtain ⟨_, h, -⟩ := h
    cases h
  | null | bool _ | num _ => cases h

theorem Resolves.plain_obj {preserved : Json ν} {members : List (String × Json ν)}
    (h : Resolves preserved (.obj members)) (hplain : isMarker preserved = false) :
    ∃ members', preserved = .obj members' := by
  cases preserved with
  | str t => cases h hplain
  | arr elements =>
    obtain ⟨_, h, -⟩ := h
    cases h
  | obj members' => exact ⟨members', rfl⟩
  | null | bool _ | num _ => cases h

theorem Resolves.plain_arr {preserved : Json ν} {elements : List (Json ν)}
    (h : Resolves preserved (.arr elements)) (hplain : isMarker preserved = false) :
    ∃ elements', preserved = .arr elements' := by
  cases preserved with
  | str t => cases h hplain
  | arr elements' => exact ⟨elements', rfl⟩
  | obj members =>
    obtain ⟨_, h, -⟩ := h
    cases h
  | null | bool _ | num _ => cases h

theorem Resolves.lookup {preserved expanded : List (String × Json ν)}
    (h : ResolvesMembers preserved expanded) {name : String} {marked resolved : Json ν}
    (hmarked : preserved.lookup name = some marked)
    (hresolved : expanded.lookup name = some resolved) : Resolves marked resolved := by
  induction preserved generalizing expanded with
  | nil => cases hmarked
  | cons member preserved ih =>
    obtain ⟨key, value⟩ := member
    cases expanded with
    | nil => cases hresolved
    | cons member' expanded =>
      obtain ⟨key', value'⟩ := member'
      obtain ⟨rfl, hvalue, htail⟩ := h
      rw [List.lookup_cons] at hmarked hresolved
      by_cases hname : name = key
      · subst hname
        simp only [beq_self_eq_true] at hmarked hresolved
        obtain rfl := Option.some.inj hmarked
        obtain rfl := Option.some.inj hresolved
        exact hvalue
      · have hne : (name == key) = false := beq_eq_false_iff_ne.mpr hname
        simp only [hne] at hmarked hresolved
        exact ih htail hmarked hresolved

theorem ResolvesElements.length {preserved expanded : List (Json ν)}
    (h : ResolvesElements preserved expanded) : preserved.length = expanded.length := by
  induction preserved generalizing expanded with
  | nil =>
    cases expanded with
    | nil => rfl
    | cons _ _ => exact h.elim
  | cons value preserved ih =>
    cases expanded with
    | nil => exact h.elim
    | cons resolved expanded => exact congrArg (· + 1) (ih h.2)

theorem ResolvesElements.getElem? {preserved expanded : List (Json ν)}
    (h : ResolvesElements preserved expanded) {j : ℕ} {marked resolved : Json ν}
    (hmarked : preserved[j]? = some marked) (hresolved : expanded[j]? = some resolved) :
    Resolves marked resolved := by
  induction preserved generalizing expanded j with
  | nil => cases hmarked
  | cons value preserved ih =>
    cases expanded with
    | nil => cases hresolved
    | cons value' expanded =>
      cases j with
      | zero =>
        obtain rfl := Option.some.inj hmarked
        obtain rfl := Option.some.inj hresolved
        exact h.1
      | succ j => exact ih h.2 hmarked hresolved

/-- A string that a marker of the manifest resolves to, but for the empty one. -/
def IsSecret (preserved expanded : Json ν) (s : String) : Prop :=
  s ≠ "" ∧ ∃ path marker, valueAt preserved path = some marker ∧ isMarker marker = true ∧
    valueAt expanded path = some (.str s)

theorem mem_resolvedSecretsMembers {preserved expanded : List (String × Json ν)} {name s : String}
    {marked resolved : Json ν} (hmarked : preserved.lookup name = some marked)
    (hresolved : expanded.lookup name = some resolved) (hs : s ∈ resolvedSecrets marked resolved) :
    s ∈ resolvedSecretsMembers preserved expanded := by
  have hmem := mem_of_lookup hmarked
  clear hmarked
  induction preserved with
  | nil => cases hmem
  | cons member preserved ih =>
    obtain ⟨key, value⟩ := member
    unfold resolvedSecretsMembers
    refine List.mem_append.mpr ?_
    obtain hhead | htail := List.mem_cons.mp hmem
    · obtain ⟨rfl, rfl⟩ := Prod.mk.inj hhead
      rw [hresolved]
      exact .inl hs
    · exact .inr (ih htail)

theorem mem_resolvedSecretsElements {preserved expanded : List (Json ν)} {j : ℕ} {s : String}
    {marked resolved : Json ν} (hmarked : preserved[j]? = some marked)
    (hresolved : expanded[j]? = some resolved) (hs : s ∈ resolvedSecrets marked resolved) :
    s ∈ resolvedSecretsElements preserved expanded := by
  induction preserved generalizing expanded j with
  | nil => cases hmarked
  | cons value preserved ih =>
    cases expanded with
    | nil => cases hresolved
    | cons value' expanded =>
      unfold resolvedSecretsElements
      refine List.mem_append.mpr ?_
      cases j with
      | zero =>
        obtain rfl := Option.some.inj hmarked
        obtain rfl := Option.some.inj hresolved
        exact .inl hs
      | succ j => exact .inr (ih hmarked hresolved)

theorem IsSecret.mem {preserved expanded : Json ν} {s : String}
    (h : IsSecret preserved expanded s) : s ∈ resolvedSecrets preserved expanded := by
  obtain ⟨hne, path, marker, hmarker, hismarker, hs⟩ := h
  induction path generalizing preserved expanded with
  | nil =>
    obtain rfl : preserved = marker := by simpa using hmarker
    obtain rfl : expanded = .str s := by simpa using hs
    cases preserved with
    | str m => simp [resolvedSecrets, hismarker, hne]
    | null | bool _ | num _ | arr _ | obj _ => cases hismarker
  | cons step path ih =>
    cases step with
    | key name =>
      obtain ⟨members, marked, rfl, hmarked, hmarker⟩ := valueAt_key hmarker
      obtain ⟨members', resolved, rfl, hresolved, hs⟩ := valueAt_key hs
      exact mem_resolvedSecretsMembers hmarked hresolved (ih hmarker hs)
    | index i =>
      obtain ⟨elements, marked, rfl, hmarked, hmarker⟩ := valueAt_index hmarker
      obtain ⟨elements', resolved, rfl, hresolved, hs⟩ := valueAt_index hs
      exact mem_resolvedSecretsElements hmarked hresolved (ih hmarker hs)

/-! ## The pairs of the walk -/

section

variable [PyNumber ν]

/-- The indices that the elements of a list are matched with, one after the other. -/
def matchedIndices (expanded : List (Json ν)) : List ℕ → List (Json ν) → List (Option ℕ)
  | _, [] => []
  | used, element :: incoming =>
    let j := matchListElement element expanded used
    j :: matchedIndices expanded (j.toList ++ used) incoming

/-- The walk pairs a position of the document with one of the manifest. -/
inductive Paired : Json ν → Json ν → Json ν → List Step → List Step → Prop where
  | here {incoming preserved expanded : Json ν} : Paired incoming preserved expanded [] []
  | key {incoming preserved expanded : List (String × Json ν)} {name : String}
      {value marked resolved : Json ν} {path path' : List Step}
      (hvalue : incoming.lookup name = some value) (hmarked : preserved.lookup name = some marked)
      (hresolved : expanded.lookup name = some resolved)
      (h : Paired value marked resolved path path') :
      Paired (.obj incoming) (.obj preserved) (.obj expanded) (.key name :: path)
        (.key name :: path')
  | index {incoming preserved expanded : List (Json ν)} {i j : ℕ}
      {element marked resolved : Json ν} {path path' : List Step}
      (helement : incoming[i]? = some element)
      (hmatched : (matchedIndices expanded [] incoming)[i]? = some (some j))
      (hmarked : preserved[j]? = some marked) (hresolved : expanded[j]? = some resolved)
      (h : Paired element marked resolved path path') :
      Paired (.arr incoming) (.arr preserved) (.arr expanded) (.index i :: path)
        (.index j :: path')

theorem matchListElement_lt {element : Json ν} {expanded : List (Json ν)} {used : List ℕ} {j : ℕ}
    (h : matchListElement element expanded used = some j) : j < expanded.length := by
  have hunused : ∀ j ∈ (List.range expanded.length).filter (fun j => decide (j ∉ used)),
      j < expanded.length :=
    fun j hj => List.mem_range.mp (List.mem_of_mem_filter hj)
  simp only [matchListElement] at h
  split at h
  · next j' hone =>
    obtain rfl := Option.some.inj h
    have hmem : j' ∈ [j'] := List.mem_singleton_self j'
    rw [← hone] at hmem
    exact hunused j' (List.mem_of_mem_filter hmem)
  · exact hunused j (List.mem_of_find?_eq_some h)

theorem lt_of_matched {incoming expanded : List (Json ν)} {used : List ℕ} {i j : ℕ}
    (h : (matchedIndices expanded used incoming)[i]? = some (some j)) : j < expanded.length := by
  induction incoming generalizing used i with
  | nil => cases h
  | cons element incoming ih =>
    cases i with
    | zero => exact matchListElement_lt (Option.some.inj h)
    | succ i => exact ih h

/-! ## The step of the walk -/

/-- The walk goes on into objects or into lists. -/
def Descends (incoming preserved expanded : Json ν) : Prop :=
  (∃ members members' members'', incoming = .obj members ∧ preserved = .obj members' ∧
    expanded = .obj members'') ∨
  ∃ elements elements' elements'', incoming = .arr elements ∧ preserved = .arr elements' ∧
    expanded = .arr elements''

variable {path : String} {incoming preserved expanded : Json ν}

theorem retag_marker (h : isMarker preserved = true) :
    retagEnvMarkers path incoming preserved expanded =
      if pyEq expanded incoming then (preserved, []) else (incoming, [(path, incoming)]) := by
  unfold retagEnvMarkers
  rw [if_pos h]

theorem retag_obj (members members' members'' : List (String × Json ν)) :
    retagEnvMarkers path (.obj members) (.obj members') (.obj members'') =
      (.obj (retagMembers path members members' members'').1,
        (retagMembers path members members' members'').2) := by
  unfold retagEnvMarkers
  rw [if_neg (by exact Bool.false_ne_true)]

theorem retag_arr (elements elements' elements'' : List (Json ν)) :
    retagEnvMarkers path (.arr elements) (.arr elements') (.arr elements'') =
      (.arr (retagElements path 0 [] elements elements' elements'').1,
        (retagElements path 0 [] elements elements' elements'').2) := by
  unfold retagEnvMarkers
  rw [if_neg (by exact Bool.false_ne_true)]

theorem retag_leaf (hplain : isMarker preserved = false)
    (hleaf : ¬Descends incoming preserved expanded) :
    retagEnvMarkers path incoming preserved expanded =
      (incoming, if pyEq incoming expanded then [] else [(path, incoming)]) := by
  unfold retagEnvMarkers
  rw [if_neg (by rw [hplain]; exact Bool.false_ne_true)]
  split
  · exact absurd (.inl ⟨_, _, _, rfl, rfl, rfl⟩) hleaf
  · exact absurd (.inr ⟨_, _, _, rfl, rfl, rfl⟩) hleaf
  · rfl

/-- What the walk makes of a member. -/
def retagMember (path name : String) (value : Json ν) (preserved expanded : List (String × Json ν)) :
    Json ν × List (String × Json ν) :=
  let child := if path = "" then name else path ++ "." ++ name
  match preserved.lookup name, expanded.lookup name with
  | some marked, some resolved => retagEnvMarkers child value marked resolved
  | _, _ => (value, [(child, value)])

/-- What the walk makes of an element that is matched with an index. -/
def retagElement (path : String) (i : ℕ) (element : Json ν) (preserved expanded : List (Json ν)) :
    Option ℕ → Json ν × List (String × Json ν)
  | some j => retagEnvMarkers (path ++ "[" ++ toString i ++ "]") element (preserved.getD j .null)
      (expanded.getD j .null)
  | none => (element, [(path ++ "[" ++ toString i ++ "]", element)])

theorem retagMembers_cons (name : String) (value : Json ν)
    (members preserved expanded : List (String × Json ν)) :
    retagMembers path ((name, value) :: members) preserved expanded =
      ((name, (retagMember path name value preserved expanded).1) ::
        (retagMembers path members preserved expanded).1,
      (retagMember path name value preserved expanded).2 ++
        (retagMembers path members preserved expanded).2) := by
  rw [retagMembers]
  unfold retagMember
  cases preserved.lookup name <;> cases expanded.lookup name <;> rfl

theorem retagElements_cons (i : ℕ) (used : List ℕ) (element : Json ν)
    (elements preserved expanded : List (Json ν)) :
    retagElements path i used (element :: elements) preserved expanded =
      let j := matchListElement element expanded used
      ((retagElement path i element preserved expanded j).1 ::
        (retagElements path (i + 1) (j.toList ++ used) elements preserved expanded).1,
      (retagElement path i element preserved expanded j).2 ++
        (retagElements path (i + 1) (j.toList ++ used) elements preserved expanded).2) := by
  rw [retagElements]
  cases matchListElement element expanded used <;> rfl

theorem retagMember_cases (path name : String) (value : Json ν)
    (preserved expanded : List (String × Json ν)) :
    (∃ marked resolved child, preserved.lookup name = some marked ∧
      expanded.lookup name = some resolved ∧ retagMember path name value preserved expanded =
        retagEnvMarkers child value marked resolved) ∨
    ∃ child, (∀ marked resolved, preserved.lookup name = some marked →
      expanded.lookup name ≠ some resolved) ∧
      retagMember path name value preserved expanded = (value, [(child, value)]) := by
  cases hmarked : preserved.lookup name with
  | none => exact .inr ⟨_, nofun, by rw [retagMember, hmarked]⟩
  | some marked =>
    cases hresolved : expanded.lookup name with
    | none => exact .inr ⟨_, nofun, by rw [retagMember, hmarked, hresolved]⟩
    | some resolved =>
      exact .inl ⟨marked, resolved, _, rfl, rfl, by rw [retagMember, hmarked, hresolved]⟩

theorem retagMembers_lookup {members preserved expanded : List (String × Json ν)} {name : String}
    {value' : Json ν}
    (h : (retagMembers path members preserved expanded).1.lookup name = some value') :
    ∃ value, members.lookup name = some value ∧
      value' = (retagMember path name value preserved expanded).1 ∧
      ∀ unmatched ∈ (retagMember path name value preserved expanded).2,
        unmatched ∈ (retagMembers path members preserved expanded).2 := by
  induction members with
  | nil => cases h
  | cons member members ih =>
    obtain ⟨key, value⟩ := member
    rw [retagMembers_cons] at h ⊢
    by_cases hname : name = key
    · subst hname
      rw [List.lookup_cons_self] at h
      exact ⟨value, List.lookup_cons_self, (Option.some.inj h).symm,
        fun _ hmem => List.mem_append_left _ hmem⟩
    · have hne : (name == key) = false := beq_eq_false_iff_ne.mpr hname
      simp only [List.lookup_cons, hne] at h ⊢
      obtain ⟨value, hvalue, hval, hsub⟩ := ih h
      exact ⟨value, hvalue, hval, fun _ hmem => List.mem_append_right _ (hsub _ hmem)⟩

theorem retagElements_getElem? {elements preserved expanded : List (Json ν)} {i n : ℕ}
    {used : List ℕ} {element' : Json ν}
    (h : (retagElements path n used elements preserved expanded).1[i]? = some element') :
    ∃ element j, elements[i]? = some element ∧
      (matchedIndices expanded used elements)[i]? = some j ∧
      element' = (retagElement path (n + i) element preserved expanded j).1 ∧
      ∀ unmatched ∈ (retagElement path (n + i) element preserved expanded j).2,
        unmatched ∈ (retagElements path n used elements preserved expanded).2 := by
  induction elements generalizing i n used with
  | nil => cases h
  | cons element elements ih =>
    rw [retagElements_cons] at h ⊢
    cases i with
    | zero =>
      exact ⟨element, _, rfl, rfl, (Option.some.inj h).symm,
        fun _ hmem => List.mem_append_left _ hmem⟩
    | succ i =>
      obtain ⟨element, j, helement, hj, hval, hsub⟩ := ih h
      rw [Nat.add_right_comm] at hval hsub
      exact ⟨element, j, helement, hj, hval, fun _ hmem => List.mem_append_right _ (hsub _ hmem)⟩

/-! ## What is left as text -/

/-- Where a string is unchanged text, the manifest has the same text. -/
theorem text_of_pyEq {position : List Step} {s : String} (hviews : Resolves preserved expanded)
    (hplain : isMarker preserved = false) (hflat : ¬Descends incoming preserved expanded)
    (heq : pyEq incoming expanded = true) (hleaf : valueAt incoming position = some (.str s)) :
    position = [] ∧ preserved = .str s ∧ expanded = .str s := by
  cases incoming with
  | str t =>
    obtain rfl : expanded = .str t := by
      cases expanded with
      | str t' =>
        obtain rfl : t = t' := by simpa [pyEq] using heq
        rfl
      | null | bool _ | num _ | arr _ | obj _ => simp [pyEq] at heq
    cases position with
    | nil =>
      obtain rfl : t = s := by simpa using hleaf
      exact ⟨rfl, hviews.plain hplain, rfl⟩
    | cons step position => obtain ⟨_, h⟩ | ⟨_, h⟩ := container_of_valueAt hleaf <;> cases h
  | obj members =>
    cases expanded with
    | obj members'' =>
      obtain ⟨members', rfl⟩ := hviews.plain_obj hplain
      exact absurd (.inl ⟨_, _, _, rfl, rfl, rfl⟩) hflat
    | null | bool _ | num _ | str _ | arr _ => simp [pyEq] at heq
  | arr elements =>
    cases expanded with
    | arr elements'' =>
      obtain ⟨elements', rfl⟩ := hviews.plain_arr hplain
      exact absurd (.inr ⟨_, _, _, rfl, rfl, rfl⟩) hflat
    | null | bool _ | num _ | str _ | obj _ => simp [pyEq] at heq
  | null | bool _ | num _ =>
    cases position with
    | nil => simp at hleaf
    | cons step position => obtain ⟨_, h⟩ | ⟨_, h⟩ := container_of_valueAt hleaf <;> cases h

/-- What the walk may leave as text at a position: the string that the manifest has there, or a
marker that it has put back. -/
def MayStay (incoming preserved expanded : Json ν) (position : List Step) (s : String) : Prop :=
  ∃ position', Paired incoming preserved expanded position position' ∧
    valueAt preserved position' = some (.str s) ∧
    (valueAt expanded position' = some (.str s) ∨
      ∃ value resolved, valueAt incoming position = some value ∧
        valueAt expanded position' = some resolved ∧ pyEq resolved value = true)

theorem mayStay_of_flat {secrets : List String} {position : List Step} {s : String}
    (hviews : Resolves preserved expanded) (hflat : ¬Descends incoming preserved expanded)
    (hscan : ∀ unmatched ∈ (retagEnvMarkers path incoming preserved expanded).2,
      containsSecret secrets unmatched.2 = false)
    (hleaf : valueAt (retagEnvMarkers path incoming preserved expanded).1 position =
      some (.str s)) (hs : s ∈ secrets) : MayStay incoming preserved expanded position s := by
  have hrecorded : valueAt incoming position = some (.str s) →
      containsSecret secrets incoming ≠ false := by
    intro hleaf
    rw [containsSecret_of_valueAt hleaf hs]
    exact Bool.true_eq_false.mp
  by_cases hmarker : isMarker preserved = true
  · rw [retag_marker hmarker] at hleaf hscan
    split_ifs at hleaf hscan with heq
    · cases preserved with
      | str m =>
        cases position with
        | nil => exact ⟨[], .here, hleaf, .inr ⟨incoming, expanded, by simp, by simp, heq⟩⟩
        | cons step position =>
          obtain ⟨_, h⟩ | ⟨_, h⟩ := container_of_valueAt hleaf <;> cases h
      | null | bool _ | num _ | arr _ | obj _ => cases hmarker
    · exact absurd (hscan _ (List.mem_singleton_self _)) (hrecorded hleaf)
  · have hplain := (Bool.not_eq_true _).mp hmarker
    rw [retag_leaf hplain hflat] at hleaf hscan
    split_ifs at hscan with heq
    · obtain ⟨rfl, rfl, rfl⟩ := text_of_pyEq hviews hplain hflat heq hleaf
      exact ⟨[], .here, by simp, .inl (by simp)⟩
    · exact absurd (hscan _ (List.mem_singleton_self _)) (hrecorded hleaf)

/-- A secret that the walk leaves in the document, and does not record, may stay. -/
theorem mayStay_of_retag {secrets : List String} {position : List Step} {s : String}
    (path : String) (hviews : Resolves preserved expanded)
    (hscan : ∀ unmatched ∈ (retagEnvMarkers path incoming preserved expanded).2,
      containsSecret secrets unmatched.2 = false)
    (hleaf : valueAt (retagEnvMarkers path incoming preserved expanded).1 position =
      some (.str s)) (hs : s ∈ secrets) : MayStay incoming preserved expanded position s := by
  induction position generalizing incoming preserved expanded path with
  | nil =>
    by_cases hdescends : Descends incoming preserved expanded
    · obtain ⟨_, _, _, rfl, rfl, rfl⟩ | ⟨_, _, _, rfl, rfl, rfl⟩ := hdescends
      · rw [retag_obj] at hleaf
        cases hleaf
      · rw [retag_arr] at hleaf
        cases hleaf
    · exact mayStay_of_flat hviews hdescends hscan hleaf hs
  | cons step position ih =>
    by_cases hdescends : Descends incoming preserved expanded
    · obtain ⟨members, members', members'', rfl, rfl, rfl⟩ |
        ⟨elements, elements', elements'', rfl, rfl, rfl⟩ := hdescends
      · rw [retag_obj] at hleaf hscan
        cases step with
        | index i => cases hleaf
        | key name =>
          obtain ⟨_, value', hobj, hlookup, hleaf⟩ := valueAt_key hleaf
          obtain rfl := Json.obj.inj hobj
          obtain ⟨value, hvalue, rfl, hsub⟩ := retagMembers_lookup hlookup
          have hscan := fun unmatched hmem => hscan unmatched (hsub unmatched hmem)
          obtain ⟨marked, resolved, child, hmarked, hresolved, heq⟩ | ⟨child, -, heq⟩ :=
            retagMember_cases path name value members' members''
          · rw [heq] at hleaf hscan
            obtain ⟨_, hmembers, hviews⟩ := hviews
            obtain rfl := Json.obj.inj hmembers
            obtain ⟨position', hpaired, htext, hstay⟩ :=
              ih child (Resolves.lookup hviews hmarked hresolved) hscan hleaf
            refine ⟨.key name :: position', .key hvalue hmarked hresolved hpaired, ?_⟩
            rw [valueAt_obj hmarked, valueAt_obj hresolved, valueAt_obj hvalue]
            exact ⟨htext, hstay⟩
          · rw [heq] at hleaf hscan
            have hclean := hscan _ (List.mem_singleton_self _)
            rw [containsSecret_of_valueAt hleaf hs] at hclean
            cases hclean
      · rw [retag_arr] at hleaf hscan
        cases step with
        | key name => cases hleaf
        | index i =>
          obtain ⟨_, element', harr, hget, hleaf⟩ := valueAt_index hleaf
          obtain rfl := Json.arr.inj harr
          obtain ⟨element, j, helement, hmatched, rfl, hsub⟩ := retagElements_getElem? hget
          have hscan := fun unmatched hmem => hscan unmatched (hsub unmatched hmem)
          cases j with
          | some j =>
            obtain ⟨_, helements, hviews⟩ := hviews
            obtain rfl := Json.arr.inj helements
            have hj := lt_of_matched hmatched
            have hj' := hj
            rw [← hviews.length] at hj'
            have hmarked := List.getElem?_eq_getElem hj'
            have hresolved := List.getElem?_eq_getElem hj
            simp only [retagElement, List.getD_eq_getElem?_getD, hmarked, hresolved,
              Option.getD_some] at hleaf hscan
            obtain ⟨position', hpaired, htext, hstay⟩ :=
              ih _ (hviews.getElem? hmarked hresolved) hscan hleaf
            refine ⟨.index j :: position', .index helement hmatched hmarked hresolved hpaired, ?_⟩
            rw [valueAt_arr hmarked, valueAt_arr hresolved, valueAt_arr helement]
            exact ⟨htext, hstay⟩
          | none =>
            have hclean := hscan _ (List.mem_singleton_self _)
            exact absurd hclean (Bool.eq_false_iff.not.mpr fun h =>
              h (containsSecret_of_valueAt hleaf hs))
    · exact mayStay_of_flat hviews hdescends hscan hleaf hs

theorem sealResolvedSecrets_eq_ok
    {document preserved expanded document' : List (String × Json ν)} :
    sealResolvedSecrets document preserved expanded = .ok document' ↔
      (retagMembers "" document preserved expanded).1 = document' ∧
      ∀ unmatched ∈ (retagMembers "" document preserved expanded).2,
        containsSecret (resolvedSecrets (.obj preserved) (.obj expanded)) unmatched.2 = false := by
  unfold sealResolvedSecrets
  cases hfind : (retagMembers "" document preserved expanded).2.find? fun unmatched =>
      containsSecret (resolvedSecrets (.obj preserved) (.obj expanded)) unmatched.2 with
  | some unmatched =>
    have hmem := List.mem_of_find?_eq_some hfind
    have hsecret := List.find?_some hfind
    refine ⟨fun h => by simp [hfind] at h, fun h => ?_⟩
    rw [h.2 unmatched hmem] at hsecret
    cases hsecret
  | none =>
    have hclean := List.find?_eq_none.mp hfind
    simp only [hfind, Except.ok.injEq, iff_self_and]
    exact fun _ unmatched hmem => (Bool.not_eq_true _).mp (hclean unmatched hmem)

/-- Where a sealed document has a resolved secret as text, the manifest has that text itself at the
position that the walk has paired it with. -/
theorem secret_not_stranded {document preserved expanded document' : List (String × Json ν)}
    (hviews : Resolves (.obj preserved) (.obj expanded))
    (hseal : sealResolvedSecrets document preserved expanded = .ok document')
    {position : List Step} {s : String}
    (hleaf : valueAt (.obj document') position = some (.str s))
    (hs : IsSecret (.obj preserved) (.obj expanded) s) :
    ∃ position', Paired (.obj document) (.obj preserved) (.obj expanded) position position' ∧
      valueAt (.obj preserved) position' = some (.str s) := by
  obtain ⟨rfl, hscan⟩ := sealResolvedSecrets_eq_ok.mp hseal
  have hstay : MayStay (.obj document) (.obj preserved) (.obj expanded) position s := by
    refine mayStay_of_retag "" hviews ?_ ?_ hs.mem
    · rw [retag_obj]
      exact hscan
    · rw [retag_obj]
      exact hleaf
  obtain ⟨position', hpaired, htext, -⟩ := hstay
  exact ⟨position', hpaired, htext⟩

/-- A marker that resolves to what another member has as plain text. -/
def sharedPreserved : List (String × Json ℤ) := [("a", .str "!ENV A"), ("b", .str "x")]

def sharedExpanded : List (String × Json ℤ) := [("a", .str "x"), ("b", .str "x")]

theorem secret_not_stranded_of_shared :
    ∃ position', Paired (.obj [("b", .str "x"), ("a", .str "x")]) (.obj sharedPreserved)
        (.obj sharedExpanded) [.key "b"] position' ∧
      valueAt (.obj sharedPreserved) position' = some (.str "x") := by
  have hviews : Resolves (.obj sharedPreserved) (.obj sharedExpanded) :=
    ⟨_, rfl, ⟨rfl, nofun, rfl, fun _ => rfl, trivial⟩⟩
  have hseal : sealResolvedSecrets [("b", .str "x"), ("a", .str "x")] sharedPreserved
      sharedExpanded = .ok [("b", .str "x"), ("a", .str "!ENV A")] := rfl
  exact secret_not_stranded hviews hseal rfl
    ⟨by decide, [.key "a"], .str "!ENV A", rfl, rfl, rfl⟩

end

end TaiSkeleton.Config
