import TaiSkeleton.Lib.Except
import TaiSkeleton.Authz.TokenFree.Taint
import TaiSkeleton.Authz.TokenFree.JqSemantics

/-!
# Accepted conditions do not read the identity claims

Two runs of one condition, on two auth contexts that differ in the identity claims only. A value
of taint `safe` is the same in both runs; one of taint `root` is the same, or is the context of
each run. `sem_related` carries this through every construct, so the outputs of an accepted
condition, safe by `assertSafe`, are the same.
-/

set_option linter.unusedSectionVars false

namespace TaiSkeleton.Authz.TokenFree

open Lib

variable {ν : Type}

/-- The members of two auth contexts, each with an object under `identity`, that agree on every
other field and on `.identity.owner_user_id`. -/
structure AgreeOffIdentity (m₁ m₂ : List (String × Json ν)) : Prop where
  fields : ∀ name, name ≠ identityField → Json.member m₁ name = Json.member m₂ name
  identity : ∃ i₁ i₂, Json.member m₁ identityField = .obj i₁ ∧
    Json.member m₂ identityField = .obj i₂ ∧
    Json.member i₁ ownerUserIdClaim = Json.member i₂ ownerUserIdClaim

/-- Values of the two runs under a taint: equal if safe, and otherwise possibly the contexts. -/
def Related (c₁ c₂ : Json ν) : Taint → Json ν → Json ν → Prop
  | .safe, a, b => a = b
  | .root, a, b => a = b ∨ a = c₁ ∧ b = c₂

/-- Every variable of known taint is bound in both runs, to related values. -/
def EnvRelated (c₁ c₂ : Json ν) (vars : List (String × Taint)) (env₁ env₂ : Env ν) : Prop :=
  ∀ name t, vars.lookup name = some t →
    ∃ a b, env₁.lookup name = some a ∧ env₂.lookup name = some b ∧ Related c₁ c₂ t a b

/-- Environments and inputs of the two runs, as a scope describes them. -/
structure ScopeRelated (c₁ c₂ : Json ν) (scope : Scope) (env₁ env₂ : Env ν) (v₁ v₂ : Json ν) :
    Prop where
  env : EnvRelated c₁ c₂ scope.vars env₁ env₂
  subject : Related c₁ c₂ scope.subject v₁ v₂

/-! ## Related values and environments -/

theorem Related.of_eq {c₁ c₂ a b : Json ν} (h : a = b) (t : Taint) : Related c₁ c₂ t a b := by
  cases t with
  | root => exact .inl h
  | safe => exact h

theorem Related.join_left {c₁ c₂ a b : Json ν} {l : Taint} (h : Related c₁ c₂ l a b)
    (r : Taint) : Related c₁ c₂ (l.join r) a b := by
  unfold Taint.join
  split_ifs with hs
  · rw [hs.1] at h
    exact h
  · cases l with
    | root => exact h
    | safe => exact .inl h

theorem Related.join_right {c₁ c₂ a b : Json ν} {r : Taint} (h : Related c₁ c₂ r a b)
    (l : Taint) : Related c₁ c₂ (l.join r) a b := by
  unfold Taint.join
  split_ifs with hs
  · rw [hs.2] at h
    exact h
  · cases r with
    | root => exact h
    | safe => exact .inl h

theorem EnvRelated.nil (c₁ c₂ : Json ν) : EnvRelated c₁ c₂ [] [] [] := by
  intro name t h
  simp at h

theorem EnvRelated.cons {c₁ c₂ : Json ν} {vars : List (String × Taint)} {env₁ env₂ : Env ν}
    (henv : EnvRelated c₁ c₂ vars env₁ env₂) (name : String) {t : Taint} {a b : Json ν}
    (hab : Related c₁ c₂ t a b) :
    EnvRelated c₁ c₂ ((name, t) :: vars) ((name, a) :: env₁) ((name, b) :: env₂) := by
  intro name' t' h
  simp only [List.lookup_cons] at h ⊢
  cases hn : name' == name with
  | true =>
    rw [hn] at h
    obtain rfl : t = t' := by simpa using h
    exact ⟨a, b, rfl, rfl, hab⟩
  | false =>
    rw [hn] at h
    exact henv name' t' h

/-! ## What the checks admit -/

variable {text : Text}

@[simp] theorem requireSafe_eq_ok {t : Taint} {position : ℕ} {consumer : String} {u : Unit} :
    requireSafe text t position consumer = .ok u ↔ t = .safe := by
  cases t <;> simp [requireSafe]

theorem requireOwner_eq_ok {position : ℕ} {suffixes : List Suffix} {t : Taint}
    (h : requireOwner text position suffixes = .ok t) :
    t = .safe ∧ ∃ last, suffixes = [last] ∧ staticName last = some ownerUserIdClaim := by
  unfold requireOwner at h
  split at h
  · split_ifs at h with hn
    exact ⟨by simpa using h.symm, _, rfl, hn⟩
  · simp at h

/-! ## Congruence of the list clauses -/

variable (L : Literals ν) (P : Primitives ν)

theorem semArguments_congr {arguments : List Node} {env₁ env₂ : Env ν}
    (h : ∀ a ∈ arguments, sem L P a env₁ = sem L P a env₂) :
    semArguments L P arguments env₁ = semArguments L P arguments env₂ := by
  induction arguments with
  | nil => simp only [semArguments]
  | cons a as ih =>
    simp only [semArguments]
    rw [h a List.mem_cons_self, ih fun b hb => h b (List.mem_cons_of_mem a hb)]

theorem semHoles_congr {holes : List Node} {env₁ env₂ : Env ν} {v₁ v₂ : Json ν}
    (h : ∀ a ∈ holes, sem L P a env₁ v₁ = sem L P a env₂ v₂) (position i : ℕ)
    (texts : Outputs (Json ν) String) :
    semHoles L P holes position i env₁ v₁ texts = semHoles L P holes position i env₂ v₂ texts := by
  induction holes generalizing i texts with
  | nil => simp only [semHoles]
  | cons a as ih =>
    simp only [semHoles]
    rw [h a List.mem_cons_self]
    exact ih (fun b hb => h b (List.mem_cons_of_mem a hb)) _ _

theorem semValues_congr {values : List Node} {env₁ env₂ : Env ν} {v₁ v₂ : Json ν}
    (h : ∀ a ∈ values, sem L P a env₁ v₁ = sem L P a env₂ v₂) (position i : ℕ) :
    semValues L P values position i env₁ v₁ = semValues L P values position i env₂ v₂ := by
  induction values generalizing i with
  | nil => simp only [semValues]
  | cons a as ih =>
    simp only [semValues]
    rw [h a List.mem_cons_self, ih fun b hb => h b (List.mem_cons_of_mem a hb)]

/-! ## The binary operators -/

/-- Every operator but `|` reads its operands on the input alone. -/
theorem combine_congr {operator : String} (ho : operator ≠ "|") {l₁ l₂ r₁ r₂ : Filter ν}
    {v₁ v₂ : Json ν} (hl : l₁ v₁ = l₂ v₂) (hr : r₁ v₁ = r₂ v₂) :
    combine P operator l₁ r₁ v₁ = combine P operator l₂ r₂ v₂ := by
  unfold combine
  simp only [if_neg ho, hl, hr]

theorem Related.truthy_eq {m₁ m₂ : List (String × Json ν)} {t : Taint} {a b : Json ν}
    (h : Related (.obj m₁) (.obj m₂) t a b) : a.truthy = b.truthy := by
  cases t with
  | safe => exact congrArg Json.truthy h
  | root =>
    rcases h with rfl | ⟨rfl, rfl⟩
    · rfl
    · rfl

/-- `,` and `//` pass on the outputs of their operands. -/
theorem combine_mix {m₁ m₂ : List (String × Json ν)} {operator : String}
    (ho : operator = "," ∨ operator = "//") {t : Taint} {l₁ l₂ r₁ r₂ : Filter ν} {v₁ v₂ : Json ν}
    (hl : Outputs.Rel (Related (.obj m₁) (.obj m₂) t) (l₁ v₁) (l₂ v₂))
    (hr : Outputs.Rel (Related (.obj m₁) (.obj m₂) t) (r₁ v₁) (r₂ v₂)) :
    Outputs.Rel (Related (.obj m₁) (.obj m₂) t) (combine P operator l₁ r₁ v₁)
      (combine P operator l₂ r₂ v₂) := by
  rcases ho with rfl | rfl
  · exact hl.append hr
  · exact hl.alternative (fun _ _ hab => hab.truthy_eq) hr

/-! ## Static names -/

/-- A suffix with a static name selects the field of that name, whatever the environment. -/
theorem semSuffix_static {suffix : Suffix} {name : String} (h : staticName suffix = some name)
    (env : Env ν) (v : Json ν) (selected optional : Bool) (out : Stream ν) :
    semSuffix L P suffix env v selected optional out =
      out.bind fun w => tolerant optional (.ofExcept (index P w (.str name))) := by
  unfold staticName at h
  split at h
  · obtain rfl := Option.some.inj h
    simp only [semSuffix]
  · obtain rfl := Option.some.inj h
    simp [semSuffix, sem]
  · simp at h

/-- A name under which the two objects agree selects the same from values that are equal or are
the two objects. -/
theorem index_eq {m₁ m₂ : List (String × Json ν)} {name : String} {a b : Json ν}
    (hm : Json.member m₁ name = Json.member m₂ name)
    (hab : Related (.obj m₁) (.obj m₂) .root a b) :
    index P a (.str name) = index P b (.str name) := by
  rcases hab with rfl | ⟨rfl, rfl⟩
  · rfl
  · simp only [index, hm]

theorem tolerant_rel {R : Json ν → Json ν → Prop} {s t : Stream ν} (h : Outputs.Rel R s t)
    (optional : Bool) : Outputs.Rel R (tolerant optional s) (tolerant optional t) := by
  cases optional with
  | false => exact h
  | true => exact h.suppress

/-- Selecting a name under which the objects agree makes related outputs equal. -/
theorem semSuffix_static_eq {m₁ m₂ : List (String × Json ν)} {suffix : Suffix} {name : String}
    (hn : staticName suffix = some name) (hm : Json.member m₁ name = Json.member m₂ name)
    {out₁ out₂ : Stream ν} (hout : Outputs.Rel (Related (.obj m₁) (.obj m₂) .root) out₁ out₂)
    (env₁ env₂ : Env ν) (v₁ v₂ : Json ν) (selected optional : Bool) :
    semSuffix L P suffix env₁ v₁ selected optional out₁ =
      semSuffix L P suffix env₂ v₂ selected optional out₂ := by
  rw [semSuffix_static L P hn, semSuffix_static L P hn]
  refine Outputs.rel_eq_iff.mp (hout.bind fun a b hab => ?_)
  rw [index_eq P hm hab]
  exact Outputs.rel_eq_iff.mpr rfl

/-- Selecting `identity` leaves outputs that are equal or are the two identity objects. -/
theorem semSuffix_identity {m₁ m₂ i₁ i₂ : List (String × Json ν)} {suffix : Suffix}
    (hn : staticName suffix = some identityField)
    (hm₁ : Json.member m₁ identityField = .obj i₁) (hm₂ : Json.member m₂ identityField = .obj i₂)
    {out₁ out₂ : Stream ν} (hout : Outputs.Rel (Related (.obj m₁) (.obj m₂) .root) out₁ out₂)
    (env₁ env₂ : Env ν) (v₁ v₂ : Json ν) (selected optional : Bool) :
    Outputs.Rel (Related (.obj i₁) (.obj i₂) .root)
      (semSuffix L P suffix env₁ v₁ selected optional out₁)
      (semSuffix L P suffix env₂ v₂ selected optional out₂) := by
  rw [semSuffix_static L P hn, semSuffix_static L P hn]
  refine hout.bind fun a b hab => tolerant_rel ?_ optional
  rcases hab with rfl | ⟨rfl, rfl⟩
  · exact (Outputs.rel_eq_iff.mpr rfl).mono fun a b hab => .inl hab
  · simp only [index, hm₁, hm₂, Outputs.ofExcept]
    exact .emit (.inr ⟨rfl, rfl⟩)

/-! ## The construct by construct argument -/

section

variable {m₁ m₂ : List (String × Json ν)} (h : AgreeOffIdentity m₁ m₂)

include h

/-- The one chain that passes through `identity`: the owner claim ends it. -/
theorem semSuffixes_owner {suffix : Suffix} {suffixes : List Suffix} {position : ℕ} {t : Taint}
    (hn : staticName suffix = some identityField)
    (ho : requireOwner text position suffixes = .ok t) {out₁ out₂ : Stream ν}
    (hout : Outputs.Rel (Related (.obj m₁) (.obj m₂) .root) out₁ out₂)
    (env₁ env₂ : Env ν) (v₁ v₂ : Json ν) (selected : Bool) :
    t = .safe ∧ semSuffixes L P (suffix :: suffixes) env₁ v₁ selected out₁ =
      semSuffixes L P (suffix :: suffixes) env₂ v₂ selected out₂ := by
  obtain ⟨ht, last, rfl, hl⟩ := requireOwner_eq_ok ho
  obtain ⟨i₁, i₂, hm₁, hm₂, hi⟩ := h.identity
  refine ⟨ht, ?_⟩
  simp only [semSuffixes]
  exact semSuffix_static_eq L P hl hi
    (semSuffix_identity L P hn hm₁ hm₂ hout env₁ env₂ v₁ v₂ _ _) env₁ env₂ v₁ v₂ _ _

mutual

/-- A construct of taint `t` has outputs related under `t`, and the same error. -/
theorem sem_related (node : Node) {scope : Scope} {t : Taint}
    (hok : taint text node scope = .ok t) {env₁ env₂ : Env ν} {v₁ v₂ : Json ν}
    (hs : ScopeRelated (.obj m₁) (.obj m₂) scope env₁ env₂ v₁ v₂) :
    Outputs.Rel (Related (.obj m₁) (.obj m₂) t) (sem L P node env₁ v₁) (sem L P node env₂ v₂) := by
  match node with
  | .root _ =>
    simp only [taint, Except.ok.injEq] at hok
    subst hok
    simp only [sem]
    exact .emit hs.subject
  | .constant _ =>
    simp only [sem]
    exact .emit (.of_eq rfl t)
  | .string position value parts =>
    simp only [taint, bind_eq_ok, pure_eq_ok, Except.ok.injEq] at hok
    obtain ⟨_, hparts, rfl⟩ := hok
    have hp := parts_equal parts hparts hs
    simp only [sem]
    rw [semHoles_congr L P hp]
    exact Outputs.rel_eq_iff.mpr rfl
  | .var _ name =>
    simp only [taint] at hok
    cases hl : scope.vars.lookup name with
    | none => simp [hl] at hok
    | some t' =>
      obtain rfl : t' = t := by simpa [hl] using hok
      obtain ⟨a, b, ha, hb, hab⟩ := hs.env name t' hl
      simp only [sem, ha, hb]
      exact .emit hab
  | .projection _ source suffixes =>
    simp only [taint, bind_eq_ok] at hok
    obtain ⟨current, hsource, hsuffixes⟩ := hok
    simp only [sem]
    exact suffixes_related suffixes hsuffixes hs (sem_related source hsource hs) false
  | .call _ name arguments =>
    simp only [taint, bind_eq_ok, requireSafe_eq_ok, pure_eq_ok, Except.ok.injEq] at hok
    obtain ⟨_, hsubject, _, harguments, rfl⟩ := hok
    have hv : v₁ = v₂ := by simpa [hsubject, Related] using hs.subject
    have ha : semArguments L P arguments env₁ = semArguments L P arguments env₂ :=
      semArguments_congr L P fun a ha => funext fun w =>
        parts_equal arguments harguments ⟨hs.env, rfl⟩ a ha
    simp only [sem, hv, ha]
    exact Outputs.rel_eq_iff.mpr rfl
  | .binary _ operator left right =>
    simp only [taint, bind_eq_ok] at hok
    obtain ⟨l, hleft, hright⟩ := hok
    have hl := sem_related left hleft hs
    simp only [sem]
    by_cases hpipe : operator = "|"
    · rw [if_pos hpipe] at hright
      subst hpipe
      exact hl.bind fun a b hab => sem_related right hright ⟨hs.env, hab⟩
    rw [if_neg hpipe] at hright
    by_cases hmix : operator = "," ∨ operator = "//"
    · simp only [if_pos hmix, bind_eq_ok, pure_eq_ok, Except.ok.injEq] at hright
      obtain ⟨r, hr, rfl⟩ := hright
      have hl' := hl.mono fun _ _ hab => Related.join_left hab r
      have hr' := (sem_related right hr hs).mono fun _ _ hab => Related.join_right hab l
      exact combine_mix P hmix hl' hr'
    · simp only [if_neg hmix, bind_eq_ok, requireSafe_eq_ok, pure_eq_ok, Except.ok.injEq] at hright
      obtain ⟨_, rfl, _, hr, _, rfl, rfl⟩ := hright
      have hr' := Outputs.rel_eq_iff.mp (sem_related right hr hs)
      rw [combine_congr P hpipe (Outputs.rel_eq_iff.mp hl) hr']
      exact Outputs.rel_eq_iff.mpr rfl
  | .negate _ operand =>
    simp only [taint, bind_eq_ok, requireSafe_eq_ok, pure_eq_ok, Except.ok.injEq] at hok
    obtain ⟨_, hoperand, _, rfl, rfl⟩ := hok
    have ho := Outputs.rel_eq_iff.mp (sem_related operand hoperand hs)
    simp only [sem, ho]
    exact Outputs.rel_eq_iff.mpr rfl
  | .bind _ source name body =>
    simp only [taint, bind_eq_ok] at hok
    obtain ⟨s, hsource, hbody⟩ := hok
    simp only [sem]
    refine (sem_related source hsource hs).bind fun a b hab => ?_
    exact sem_related body hbody ⟨hs.env.cons name hab, hs.subject⟩
  | .tryCatch _ body none =>
    simp only [taint] at hok
    simp only [sem]
    exact (sem_related body hok hs).suppress
  | .tryCatch _ body (some handler) =>
    simp only [taint, bind_eq_ok, pure_eq_ok, Except.ok.injEq] at hok
    obtain ⟨b, hbody, c, hhandler, rfl⟩ := hok
    have hb := (sem_related body hbody hs).mono fun _ _ hab => Related.join_left hab c
    simp only [sem]
    refine hb.handle fun e => ?_
    have hs' : ScopeRelated (.obj m₁) (.obj m₂) ⟨.root, scope.vars⟩ env₁ env₂ e e :=
      ⟨hs.env, .inl rfl⟩
    exact (sem_related handler hhandler hs').mono fun _ _ hab => Related.join_right hab b
  | .objectConstruction position values =>
    simp only [taint, bind_eq_ok, pure_eq_ok, Except.ok.injEq] at hok
    obtain ⟨_, hvalues, rfl⟩ := hok
    simp only [sem]
    rw [semValues_congr L P (parts_equal values hvalues hs)]
    exact Outputs.rel_eq_iff.mpr rfl
  | .arrayConstruction _ none =>
    simp only [sem]
    exact .emit (.of_eq rfl t)
  | .arrayConstruction _ (some element) =>
    simp only [taint, bind_eq_ok, requireSafe_eq_ok, pure_eq_ok, Except.ok.injEq] at hok
    obtain ⟨_, helement, _, rfl, rfl⟩ := hok
    have he := Outputs.rel_eq_iff.mp (sem_related element helement hs)
    simp only [sem, he]
    exact Outputs.rel_eq_iff.mpr rfl

/-- Constructs that are all required to be safe have the same outputs in both runs. -/
theorem parts_equal (parts : List Node) {scope : Scope} {consumer : String} {u : Unit}
    (hok : requireAllSafe text parts scope consumer = .ok u) {env₁ env₂ : Env ν} {v₁ v₂ : Json ν}
    (hs : ScopeRelated (.obj m₁) (.obj m₂) scope env₁ env₂ v₁ v₂) :
    ∀ part ∈ parts, sem L P part env₁ v₁ = sem L P part env₂ v₂ := by
  match parts with
  | [] => exact fun _ hpart => absurd hpart List.not_mem_nil
  | part :: rest =>
    simp only [requireAllSafe, bind_eq_ok, requireSafe_eq_ok] at hok
    obtain ⟨_, hpart, _, rfl, hrest⟩ := hok
    intro p hp
    rcases List.mem_cons.mp hp with hp | hp
    · rw [hp]
      exact Outputs.rel_eq_iff.mp (sem_related part hpart hs)
    · exact parts_equal rest hrest hs p hp

/-- A suffix chain takes outputs related under the taint before it to outputs related under the
taint after it. -/
theorem suffixes_related (suffixes : List Suffix) {current t : Taint} {scope : Scope}
    (hok : projectionTaint text suffixes current scope = .ok t) {env₁ env₂ : Env ν}
    {v₁ v₂ : Json ν} (hs : ScopeRelated (.obj m₁) (.obj m₂) scope env₁ env₂ v₁ v₂)
    {out₁ out₂ : Stream ν} (hout : Outputs.Rel (Related (.obj m₁) (.obj m₂) current) out₁ out₂)
    (selected : Bool) :
    Outputs.Rel (Related (.obj m₁) (.obj m₂) t) (semSuffixes L P suffixes env₁ v₁ selected out₁)
      (semSuffixes L P suffixes env₂ v₂ selected out₂) := by
  match suffixes, current with
  | [], _ =>
    simp only [projectionTaint, Except.ok.injEq] at hok
    subst hok
    simp only [semSuffixes]
    exact hout
  | suffix :: rest, .safe =>
    simp only [projectionTaint, bind_eq_ok] at hok
    obtain ⟨_, hkey, hrest⟩ := hok
    obtain rfl := Outputs.rel_eq_iff.mp hout
    simp only [semSuffixes]
    rw [suffix_equal suffix hkey hs]
    exact suffixes_related rest hrest hs (Outputs.rel_eq_iff.mpr rfl) _
  | suffix :: rest, .root =>
    simp only [projectionTaint] at hok
    cases hn : staticName suffix with
    | none => simp [hn] at hok
    | some name =>
      simp only [hn] at hok
      split_ifs at hok with hid
      · subst hid
        obtain ⟨rfl, heq⟩ := semSuffixes_owner L P h hn hok hout env₁ env₂ v₁ v₂ selected
        rw [heq]
        exact Outputs.rel_eq_iff.mpr rfl
      · simp only [semSuffixes]
        refine suffixes_related rest hok hs (Outputs.rel_eq_iff.mpr ?_) _
        exact semSuffix_static_eq L P hn (h.fields name hid) hout env₁ env₂ v₁ v₂ _ _

/-- A suffix whose key is safe selects the same from the same outputs. -/
theorem suffix_equal (suffix : Suffix) {scope : Scope} {u : Unit}
    (hok : keySafe text suffix scope = .ok u) {env₁ env₂ : Env ν} {v₁ v₂ : Json ν}
    (hs : ScopeRelated (.obj m₁) (.obj m₂) scope env₁ env₂ v₁ v₂) {selected optional : Bool}
    {out : Stream ν} :
    semSuffix L P suffix env₁ v₁ selected optional out =
      semSuffix L P suffix env₂ v₂ selected optional out := by
  match suffix with
  | .field _ _ => simp only [semSuffix]
  | .index _ none => simp only [semSuffix]
  | .index _ (some key) =>
    simp only [keySafe, bind_eq_ok, requireSafe_eq_ok] at hok
    obtain ⟨_, hkey, rfl⟩ := hok
    have hk := Outputs.rel_eq_iff.mp (sem_related key hkey hs)
    simp only [semSuffix, hk]
  | .optional _ => simp only [semSuffix]

end

theorem sem_of_assertSafe (text : Text) {node : Node} (hsafe : assertSafe text node = .ok ()) :
    sem L P node [] (.obj m₁) = sem L P node [] (.obj m₂) := by
  simp only [assertSafe, bind_eq_ok, requireSafe_eq_ok] at hsafe
  obtain ⟨t, hok, rfl⟩ := hsafe
  have hs : ScopeRelated (.obj m₁) (.obj m₂) ⟨.root, []⟩ [] [] (.obj m₁) (.obj m₂) :=
    ⟨.nil _ _, .inr ⟨rfl, rfl⟩⟩
  exact Outputs.rel_eq_iff.mp (sem_related L P h node hok hs)

/-- An accepted condition emits the same values, and ends in the same error or in none, on any
two contexts that agree off the identity claims and on the owner claim. -/
theorem condition_noninterference (text : Text) {node : Node}
    (hsafe : assertSafe text node = .ok ()) :
    sem L P node [] (.obj m₁) = sem L P node [] (.obj m₂) :=
  sem_of_assertSafe L P h text hsafe

end

/-- `.identity.owner_user_id == .sub`, parsed. -/
def ownerIsSubject : Node :=
  .binary 24 "==" (.projection 0 (.root 0) [.field 0 "identity", .field 9 "owner_user_id"])
    (.projection 27 (.root 27) [.field 27 "sub"])

/-- A context of the user `u1` whose token carries `email`. -/
def emailContext (email : String) : List (String × Json ℕ) :=
  [("sub", .str "u1"), ("identity", .obj [("owner_user_id", .str "u1"), ("email", .str email)])]

/-- The primitives on strings; everything else is a type error. -/
def stringPrimitives : Primitives ℕ where
  binary
    | "==", .str a, .str b => .ok (.bool (a == b))
    | _, _, _ => .error (.str "type error")
  negate _ := .error (.str "type error")
  index _ _ := .error (.str "type error")
  cannotIterate _ := .str "type error"
  tostring
    | .str s => s
    | _ => ""
  call _ _ _ := .error (.str "type error")

theorem emailContext_agree (email email' : String) :
    AgreeOffIdentity (emailContext email) (emailContext email') := by
  refine ⟨fun name hname => ?_, _, _, rfl, rfl, rfl⟩
  have hne : name ≠ "identity" := hname
  by_cases hsub : name = "sub"
  · rw [hsub]
    rfl
  · simp [emailContext, Json.member, List.lookup_cons, beq_eq_false_iff_ne.mpr hsub,
      beq_eq_false_iff_ne.mpr hne]

theorem ownerIsSubject_noninterference :
    sem ⟨fun _ => .null, fun _ _ => "", fun _ _ => ""⟩ stringPrimitives ownerIsSubject []
        (.obj (emailContext "a")) =
      sem ⟨fun _ => .null, fun _ _ => "", fun _ _ => ""⟩ stringPrimitives ownerIsSubject []
        (.obj (emailContext "b")) :=
  condition_noninterference _ _ (emailContext_agree "a" "b")
    ".identity.owner_user_id == .sub".toList rfl

end TaiSkeleton.Authz.TokenFree
