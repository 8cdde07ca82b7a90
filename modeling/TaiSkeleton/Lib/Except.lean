import Mathlib.Logic.Basic

/-!
# Runs of `Except` that succeed
-/

namespace Lib

variable {ε α β : Type}

@[simp] theorem ok_bind (a : α) (f : α → Except ε β) : (Except.ok a >>= f) = f a := rfl

@[simp] theorem error_bind (e : ε) (f : α → Except ε β) :
    (Except.error e >>= f) = Except.error e := rfl

@[simp] theorem pure_eq_ok (a : α) : (pure a : Except ε α) = .ok a := rfl

/-- A sequence succeeds when its first part does and the rest does on its result. -/
theorem bind_eq_ok {x : Except ε α} {f : α → Except ε β} {b : β} :
    (x >>= f) = .ok b ↔ ∃ a, x = .ok a ∧ f a = .ok b := by
  cases x with
  | error e => simp
  | ok a => simp

/-- A sequence fails where its first part does, or where the rest does on its result. -/
theorem bind_eq_error {x : Except ε α} {f : α → Except ε β} {e : ε} :
    (x >>= f) = .error e ↔ x = .error e ∨ ∃ a, x = .ok a ∧ f a = .error e := by
  cases x with
  | error e' => simp
  | ok a => simp

theorem exists_ok_of_isOk {x : Except ε α} (h : x.isOk = true) : ∃ a, x = .ok a := by
  cases x with
  | error e => exact absurd h (by simp [Except.isOk, Except.toBool])
  | ok a => exact ⟨a, rfl⟩

theorem mapError_error {ε' : Type} (e : ε) (f : ε → ε') :
    (Except.error e : Except ε α).mapError f = .error (f e) := rfl

theorem mapError_ok {ε' : Type} (a : α) (f : ε → ε') :
    (Except.ok a : Except ε α).mapError f = .ok a := rfl

theorem mapError_eq_ok {ε' : Type} {x : Except ε α} {f : ε → ε'} {a : α} :
    x.mapError f = .ok a ↔ x = .ok a := by
  cases x with
  | error e => simp [mapError_error]
  | ok b => simp [mapError_ok]

/-- A condition that a run goes on under. -/
def ensure (condition : Bool) (e : ε) : Except ε Unit := if condition then .ok () else .error e

theorem ensure_eq_ok {condition : Bool} {e : ε} {u : Unit} :
    ensure condition e = .ok u ↔ condition = true := by
  cases condition with
  | false => simp [ensure]
  | true => simp [ensure]

theorem ensure_eq_error {condition : Bool} {e e' : ε} :
    ensure condition e = .error e' ↔ condition = false ∧ e = e' := by
  cases condition with
  | false => simp [ensure]
  | true => simp [ensure]

/-- The results of a loop that keeps what `f` answers for, in order. -/
def collect (f : α → Except ε (Option β)) : List α → Except ε (List β)
  | [] => .ok []
  | a :: l => do
    let found ← f a
    let rest ← collect f l
    return found.toList ++ rest

theorem exists_of_mem_collect {f : α → Except ε (Option β)} {l : List α} {out : List β} {b : β}
    (h : collect f l = .ok out) (hb : b ∈ out) : ∃ a ∈ l, f a = .ok (some b) := by
  induction l generalizing out with
  | nil =>
    obtain rfl := Except.ok.inj h
    exact absurd hb List.not_mem_nil
  | cons a l ih =>
    simp only [collect, bind_eq_ok, pure_eq_ok] at h
    obtain ⟨found, hfound, rest, hrest, h⟩ := h
    obtain rfl := Except.ok.inj h
    rcases List.mem_append.mp hb with hin | hin
    · refine ⟨a, List.mem_cons_self, ?_⟩
      rw [hfound, Option.mem_toList.mp hin]
    · obtain ⟨a', ha', hf⟩ := ih hrest hin
      exact ⟨a', List.mem_cons_of_mem _ ha', hf⟩

theorem collect_eq_filterMap {f : α → Except ε (Option β)} {g : α → Option β} {l : List α}
    (h : ∀ a ∈ l, f a = .ok (g a)) : collect f l = .ok (l.filterMap g) := by
  induction l with
  | nil => rfl
  | cons a l ih =>
    have hrest := ih fun b hb => h b (List.mem_cons_of_mem _ hb)
    rw [collect, h a List.mem_cons_self, ok_bind, hrest, ok_bind, List.filterMap_cons]
    cases g a <;> rfl

/-! ## Checked updates -/

section Checked

variable {σ : Type} {fault : σ → α → Option ε} {update : σ → α → σ} {s : σ} {l : List α}

/-- An update that a fault refuses. -/
def checked (fault : σ → α → Option ε) (update : σ → α → σ) (s : σ) (a : α) : Except ε σ :=
  match fault s a with
  | some e => .error e
  | none => .ok (update s a)

/-- Some update of the list is refused, after those before it. -/
def SomeRefused (fault : σ → α → Option ε) (update : σ → α → σ) (s : σ) (l : List α) : Prop :=
  ∃ before a after, l = before ++ a :: after ∧ (fault (before.foldl update s) a).isSome = true

theorem someRefused_cons {a : α} : SomeRefused fault update s (a :: l) ↔
    (fault s a).isSome = true ∨ SomeRefused fault update (update s a) l := by
  constructor
  · rintro ⟨before, b, after, heq, hfault⟩
    cases before with
    | nil =>
      obtain ⟨rfl, -⟩ := List.cons.inj heq
      exact .inl hfault
    | cons c before =>
      obtain ⟨rfl, rfl⟩ := List.cons.inj heq
      exact .inr ⟨before, b, after, rfl, hfault⟩
  · rintro (hfault | ⟨before, b, after, rfl, hfault⟩)
    · exact ⟨[], a, l, rfl, hfault⟩
    · exact ⟨a :: before, b, after, rfl, hfault⟩

/-- Updates of which none is refused come to their end. -/
theorem foldlM_checked_of_not (h : ¬SomeRefused fault update s l) :
    l.foldlM (checked fault update) s = .ok (l.foldl update s) := by
  induction l generalizing s with
  | nil => rfl
  | cons a l ih =>
    rw [someRefused_cons, not_or] at h
    have hnone : fault s a = none := by simpa using h.1
    rw [List.foldlM_cons, checked, hnone, ok_bind, List.foldl_cons]
    exact ih h.2

theorem foldlM_checked_of_someRefused (h : SomeRefused fault update s l) :
    ∃ e, l.foldlM (checked fault update) s = .error e := by
  induction l generalizing s with
  | nil =>
    obtain ⟨before, a, after, heq, -⟩ := h
    cases before <;> cases heq
  | cons a l ih =>
    rw [List.foldlM_cons, checked]
    cases hfault : fault s a with
    | some e => exact ⟨e, rfl⟩
    | none =>
      rw [ok_bind]
      refine ih ((someRefused_cons.mp h).resolve_left ?_)
      rw [hfault]
      exact Bool.false_ne_true

end Checked

end Lib
