import Mathlib.Data.List.Forall2

/-!
# Finite output streams

A generator run to its end: the values it emitted, and the error that cut it short, if any.
`Outputs.Rel R` lifts a relation on values to streams: the same number of values, related one
by one, and the same error. Every stream operation is a congruence for it, so a two-run argument
about a language of generators is one lemma for each construct.
-/

namespace Lib

/-- The values a generator emitted, in order, and the error that ended it early. -/
structure Outputs (ε α : Type) where
  values : List α
  error : Option ε

namespace Outputs

variable {ε α β γ δ : Type}

/-- The one value `a`. -/
def emit (a : α) : Outputs ε α := ⟨[a], none⟩

/-- No value at all. -/
def none : Outputs ε α := ⟨[], Option.none⟩

/-- No value, and the error `e`. -/
def raise (e : ε) : Outputs ε α := ⟨[], some e⟩

/-- The one value of a computation that succeeds, the error of one that fails. -/
def ofExcept : Except ε α → Outputs ε α
  | .ok a => emit a
  | .error e => raise e

/-- The values of `as`, and no error. -/
def each (as : List α) : Outputs ε α := ⟨as, Option.none⟩

/-- First the values of `s`, then those of `t`; an error of `s` ends the stream before `t`. -/
def append (s t : Outputs ε α) : Outputs ε α :=
  match s.error with
  | some _ => s
  | Option.none => ⟨s.values ++ t.values, t.error⟩

/-- `f` on every value of `as`, then the error `e`. -/
def bindList (f : α → Outputs ε β) (e : Option ε) : List α → Outputs ε β
  | [] => ⟨[], e⟩
  | a :: as => append (f a) (bindList f e as)

/-- `f` on every value of `s` in order, up to the first error. -/
def bind (s : Outputs ε α) (f : α → Outputs ε β) : Outputs ε β :=
  bindList f s.error s.values

/-- `s`, with `h` run in the place of its error. -/
def handle (s : Outputs ε α) (h : ε → Outputs ε α) : Outputs ε α :=
  match s.error with
  | Option.none => s
  | some e => ⟨s.values ++ (h e).values, (h e).error⟩

/-- `s` up to its error. -/
def suppress (s : Outputs ε α) : Outputs ε α := s.handle fun _ => none

/-- The list of all values of `s`, unless `s` ends in an error. -/
def collect (s : Outputs ε α) : Outputs ε (List α) :=
  match s.error with
  | Option.none => emit s.values
  | some e => raise e

/-- The values of `a` that satisfy `p`, errors ignored; when there is none, `b`. -/
def alternative (p : α → Bool) (a b : Outputs ε α) : Outputs ε α :=
  match a.values.filter p with
  | [] => b
  | v :: vs => each (v :: vs)

/-- Whether some value satisfies `p`: the first that does ends the search before any error. -/
def anyOf (p : α → Bool) (s : Outputs ε α) : Outputs ε Bool :=
  if s.values.any p then emit true
  else
    match s.error with
    | Option.none => emit false
    | some e => raise e

/-- Whether every value satisfies `p`: the first that does not ends the search before any error. -/
def allOf (p : α → Bool) (s : Outputs ε α) : Outputs ε Bool :=
  if s.values.all p then
    match s.error with
    | Option.none => emit true
    | some e => raise e
  else emit false

/-! ## Running one value -/

@[simp] theorem append_none (s : Outputs ε α) : s.append ⟨[], Option.none⟩ = s := by
  obtain ⟨vs, e⟩ := s
  cases e with
  | none => simp [append]
  | some e => rfl

@[simp] theorem emit_bind (a : α) (f : α → Outputs ε β) : (emit a).bind f = f a :=
  append_none (f a)

/-! ## Related streams -/

/-- The same number of values, pairwise related by `R`, and the same error. -/
structure Rel (R : α → β → Prop) (s : Outputs ε α) (t : Outputs ε β) : Prop where
  values : List.Forall₂ R s.values t.values
  error : s.error = t.error

variable {R : α → β → Prop} {S : γ → δ → Prop}

theorem Rel.mono {R' : α → β → Prop} (hR : ∀ a b, R a b → R' a b) {s : Outputs ε α}
    {t : Outputs ε β} (h : Rel R s t) : Rel R' s t :=
  ⟨h.values.imp hR, h.error⟩

/-- Streams related by equality are equal. -/
theorem rel_eq_iff {s t : Outputs ε α} : Rel Eq s t ↔ s = t := by
  constructor
  · intro h
    obtain ⟨vs, e⟩ := s
    obtain ⟨ws, e'⟩ := t
    have hv : vs = ws := List.forall₂_eq_eq_eq ▸ h.values
    have he : e = e' := h.error
    rw [hv, he]
  · rintro rfl
    exact ⟨List.forall₂_refl _, rfl⟩

theorem Rel.emit {a : α} {b : β} (h : R a b) : Rel (ε := ε) R (emit a) (emit b) :=
  ⟨.cons h .nil, rfl⟩

theorem Rel.none : Rel (ε := ε) R none none := ⟨.nil, rfl⟩

theorem Rel.each {as : List α} {bs : List β} (h : List.Forall₂ R as bs) :
    Rel (ε := ε) R (each as) (each bs) :=
  ⟨h, rfl⟩

theorem Rel.append {s s' : Outputs ε α} {t t' : Outputs ε β} (h : Rel R s t)
    (h' : Rel R s' t') : Rel R (s.append s') (t.append t') := by
  unfold Outputs.append
  rw [← h.error]
  cases s.error with
  | none => exact ⟨List.rel_append h.values h'.values, h'.error⟩
  | some e => exact h

theorem Rel.bind {s : Outputs ε α} {t : Outputs ε β} {f : α → Outputs ε γ} {g : β → Outputs ε δ}
    (h : Rel R s t) (hfg : ∀ a b, R a b → Rel S (f a) (g b)) : Rel S (s.bind f) (t.bind g) := by
  unfold Outputs.bind
  rw [← h.error]
  generalize s.error = e
  have hv := h.values
  generalize s.values = as at hv
  generalize t.values = bs at hv
  induction hv with
  | nil => exact ⟨.nil, rfl⟩
  | cons hab _ ih => exact (hfg _ _ hab).append ih

theorem Rel.handle {s : Outputs ε α} {t : Outputs ε β} {f : ε → Outputs ε α}
    {g : ε → Outputs ε β} (h : Rel R s t) (hfg : ∀ e, Rel R (f e) (g e)) :
    Rel R (s.handle f) (t.handle g) := by
  unfold Outputs.handle
  rw [← h.error]
  cases s.error with
  | none => exact h
  | some e => exact ⟨List.rel_append h.values (hfg e).values, (hfg e).error⟩

theorem Rel.suppress {s : Outputs ε α} {t : Outputs ε β} (h : Rel R s t) :
    Rel R s.suppress t.suppress :=
  h.handle fun _ => Rel.none

theorem Rel.alternative {p : α → Bool} {q : β → Bool} (hpq : ∀ a b, R a b → p a = q b)
    {s s' : Outputs ε α} {t t' : Outputs ε β} (h : Rel R s t) (h' : Rel R s' t') :
    Rel R (alternative p s s') (alternative q t t') := by
  have hf : List.Forall₂ R (s.values.filter p) (t.values.filter q) :=
    List.rel_filter (fun {_ _} hab => by simp [hpq _ _ hab]) h.values
  unfold Outputs.alternative
  generalize s.values.filter p = as at hf
  generalize t.values.filter q = bs at hf
  cases hf with
  | nil => exact h'
  | cons hab hrest => exact Rel.each (.cons hab hrest)

end Outputs

end Lib
