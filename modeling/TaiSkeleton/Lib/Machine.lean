import Mathlib.Data.List.Basic

/-!
# Machines that emit as they step

A deterministic machine over states `σ` that emits a list of `τ` on every step and stops where
`step` is `none`. `Emits` composes runs; `drain` runs a machine whose steps decrease a measure.
-/

namespace Lib

variable {σ τ : Type}

/-- A run of the machine `step`, with all it emits. -/
inductive Emits (step : σ → Option (List τ × σ)) : σ → List τ → σ → Prop where
  | refl (s : σ) : Emits step s [] s
  | head {s s' s'' : σ} {out outs : List τ} (first : step s = some (out, s'))
      (rest : Emits step s' outs s'') : Emits step s (out ++ outs) s''

variable {step : σ → Option (List τ × σ)}

theorem Emits.single {s s' : σ} {out : List τ} (h : step s = some (out, s')) :
    Emits step s out s' := by
  have := Emits.head h (.refl s')
  rwa [List.append_nil] at this

theorem Emits.trans {s s' s'' : σ} {out outs : List τ} (h : Emits step s out s')
    (h' : Emits step s' outs s'') : Emits step s (out ++ outs) s'' := by
  induction h with
  | refl s => exact h'
  | head first _ ih =>
    rw [List.append_assoc]
    exact .head first (ih h')

/-- At most `fuel` steps of the machine, with all they emit and the state they end in. -/
def drain (step : σ → Option (List τ × σ)) : ℕ → σ → List τ × σ
  | 0, s => ([], s)
  | fuel + 1, s =>
    match step s with
    | none => ([], s)
    | some (out, s') => (out ++ (drain step fuel s').1, (drain step fuel s').2)

/-- A run that ends where the machine stops is what `drain` computes, given a measure that
every step decreases. -/
theorem Emits.drain_eq {μ : σ → ℕ} (hμ : ∀ s out s', step s = some (out, s') → μ s' < μ s)
    {s s' : σ} {outs : List τ} (h : Emits step s outs s') (hstop : step s' = none) {fuel : ℕ}
    (hfuel : μ s ≤ fuel) : drain step fuel s = (outs, s') := by
  induction h generalizing fuel with
  | refl s =>
    cases fuel with
    | zero => rfl
    | succ n => simp only [drain, hstop]
  | @head s s₁ s₂ out outs first rest ih =>
    have hlt := hμ s out s₁ first
    cases fuel with
    | zero => omega
    | succ n =>
      have hn : μ s₁ ≤ n := by omega
      simp only [drain, first, ih hstop hn]

end Lib
