import Mathlib.Data.Finset.Card
import Mathlib.Logic.Function.Basic

/-!
# Forests by parent pointers

Each key has a parent, or none. The keys are a forest where every chain of parents ends. A chain
keeps its end when keys get new parents that do not come back to them.
-/

namespace Lib.Forest

variable {κ : Type} {parent parent' : κ → Option κ} {k k' p : κ}

/-- The chain of parents from a key ends. -/
inductive Ends (parent : κ → Option κ) : κ → Prop where
  | root {k : κ} (h : parent k = none) : Ends parent k
  | step {k p : κ} (h : parent k = some p) (hp : Ends parent p) : Ends parent k

/-- The chain of parents from a key comes to another. -/
inductive Climbs (parent : κ → Option κ) : κ → κ → Prop where
  | refl {k : κ} : Climbs parent k k
  | step {k p k' : κ} (h : parent k = some p) (hp : Climbs parent p k') : Climbs parent k k'

theorem Climbs.tail (h : Climbs parent k k') (hp : parent k' = some p) : Climbs parent k p := by
  induction h with
  | refl => exact .step hp .refl
  | step hk _ ih => exact .step hk (ih hp)

/-- A chain does not come to a key that is nobody's parent. -/
theorem Climbs.eq_of_childless (h : Climbs parent k k') (hchildless : ∀ p, parent p ≠ some k') :
    k = k' := by
  induction h with
  | refl => rfl
  | @step a b _ hstep _ ih =>
    obtain rfl := ih hchildless
    exact absurd hstep (hchildless a)

/-- Where all chains end, none comes back. -/
theorem Ends.not_climbs (h : Ends parent k) (hp : parent k = some p) : ¬Climbs parent p k := by
  intro hclimb
  induction h generalizing p with
  | root hroot =>
    rw [hroot] at hp
    cases hp
  | step hstep _ ih =>
    rw [hstep] at hp
    obtain rfl := Option.some.inj hp
    cases hclimb with
    | refl => exact ih hstep .refl
    | step hnext hrest => exact ih hnext (hrest.tail hstep)

/-- Where finitely many keys get other parents, and no new chain comes back to one of them, all
chains end. -/
theorem Ends.overlay [DecidableEq κ] {s : Finset κ} (h : ∀ k, Ends parent k)
    (hsame : ∀ k, k ∉ s → parent' k = parent k)
    (hnot : ∀ k ∈ s, ∀ p, parent' k = some p → ¬Climbs parent' p k) (k : κ) :
    Ends parent' k := by
  -- the keys of `passed` are those of the s ones that the chain has come through
  suffices hgoal : ∀ n, ∀ passed ⊆ s, (s \ passed).card = n → ∀ k,
      (∀ f ∈ passed, ∃ p, parent' f = some p ∧ Climbs parent' p k) → Ends parent' k from
    hgoal _ ∅ (Finset.empty_subset s) rfl k (by simp)
  intro n
  induction n using Nat.strong_induction_on with
  | _ n ih =>
    intro passed hpassed hcard
    have hheld : ∀ k ∈ s, (∀ f ∈ passed, ∃ p, parent' f = some p ∧ Climbs parent' p k) →
        Ends parent' k := by
      intro k hk hcome
      cases hp : parent' k with
      | none => exact .root hp
      | some p =>
        have hfresh : k ∉ passed := by
          intro hmem
          obtain ⟨q, hq, hclimb⟩ := hcome k hmem
          exact hnot k hk q hq hclimb
        have hlt : (s \ insert k passed).card < n := by
          rw [← hcard]
          refine Finset.card_lt_card ((Finset.ssubset_iff_of_subset ?_).mpr ⟨k, ?_, ?_⟩)
          · exact Finset.sdiff_subset_sdiff le_rfl (Finset.subset_insert k passed)
          · simp [hk, hfresh]
          · simp
        refine .step hp (ih _ hlt _ (Finset.insert_subset hk hpassed) rfl p fun f hf => ?_)
        obtain rfl | hf := Finset.mem_insert.mp hf
        · exact ⟨p, hp, .refl⟩
        · obtain ⟨q, hq, hclimb⟩ := hcome f hf
          exact ⟨q, hq, hclimb.tail hp⟩
    intro k
    induction h k with
    | @root k hroot =>
      intro hcome
      by_cases hk : k ∈ s
      · exact hheld k hk hcome
      · exact .root ((hsame k hk).trans hroot)
    | @step k _ hstep _ ihk =>
      intro hcome
      by_cases hk : k ∈ s
      · exact hheld k hk hcome
      · have hp := (hsame k hk).trans hstep
        refine .step hp (ihk fun f hf => ?_)
        obtain ⟨p, hf', hclimb⟩ := hcome f hf
        exact ⟨p, hf', hclimb.tail hp⟩

theorem Climbs.of_update [DecidableEq κ] {new : Option κ}
    (h : Climbs (Function.update parent k' new) k k') : Climbs parent k k' := by
  generalize hp : Function.update parent k' new = parent' at h
  induction h with
  | refl => exact .refl
  | step hstep _ ih =>
    subst hp
    rename_i a b target hclimb
    by_cases ha : a = target
    · subst ha
      exact .refl
    · rw [Function.update_of_ne ha] at hstep
      exact .step hstep (ih rfl)

/-- One key gets a parent whose chain does not come to it. -/
theorem Ends.update [DecidableEq κ] {new : Option κ} (h : ∀ k, Ends parent k)
    (hnot : ∀ p, new = some p → ¬Climbs parent p k') (k : κ) :
    Ends (Function.update parent k' new) k := by
  refine Ends.overlay (s := {k'}) h (fun k hk => ?_) (fun k hk p hp hclimb => ?_) k
  · exact Function.update_of_ne (by simpa using hk) _ _
  · obtain rfl := Finset.mem_singleton.mp hk
    rw [Function.update_self] at hp
    exact hnot p hp hclimb.of_update

/-! ## The climb -/

/-- Climbs the chain from a cursor: whether it comes to the key, if the fuel lasts. -/
def climb [DecidableEq κ] (parent : κ → Option κ) (target : κ) : ℕ → Option κ → Option Bool
  | _, none => some false
  | 0, some _ => none
  | fuel + 1, some cursor =>
    if cursor = target then some true else climb parent target fuel (parent cursor)

theorem not_climbs_of_climb [DecidableEq κ] {fuel : ℕ} {target : κ}
    (h : climb parent target fuel (some k) = some false) : ¬Climbs parent k target := by
  induction fuel generalizing k with
  | zero => cases h
  | succ fuel ih =>
    intro hclimbs
    simp only [climb] at h
    split_ifs at h with hk
    · cases h
    · cases hclimbs with
      | refl => exact hk rfl
      | step hstep hrest =>
        rw [hstep] at h
        exact ih h hrest

/-- The climb comes to an end where the chain does. -/
theorem Ends.climb [DecidableEq κ] (target : κ) (h : Ends parent k) :
    ∃ fuel, (climb parent target fuel (some k)).isSome = true := by
  induction h with
  | root hroot =>
    refine ⟨1, ?_⟩
    simp only [Forest.climb, hroot]
    split_ifs <;> rfl
  | step hstep _ ih =>
    obtain ⟨fuel, hfuel⟩ := ih
    refine ⟨fuel + 1, ?_⟩
    simp only [Forest.climb, hstep]
    split_ifs
    · rfl
    · exact hfuel

end Lib.Forest
