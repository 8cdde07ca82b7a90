import Mathlib.Data.List.Basic
import Mathlib.Data.List.Nodup
import Mathlib.Data.List.Perm.Subperm

/-!
# Chains of links

A partial function links each key to at most one other. The chain of links from a key is its own
only one, repeats no key, and stays as it is where the links of its keys do.
-/

namespace Lib

variable {α : Type}

/-- The chain of links from a key, up to the key that has no link. -/
inductive Leads (next : α → Option α) : α → List α → α → Prop where
  | ends {a : α} (h : next a = none) : Leads next a [a] a
  | link {a b c : α} {path : List α} (h : next a = some b) (rest : Leads next b path c) :
      Leads next a (a :: path) c

namespace Leads

variable {next next' : α → Option α} {a b c : α} {path path' : List α}

theorem head_mem (h : Leads next a path b) : a ∈ path := by
  cases h with
  | ends _ => exact List.mem_singleton_self a
  | link _ _ => exact List.mem_cons_self

/-- A key has one chain. -/
theorem unique (h : Leads next a path b) (h' : Leads next a path' c) : path = path' ∧ b = c := by
  induction h generalizing path' with
  | ends h =>
    cases h' with
    | ends _ => exact ⟨rfl, rfl⟩
    | link hnext _ => exact absurd (h.symm.trans hnext) (by simp)
  | link hnext _ ih =>
    cases h' with
    | ends h => exact absurd (h.symm.trans hnext) (by simp)
    | link hnext' hrest =>
      obtain rfl := Option.some.inj (hnext.symm.trans hnext')
      obtain ⟨rfl, rfl⟩ := ih hrest
      exact ⟨rfl, rfl⟩

/-- Each key of a chain starts the rest of it. -/
theorem from_mem (h : Leads next a path b) (hc : c ∈ path) :
    ∃ rest, Leads next c rest b ∧ rest.length ≤ path.length := by
  induction h with
  | ends hnext =>
    obtain rfl := List.mem_singleton.mp hc
    exact ⟨_, .ends hnext, Nat.le_refl _⟩
  | @link a b _ path hnext hrest ih =>
    rcases List.mem_cons.mp hc with rfl | hc
    · exact ⟨_, .link hnext hrest, Nat.le_refl _⟩
    · obtain ⟨rest, hleads, hle⟩ := ih hc
      refine ⟨rest, hleads, ?_⟩
      rw [List.length_cons]
      omega

theorem nodup (h : Leads next a path b) : path.Nodup := by
  induction h with
  | ends _ => exact List.nodup_singleton _
  | @link a b c path hnext hrest ih =>
    refine List.nodup_cons.mpr ⟨fun hmem => ?_, ih⟩
    obtain ⟨rest, hleads, hle⟩ := hrest.from_mem hmem
    obtain ⟨rfl, -⟩ := hleads.unique (.link hnext hrest)
    rw [List.length_cons] at hle
    omega

/-- The links of a chain are those of its keys alone. -/
theorem congr (h : Leads next a path b) (heq : ∀ x ∈ path, next' x = next x) :
    Leads next' a path b := by
  induction h with
  | ends hnext => exact .ends ((heq _ (List.mem_singleton_self _)).trans hnext)
  | link hnext _ ih =>
    refine .link ((heq _ List.mem_cons_self).trans hnext) (ih fun x hx => ?_)
    exact heq x (List.mem_cons_of_mem _ hx)

/-- A chain is at most one longer than a list of all the keys that have a link. -/
theorem length_le {keys : List α} (h : Leads next a path b)
    (hkeys : ∀ x, next x ≠ none → x ∈ keys) : path.length ≤ keys.length + 1 := by
  have hsub : path ⊆ b :: keys := by
    intro x hx
    by_cases hnext : next x = none
    · obtain ⟨rest, hleads, -⟩ := h.from_mem hx
      obtain ⟨-, rfl⟩ := hleads.unique (.ends hnext)
      exact List.mem_cons_self
    · exact List.mem_cons_of_mem _ (hkeys x hnext)
  have hlen := (List.Nodup.subperm h.nodup hsub).length_le
  rwa [List.length_cons] at hlen

end Leads

end Lib
