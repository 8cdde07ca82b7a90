import Mathlib.Algebra.Order.Ring.Int

/-!
# Keys with a time to live

A key that has run out reads as absent, whatever it still holds.
-/

namespace Lib

/-- A value with the last moment it is there. -/
structure Expiring (α : Type) where
  value : α
  expiresAt : ℤ
deriving DecidableEq

namespace Expiring

variable {α : Type} {key : Option (Expiring α)} {now now' expiresAt : ℤ} {value : α}

/-- What a key reads as. -/
def read (now : ℤ) (key : Option (Expiring α)) : Option α :=
  match key with
  | some entry => if now ≤ entry.expiresAt then some entry.value else none
  | none => none

/-- `EXPIRE`, without effect on a key that is not there. -/
def refresh (now expiresAt : ℤ) (key : Option (Expiring α)) : Option (Expiring α) :=
  (read now key).map fun value => ⟨value, expiresAt⟩

theorem read_eq_some : read now key = some value ↔
    ∃ entry, key = some entry ∧ now ≤ entry.expiresAt ∧ entry.value = value := by
  cases key with
  | none => simp [read]
  | some entry => simp [read]

end Expiring

end Lib
