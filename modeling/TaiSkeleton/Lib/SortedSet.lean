import Mathlib.Data.List.Nodup
import Mathlib.Data.List.Sort
import Mathlib.Order.Basic

/-!
# Sorted sets

A sorted set gives each of its members one score. The commands on it are those of a Redis ZSET;
what each leaves of the score of a member is stated beside it.
-/

namespace Lib

/-- A set of scored members, each there once. -/
structure SortedSet (β : Type) where
  entries : List (β × ℤ)
  nodup : (entries.map Prod.fst).Nodup

namespace SortedSet

variable {β : Type} [DecidableEq β] {z : SortedSet β} {member member' : β} {score low high : ℤ}

def empty : SortedSet β := ⟨[], List.nodup_nil⟩

/-- `ZSCORE` -/
def score? (z : SortedSet β) (member : β) : Option ℤ := z.entries.lookup member

/-- The entries that meet a condition. -/
def filter (z : SortedSet β) (keep : β × ℤ → Bool) : SortedSet β where
  entries := z.entries.filter keep
  nodup := z.nodup.sublist (List.filter_sublist.map Prod.fst)

/-- `ZREM` -/
def rem (z : SortedSet β) (member : β) : SortedSet β := z.filter fun entry => entry.1 ≠ member

/-- `ZADD` -/
def add (z : SortedSet β) (member : β) (score : ℤ) : SortedSet β where
  entries := (member, score) :: (z.rem member).entries
  nodup := by
    refine List.nodup_cons.mpr ⟨fun hmem => ?_, (z.rem member).nodup⟩
    obtain ⟨entry, hentry, hfst⟩ := List.mem_map.mp hmem
    simpa [hfst] using (List.mem_filter.mp hentry).2

/-- `ZADD` with `GT`: the score of a member that is there only grows. -/
def addGT (z : SortedSet β) (member : β) (score : ℤ) : SortedSet β :=
  match z.score? member with
  | none => z.add member score
  | some old => z.add member (max old score)

/-- `ZRANGEBYSCORE` -/
def rangeByScore (z : SortedSet β) (low high : ℤ) : List β :=
  (z.entries.filter fun entry => low ≤ entry.2 ∧ entry.2 ≤ high).map Prod.fst

/-- `ZREMRANGEBYSCORE` -/
def remRangeByScore (z : SortedSet β) (low high : ℤ) : SortedSet β :=
  z.filter fun entry => ¬ (low ≤ entry.2 ∧ entry.2 ≤ high)

/-- `ZCARD` -/
def card (z : SortedSet β) : ℕ := z.entries.length

/-- `ZRANGE` over all members, which `le` orders where scores agree. -/
def range (z : SortedSet β) (le : β → β → Bool) : List β :=
  (z.entries.insertionSort fun a b => a.2 < b.2 ∨ a.2 = b.2 ∧ le a.1 b.1).map Prod.fst

theorem score?_eq_some : z.score? member = some score ↔ (member, score) ∈ z.entries := by
  obtain ⟨entries, nodup⟩ := z
  show entries.lookup member = some score ↔ (member, score) ∈ entries
  induction entries with
  | nil => simp
  | cons entry entries ih =>
    obtain ⟨member', score'⟩ := entry
    rw [List.map_cons, List.nodup_cons] at nodup
    rw [List.lookup_cons, List.mem_cons, Prod.mk.injEq]
    by_cases heq : member = member'
    · subst heq
      have hnot : (member, score) ∉ entries := fun hmem =>
        nodup.1 (List.mem_map.mpr ⟨_, hmem, rfl⟩)
      simp [hnot, eq_comm]
    · have hb : (member == member') = false := beq_eq_false_iff_ne.mpr heq
      simp [hb, heq, ih nodup.2]

theorem score?_filter {keep : β × ℤ → Bool} :
    (z.filter keep).score? member = (z.score? member).filter fun score => keep (member, score) := by
  ext score
  rw [Option.filter_eq_some_iff, score?_eq_some, score?_eq_some]
  exact List.mem_filter

@[simp] theorem score?_rem_self : (z.rem member).score? member = none := by
  rw [rem, score?_filter]
  simp

theorem score?_rem_of_ne (h : member' ≠ member) :
    (z.rem member).score? member' = z.score? member' := by
  rw [rem, score?_filter]
  cases z.score? member' <;> simp [h]

@[simp] theorem score?_add_self : (z.add member score).score? member = some score :=
  score?_eq_some.mpr (List.mem_cons_self)

theorem score?_add_of_ne (h : member' ≠ member) :
    (z.add member score).score? member' = z.score? member' := by
  rw [← score?_rem_of_ne (z := z) h]
  have hb : (member' == member) = false := beq_eq_false_iff_ne.mpr h
  show List.lookup member' (_ :: _) = _
  rw [List.lookup_cons, hb]
  rfl

/-- The score that `ZADD GT` leaves reaches the old one and the one given. -/
theorem score?_addGT_self (z : SortedSet β) (member : β) (score : ℤ) :
    ∃ new, (z.addGT member score).score? member = some new ∧
    score ≤ new ∧ ∀ old, z.score? member = some old → old ≤ new := by
  unfold addGT
  cases hold : z.score? member with
  | none => exact ⟨score, score?_add_self, le_refl _, fun old h => by cases h⟩
  | some old =>
    refine ⟨max old score, score?_add_self, le_max_right _ _, fun old' h => ?_⟩
    obtain rfl := Option.some.inj h
    exact le_max_left _ _

theorem score?_addGT_of_ne (h : member' ≠ member) :
    (z.addGT member score).score? member' = z.score? member' := by
  unfold addGT
  split <;> exact score?_add_of_ne h

theorem mem_range {le : β → β → Bool} :
    member ∈ z.range le ↔ ∃ score, z.score? member = some score := by
  unfold range
  rw [List.mem_map]
  constructor
  · rintro ⟨⟨member', score⟩, hmem, rfl⟩
    exact ⟨score, score?_eq_some.mpr ((List.mem_insertionSort _).mp hmem)⟩
  · rintro ⟨score, hscore⟩
    exact ⟨(member, score), (List.mem_insertionSort _).mpr (score?_eq_some.mp hscore), rfl⟩

theorem mem_rangeByScore :
    member ∈ z.rangeByScore low high ↔ ∃ score, z.score? member = some score ∧
      low ≤ score ∧ score ≤ high := by
  unfold rangeByScore
  rw [List.mem_map]
  constructor
  · rintro ⟨⟨member', score⟩, hmem, rfl⟩
    obtain ⟨hmem, hrange⟩ := List.mem_filter.mp hmem
    exact ⟨score, score?_eq_some.mpr hmem, by simpa using hrange⟩
  · rintro ⟨score, hscore, hrange⟩
    exact ⟨(member, score), List.mem_filter.mpr ⟨score?_eq_some.mp hscore, by simpa using hrange⟩,
      rfl⟩

end SortedSet

end Lib
