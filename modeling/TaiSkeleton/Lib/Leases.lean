import Mathlib.Algebra.Order.Group.Multiset
import Mathlib.Data.Finmap
import Mathlib.Data.Multiset.Range
import Mathlib.Tactic.Abel

/-!
# Resources that are acquired and closed

Each resource is held under a key, or its close is awaited, or it is closed, or its owner has it
loose, between the time it is acquired and the time it is held or given up. No operation loses a
resource or closes one twice.
-/

namespace Lib

/-- The resources by number: those held, those whose close is awaited, and the closed. -/
structure Leases (κ : Type) where
  acquired : ℕ := 0
  held : Finmap fun _ : κ => ℕ := ∅
  closing : Multiset ℕ := 0
  closed : Multiset ℕ := 0

namespace Leases

variable {κ : Type}

def heldIds (l : Leases κ) : Multiset ℕ := l.held.entries.map Sigma.snd

/-- Every resource is in one place. -/
def Conserved (l : Leases κ) (loose : Multiset ℕ) : Prop :=
  l.heldIds + loose + l.closing + l.closed = Multiset.range l.acquired

/-! ## The operations -/

def acquire (l : Leases κ) : Leases κ := { l with acquired := l.acquired + 1 }

def discard (l : Leases κ) (i : ℕ) : Leases κ := { l with closing := i ::ₘ l.closing }

def releaseAll (l : Leases κ) : Leases κ :=
  { l with held := ∅, closing := l.heldIds + l.closing }

def close (l : Leases κ) (i : ℕ) : Leases κ :=
  { l with closing := l.closing.erase i, closed := i ::ₘ l.closed }

section Keyed

variable [DecidableEq κ]

def hold (l : Leases κ) (key : κ) (i : ℕ) : Leases κ := { l with held := l.held.insert key i }

def release (l : Leases κ) (key : κ) : Leases κ :=
  match l.held.lookup key with
  | none => l
  | some i => { l with held := l.held.erase key, closing := i ::ₘ l.closing }

@[simp]
theorem lookup_hold {l : Leases κ} {key : κ} {i : ℕ} : (l.hold key i).held.lookup key = some i :=
  Finmap.lookup_insert _

theorem lookup_hold_of_ne {l : Leases κ} {key other : κ} {i : ℕ} (h : other ≠ key) :
    (l.hold key i).held.lookup other = l.held.lookup other :=
  Finmap.lookup_insert_of_ne _ h

@[simp]
theorem lookup_release {l : Leases κ} {key : κ} : (l.release key).held.lookup key = none := by
  unfold release
  split
  · next hnone => exact hnone
  · exact Finmap.lookup_erase _ _

theorem lookup_release_of_ne {l : Leases κ} {key other : κ} (h : other ≠ key) :
    (l.release key).held.lookup other = l.held.lookup other := by
  unfold release
  split
  · rfl
  · exact Finmap.lookup_erase_ne h

@[simp]
theorem lookup_releaseAll {l : Leases κ} {key : κ} : l.releaseAll.held.lookup key = none :=
  Finmap.lookup_empty _

end Keyed

/-! ## Every resource stays in one place -/

namespace Conserved

variable {l : Leases κ} {loose : Multiset ℕ} {i : ℕ}

theorem first : (({} : Leases κ)).Conserved 0 := rfl

theorem acquire (h : l.Conserved loose) : l.acquire.Conserved (l.acquired ::ₘ loose) := by
  unfold Conserved at h ⊢
  calc l.heldIds + (l.acquired ::ₘ loose) + l.closing + l.closed
      = l.acquired ::ₘ (l.heldIds + loose + l.closing + l.closed) := by
        simp only [← Multiset.singleton_add]
        abel
    _ = l.acquired ::ₘ Multiset.range l.acquired := by rw [h]
    _ = Multiset.range (l.acquired + 1) := (Multiset.range_succ _).symm

theorem discard (h : l.Conserved (i ::ₘ loose)) : (l.discard i).Conserved loose := by
  unfold Conserved at h ⊢
  calc l.heldIds + loose + (i ::ₘ l.closing) + l.closed
      = l.heldIds + (i ::ₘ loose) + l.closing + l.closed := by
        simp only [← Multiset.singleton_add]
        abel
    _ = Multiset.range l.acquired := h

theorem releaseAll (h : l.Conserved loose) : l.releaseAll.Conserved loose := by
  unfold Conserved at h ⊢
  calc (0 : Multiset ℕ) + loose + (l.heldIds + l.closing) + l.closed
      = l.heldIds + loose + l.closing + l.closed := by abel
    _ = Multiset.range l.acquired := h

theorem close (h : l.Conserved loose) (hi : i ∈ l.closing) : (l.close i).Conserved loose := by
  unfold Conserved at h ⊢
  calc l.heldIds + loose + l.closing.erase i + (i ::ₘ l.closed)
      = l.heldIds + loose + (i ::ₘ l.closing.erase i) + l.closed := by
        simp only [← Multiset.singleton_add]
        abel
    _ = l.heldIds + loose + l.closing + l.closed := by rw [Multiset.cons_erase hi]
    _ = Multiset.range l.acquired := h

theorem count_add (h : l.Conserved loose) (i : ℕ) :
    l.heldIds.count i + loose.count i + l.closing.count i + l.closed.count i =
      if i < l.acquired then 1 else 0 := by
  have hcount := congrArg (Multiset.count i) h
  simp only [Multiset.count_add] at hcount
  rw [hcount, Multiset.count_eq_of_nodup (Multiset.nodup_range _)]
  simp only [Multiset.mem_range]

section Keyed

variable [DecidableEq κ] {key : κ}

theorem entries_of_lookup {m : Finmap fun _ : κ => ℕ} (h : m.lookup key = some i) :
    m.entries = ⟨key, i⟩ ::ₘ (m.erase key).entries := by
  have hback : (m.erase key).insert key i = m := by
    refine Finmap.ext_lookup fun other => ?_
    by_cases hother : other = key
    · subst hother
      rw [Finmap.lookup_insert, h]
    · rw [Finmap.lookup_insert_of_ne _ hother, Finmap.lookup_erase_ne hother]
  calc m.entries = ((m.erase key).insert key i).entries := by rw [hback]
    _ = ⟨key, i⟩ ::ₘ (m.erase key).entries :=
      Finmap.entries_insert_of_notMem Finmap.notMem_erase_self

theorem hold (h : l.Conserved (i ::ₘ loose)) (hkey : l.held.lookup key = none) :
    (l.hold key i).Conserved loose := by
  unfold Conserved at h ⊢
  have hids : (l.hold key i).heldIds = i ::ₘ l.heldIds := by
    unfold heldIds Leases.hold
    rw [Finmap.entries_insert_of_notMem (Finmap.lookup_eq_none.mp hkey), Multiset.map_cons]
  calc (l.hold key i).heldIds + loose + l.closing + l.closed
      = l.heldIds + (i ::ₘ loose) + l.closing + l.closed := by
        simp only [hids, ← Multiset.singleton_add]
        abel
    _ = Multiset.range l.acquired := h

theorem release (h : l.Conserved loose) : (l.release key).Conserved loose := by
  unfold Leases.release
  split
  · exact h
  · next i hi =>
    unfold Conserved at h ⊢
    have hids : l.heldIds = i ::ₘ (l.held.erase key).entries.map Sigma.snd := by
      unfold heldIds
      rw [entries_of_lookup hi, Multiset.map_cons]
    calc (l.held.erase key).entries.map Sigma.snd + loose + (i ::ₘ l.closing) + l.closed
        = l.heldIds + loose + l.closing + l.closed := by
          simp only [hids, ← Multiset.singleton_add]
          abel
      _ = Multiset.range l.acquired := h

/-! ## What follows -/

theorem mem_heldIds_iff : i ∈ l.heldIds ↔ ∃ key, l.held.lookup key = some i := by
  constructor
  · intro h
    obtain ⟨⟨key, _⟩, hentry, rfl⟩ := Multiset.mem_map.mp h
    exact ⟨key, Finmap.mem_lookup_iff.mpr hentry⟩
  · rintro ⟨key, hkey⟩
    exact Multiset.mem_map.mpr ⟨⟨key, i⟩, Finmap.mem_lookup_iff.mp hkey, rfl⟩

omit [DecidableEq κ] in
/-- A resource that is loose is not closed. -/
theorem count_closed_of_loose (h : l.Conserved loose) (hi : i ∈ loose) :
    l.closed.count i = 0 := by
  have hloose : 0 < loose.count i := Multiset.count_pos.mpr hi
  have hcount := h.count_add i
  split_ifs at hcount
  all_goals omega

/-- A resource that is held is not closed. -/
theorem count_closed_of_held (h : l.Conserved loose) (hkey : l.held.lookup key = some i) :
    l.closed.count i = 0 := by
  have hheld : 0 < l.heldIds.count i := Multiset.count_pos.mpr (mem_heldIds_iff.mpr ⟨key, hkey⟩)
  have hcount := h.count_add i
  split_ifs at hcount
  all_goals omega

/-- Once nothing is loose or awaits its close, a resource is held, or has been closed once. -/
theorem held_or_closed (h : l.Conserved 0) (hclosing : l.closing = 0) (hi : i < l.acquired) :
    (∃ key, l.held.lookup key = some i) ∨ l.closed.count i = 1 := by
  have hcount := h.count_add i
  rw [hclosing, if_pos hi, Multiset.count_zero] at hcount
  by_cases hheld : i ∈ l.heldIds
  · exact Or.inl (mem_heldIds_iff.mp hheld)
  · right
    have hzero : l.heldIds.count i = 0 := Multiset.count_eq_zero.mpr hheld
    omega

end Keyed

end Conserved

end Leases

end Lib
