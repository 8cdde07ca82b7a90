import TaiSkeleton.Lib.Dict
import Mathlib.Algebra.Order.Field.Rat
import Mathlib.Data.List.Induction
import Mathlib.Data.List.Nodup
import Mathlib.Data.List.Perm.Subperm
import Mathlib.Tactic.Linarith

/-!
# A cache of bounded size and age

What is documented of a cache whose entries run out some time after they were written last, and
which evicts where it is full. While the live keys fit, a write leaves the other entries as they
are, and a copy holds what was live, for its time from the copy on. A cache that evicts the least
recently used entry is one.
-/

namespace Lib

variable {κ α : Type} [DecidableEq κ]

/-- A cache of entries that live for `ttl` after they were written. -/
structure TtlCache (κ α : Type) [DecidableEq κ] (ttl : ℚ) where
  State : Type
  /-- No entries, and a bound on their number. -/
  empty : ℕ → State
  maxsize : State → ℕ
  /-- What an iteration over the entries yields. -/
  items : State → ℚ → List (κ × α)
  write : State → ℚ → κ → α → State
  /-- An assignment to the fields of the values that an iteration yields: the entries refer to
  them. -/
  assign : State → ℚ → (α → α) → State
  nodup : ∀ c now, ((items c now).map Prod.fst).Nodup
  maxsize_empty : ∀ n, maxsize (empty n) = n
  maxsize_write : ∀ c now key value, maxsize (write c now key value) = maxsize c
  maxsize_assign : ∀ c now f, maxsize (assign c now f) = maxsize c
  items_empty : ∀ n now, items (empty n) now = []
  lookup_write_self : ∀ c now key value t, now ≤ t →
    (items (write c now key value) t).lookup key = if t < now + ttl then some value else none
  /-- Nothing is evicted while the live keys and the new one fit. -/
  lookup_write_of_ne : ∀ c now key value t key', key' ≠ key → now ≤ t →
    (((items c now).map Prod.fst).insert key).length ≤ maxsize c →
    (items (write c now key value) t).lookup key' = (items c t).lookup key'
  lookup_assign : ∀ c now f t key, now ≤ t →
    (items (assign c now f) t).lookup key = ((items c t).lookup key).map f

namespace TtlCache

variable {ttl : ℚ} (C : TtlCache κ α ttl) {c : C.State} {now t : ℚ} {key key' : κ} {value : α}

/-- `cache.get(key)` -/
def read (c : C.State) (now : ℚ) (key : κ) : Option α := (C.items c now).lookup key

/-- The keys that are live. -/
def keys (c : C.State) (now : ℚ) : List κ := (C.items c now).map Prod.fst

/-- There is room for the key. -/
def Fits (c : C.State) (now : ℚ) (key : κ) : Prop :=
  ((C.keys c now).insert key).length ≤ C.maxsize c

instance : Decidable (C.Fits c now key) := inferInstanceAs (Decidable (_ ≤ _))

/-- The entries, written one after another. -/
def writeAll (c : C.State) (now : ℚ) (entries : List (κ × α)) : C.State :=
  entries.foldl (fun c entry => C.write c now entry.1 entry.2) c

/-- `new.update(cache)`, into a new cache. -/
def copy (c : C.State) (now : ℚ) (maxsize : ℕ) : C.State :=
  C.writeAll (C.empty maxsize) now (C.items c now)

theorem read_empty (n : ℕ) : C.read (C.empty n) now key = none := by
  unfold read
  rw [C.items_empty]
  rfl

theorem read_write_self (h : now ≤ t) : C.read (C.write c now key value) t key =
    if t < now + ttl then some value else none := C.lookup_write_self c now key value t h

theorem read_write_of_ne (hne : key' ≠ key) (h : now ≤ t) (hfits : C.Fits c now key) :
    C.read (C.write c now key value) t key' = C.read c t key' :=
  C.lookup_write_of_ne c now key value t key' hne h hfits

theorem read_assign {f : α → α} (h : now ≤ t) :
    C.read (C.assign c now f) t key = (C.read c t key).map f := C.lookup_assign c now f t key h

theorem mem_keys_iff : key ∈ C.keys c now ↔ C.read c now key ≠ none := by
  unfold keys read
  rw [← Option.isSome_iff_ne_none, List.lookup_isSome_iff, List.mem_map]
  constructor
  · rintro ⟨entry, hmem, rfl⟩
    exact ⟨entry, hmem, beq_self_eq_true _⟩
  · rintro ⟨entry, hmem, hkey⟩
    exact ⟨entry, hmem, (eq_of_beq hkey).symm⟩

theorem length_insert_le {l l' : List κ} (hnodup : l.Nodup) (hsubset : l ⊆ l') (key : κ) :
    (l.insert key).length ≤ l'.length + 1 := by
  have hsubset' : l.insert key ⊆ key :: l' := by
    intro key' hmem
    rcases List.mem_insert_iff.mp hmem with rfl | hmem
    · exact List.mem_cons_self
    · exact List.mem_cons_of_mem _ (hsubset hmem)
  exact (List.subperm_of_subset (hnodup.insert) hsubset').length_le

theorem writeAll_concat (l : List (κ × α)) (entry : κ × α) :
    C.writeAll c now (l ++ [entry]) = C.write (C.writeAll c now l) now entry.1 entry.2 := by
  unfold writeAll
  rw [List.foldl_append]
  rfl

theorem maxsize_writeAll (l : List (κ × α)) :
    C.maxsize (C.writeAll c now l) = C.maxsize c := by
  induction l using List.reverseRecOn with
  | nil => rfl
  | append_singleton l entry ih => rw [C.writeAll_concat, C.maxsize_write, ih]

/-- Entries of different keys, as many as there is room for, are all there. -/
theorem read_writeAll {n : ℕ} {l : List (κ × α)} (hroom : l.length ≤ n)
    (hnodup : (l.map Prod.fst).Nodup) (h : now ≤ t) :
    C.read (C.writeAll (C.empty n) now l) t key =
      if t < now + ttl then l.lookup key else none := by
  -- over the entries written so far, each of which stays while the next one is written
  induction l using List.reverseRecOn generalizing t key with
  | nil =>
    show C.read (C.empty n) t key = _
    rw [C.read_empty, List.lookup_nil, ite_self]
  | append_singleton l entry ih =>
    obtain ⟨newest, value⟩ := entry
    rw [List.map_append, List.nodup_append] at hnodup
    rw [List.length_append, List.length_singleton] at hroom
    have hnew : l.lookup newest = none := by
      rw [List.lookup_eq_none_iff]
      intro pair hpair
      rw [bne_iff_ne]
      exact fun heq => hnodup.2.2 pair.1 (List.mem_map_of_mem hpair) newest (by simp) heq.symm
    have ih := fun t key h => @ih t key (by omega) hnodup.1 h
    rw [C.writeAll_concat]
    by_cases hkey : key = newest
    · subst hkey
      rw [C.read_write_self h, List.lookup_append, hnew, List.lookup_cons_self, Option.none_or]
    · have hsubset : C.keys (C.writeAll (C.empty n) now l) now ⊆ l.map Prod.fst := by
        intro key' hmem
        rw [C.mem_keys_iff, ih now key' le_rfl] at hmem
        obtain ⟨-, hsome⟩ := ite_ne_right_iff.mp hmem
        rw [← Option.isSome_iff_ne_none, List.lookup_isSome_iff] at hsome
        obtain ⟨pair, hpair, hkey'⟩ := hsome
        exact List.mem_map.mpr ⟨pair, hpair, (eq_of_beq hkey').symm⟩
      have hfits : C.Fits (C.writeAll (C.empty n) now l) now newest := by
        refine (length_insert_le (C.nodup _ _) hsubset _).trans ?_
        rw [C.maxsize_writeAll, C.maxsize_empty, List.length_map]
        exact hroom
      have hne : (key == newest) = false := beq_eq_false_iff_ne.mpr hkey
      rw [C.read_write_of_ne hkey h hfits, ih t key h, List.lookup_append, List.lookup_cons,
        hne, List.lookup_nil, Option.or_none]

theorem maxsize_copy (n : ℕ) : C.maxsize (C.copy c now n) = n :=
  (C.maxsize_writeAll _).trans (C.maxsize_empty n)

/-- A copy holds what was live, for its time. -/
theorem read_copy {n : ℕ} (hroom : (C.keys c now).length ≤ n) (h : now ≤ t) :
    C.read (C.copy c now n) t key = if t < now + ttl then C.read c now key else none := by
  unfold keys at hroom
  rw [List.length_map] at hroom
  exact C.read_writeAll hroom (C.nodup c now) h

end TtlCache

/-! ## The least recently used entry evicted -/

/-- Entries with the moment they run out, the least recently used one first. -/
structure LruEntries (κ α : Type) where
  maxsize : ℕ
  entries : List (κ × α × ℚ)
  nodup : (entries.map Prod.fst).Nodup

namespace LruEntries

variable {now t expiresAt : ℚ} {key key' : κ} {value : α} {l : List (κ × α × ℚ)}

def live (now : ℚ) (l : List (κ × α × ℚ)) : List (κ × α) :=
  (l.filter fun (_, _, expiresAt) => now < expiresAt).map fun (key, value, _) => (key, value)

/-- The entries that stay while the key is written: they have not run out, and those used least
recently make room. -/
def others (now : ℚ) (maxsize : ℕ) (key : κ) (l : List (κ × α × ℚ)) : List (κ × α × ℚ) :=
  let rest := (l.filter fun (_, _, expiresAt) => now < expiresAt).filter fun (key', _) => key' ≠ key
  rest.drop (rest.length + 1 - maxsize)

theorem sublist_others (maxsize : ℕ) : (others now maxsize key l).Sublist l :=
  ((List.drop_sublist _ _).trans List.filter_sublist).trans List.filter_sublist

theorem nodup_write (maxsize : ℕ) (h : (l.map Prod.fst).Nodup) :
    ((others now maxsize key l ++ [(key, value, expiresAt)]).map Prod.fst).Nodup := by
  rw [List.map_append, List.nodup_append]
  refine ⟨h.sublist ((sublist_others maxsize).map _), by simp, ?_⟩
  intro key₁ hkey₁ key₂ hkey₂ heq
  obtain rfl : key₂ = key := by simpa using hkey₂
  obtain ⟨entry, hentry, rfl⟩ := List.mem_map.mp hkey₁
  have hmem := List.mem_of_mem_drop hentry
  rw [List.mem_filter] at hmem
  exact absurd heq (by simpa using hmem.2)

omit [DecidableEq κ] in
theorem map_live : (live now l).map Prod.fst =
    (l.filter fun (_, _, expiresAt) => now < expiresAt).map Prod.fst := by
  unfold live
  rw [List.map_map]
  rfl

omit [DecidableEq κ] in
theorem live_append (l' : List (κ × α × ℚ)) : live t (l ++ l') = live t l ++ live t l' := by
  unfold live
  rw [List.filter_append, List.map_append]

theorem lookup_live_others_self (maxsize : ℕ) :
    (live t (others now maxsize key l)).lookup key = none := by
  rw [List.lookup_eq_none_iff]
  intro pair hpair
  obtain ⟨entry, hentry, rfl⟩ := List.mem_map.mp hpair
  have hmem := List.mem_of_mem_drop (List.mem_of_mem_filter hentry)
  rw [List.mem_filter] at hmem
  rw [bne_iff_ne]
  exact fun heq => absurd heq.symm (by simpa using hmem.2)

/-- Where the live keys and the new one fit, no entry makes room. -/
theorem others_eq {maxsize : ℕ}
    (hfits : (((live now l).map Prod.fst).insert key).length ≤ maxsize) :
    others now maxsize key l = (l.filter fun (_, _, expiresAt) => now < expiresAt).filter
      fun (key', _) => key' ≠ key := by
  rw [map_live] at hfits
  unfold others
  dsimp only
  generalize l.filter (fun (_, _, expiresAt) => now < expiresAt) = l at hfits ⊢
  suffices hlength : (l.filter fun (key', _) => key' ≠ key).length + 1 ≤ maxsize by
    rw [Nat.sub_eq_zero_of_le hlength, List.drop_zero]
  by_cases hmem : key ∈ l.map Prod.fst
  · rw [List.insert_of_mem hmem, List.length_map] at hfits
    obtain ⟨entry, hentry, rfl⟩ := List.mem_map.mp hmem
    refine (Nat.succ_le_of_lt (List.length_filter_lt_length_iff_exists.mpr
      ⟨entry, hentry, ?_⟩)).trans hfits
    simp
  · rw [List.length_insert_of_not_mem hmem, List.length_map] at hfits
    exact (Nat.succ_le_succ (List.length_filter_le _ _)).trans hfits

theorem lookup_live_others {maxsize : ℕ} (hne : key' ≠ key) (h : now ≤ t)
    (hfits : (((live now l).map Prod.fst).insert key).length ≤ maxsize) :
    (live t (others now maxsize key l)).lookup key' = (live t l).lookup key' := by
  have hlive : live t (others now maxsize key l) =
      (live t l).filter fun entry => entry.1 ≠ key := by
    rw [others_eq hfits]
    unfold live
    rw [List.filter_map, List.filter_filter, List.filter_filter, List.filter_filter]
    congr 1
    refine List.filter_congr fun entry _ => ?_
    have hlater : t < entry.2.2 → now < entry.2.2 := h.trans_lt
    by_cases hentry : t < entry.2.2
    · simp [hentry, hlater hentry]
    · simp [hentry]
  rw [hlive]
  exact (lookup_filter_key (fun key' => decide (key' ≠ key)) _ _).trans
    (if_pos (by simpa using hne))

omit [DecidableEq κ] in
theorem live_assign (f : α → α) (h : now ≤ t) :
    live t (l.map fun (key, value, expiresAt) =>
      (key, if now < expiresAt then f value else value, expiresAt)) =
      (live t l).map fun (key, value) => (key, f value) := by
  unfold live
  rw [List.filter_map, List.map_map, List.map_map]
  refine List.map_congr_left fun entry hentry => ?_
  have hlive : t < entry.2.2 := by simpa using List.of_mem_filter hentry
  show (entry.1, if now < entry.2.2 then f entry.2.1 else entry.2.1) = _
  rw [if_pos (h.trans_lt hlive)]
  rfl

end LruEntries

/-- The cache that evicts the least recently used entry. -/
def lruCache (κ α : Type) [DecidableEq κ] (ttl : ℚ) : TtlCache κ α ttl where
  State := LruEntries κ α
  empty maxsize := ⟨maxsize, [], List.nodup_nil⟩
  maxsize c := c.maxsize
  items c now := LruEntries.live now c.entries
  write c now key value := ⟨c.maxsize,
    LruEntries.others now c.maxsize key c.entries ++ [(key, value, now + ttl)],
    LruEntries.nodup_write c.maxsize c.nodup⟩
  assign c now f := ⟨c.maxsize,
    c.entries.map fun (key, value, expiresAt) =>
      (key, if now < expiresAt then f value else value, expiresAt),
    by rw [List.map_map]; exact c.nodup⟩
  nodup c now := by
    rw [LruEntries.map_live]
    exact c.nodup.sublist (List.filter_sublist.map _)
  maxsize_empty _ := rfl
  maxsize_write _ _ _ _ := rfl
  maxsize_assign _ _ _ := rfl
  items_empty _ _ := rfl
  lookup_write_self c now key value t h := by
    rw [LruEntries.live_append, List.lookup_append, LruEntries.lookup_live_others_self,
      Option.none_or]
    unfold LruEntries.live
    split_ifs with hlive
    · simp [hlive]
    · simp [hlive]
  lookup_write_of_ne c now key value t key' hne h hfits := by
    have hnew : (LruEntries.live t [(key, value, now + ttl)]).lookup key' = none := by
      rw [List.lookup_eq_none_iff]
      intro pair hpair
      obtain ⟨entry, hentry, rfl⟩ := List.mem_map.mp hpair
      rw [List.mem_singleton.mp (List.mem_of_mem_filter hentry), bne_iff_ne]
      exact hne
    rw [LruEntries.live_append, List.lookup_append, LruEntries.lookup_live_others hne h hfits,
      hnew, Option.or_none]
  lookup_assign c now f t key h := by
    rw [LruEntries.live_assign f h, lookup_map_value fun _ => f]

end Lib
