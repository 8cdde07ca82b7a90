import Mathlib.Data.Fintype.Basic
import TaiSkeleton.Connectors.TokenStore

/-!
# The fence of the cache

No `get` returns what a call that had ended before it started has replaced or deleted, as long as
the key goes, and its fence with it, only when no call is under way that would install such a row.
The fence is a part of the cached value: once the key is gone, an old row can be installed.
-/

namespace TaiSkeleton.Connectors

open Lib

/-! ## What is settled -/

/-- A version that may still be returned: no `put` that has ended has committed a newer one, and no
`delete` that has ended has deleted the row. -/
def Settled.Admits (settled : Settled) (version : ℕ) : Prop :=
  settled.version ≤ version ∧ settled.deleted = false

instance (settled : Settled) (version : ℕ) : Decidable (settled.Admits version) :=
  inferInstanceAs (Decidable (_ ∧ _))

/-- What was settled before. -/
def Settled.Before (settled settled' : Settled) : Prop :=
  settled.version ≤ settled'.version ∧ (settled.deleted = true → settled'.deleted = true)

section

variable {β : Type} {settled settled' settled'' : Settled} {version : ℕ} {write : CacheWrite β}
  {key : Option (CacheHash β)} {expireAt now : ℤ}

theorem Settled.Before.refl (settled : Settled) : settled.Before settled := ⟨le_refl _, id⟩

theorem Settled.Before.trans (h : settled.Before settled') (h' : settled'.Before settled'') :
    settled.Before settled'' :=
  ⟨h.1.trans h'.1, fun hdeleted => h'.2 (h.2 hdeleted)⟩

theorem Settled.Admits.of_before (h : settled'.Admits version) (hbefore : settled.Before settled') :
    settled.Admits version := by
  refine ⟨hbefore.1.trans h.1, ?_⟩
  by_contra hdeleted
  rw [Bool.not_eq_false] at hdeleted
  exact Bool.false_ne_true (h.2.symm.trans (hbefore.2 hdeleted))

theorem before_settle (settled : Settled) (write : CacheWrite β) :
    settled.Before (write.settle settled) := by
  match write with
  | .populate _ _ => exact .refl settled
  | .refresh _ => exact ⟨le_max_left _ _, id⟩
  | .clear none => exact .refl settled
  | .clear (some _) => exact ⟨le_refl _, fun _ => rfl⟩

/-! ## What a write to the cache leaves -/

/-- The ways that a write to the cache ends: the key is dropped; it is kept, being newer; a row is
installed over an older one; or the key is buried under a tombstone. -/
inductive Ran (write : CacheWrite β) (expireAt now : ℤ) (key : Option (CacheHash β)) :
    Option (CacheHash β) → Prop where
  | dropped (hdrops : write.drops expireAt now = true) : Ran write expireAt now key none
  | kept {hash : CacheHash β} (hkey : key = some hash)
      (hheld : ∀ version ∈ write.held, version ≤ hash.ver)
      (hdeleted : ∀ version ∈ write.deleted, version < hash.ver) :
      Ran write expireAt now key (some hash)
  | installed {hash : CacheHash β} (hheld : write.held = some hash.ver)
      (hnewer : ∀ old ∈ key, old.ver < hash.ver) : Ran write expireAt now key (some hash)
  | buried {hash : CacheHash β} (hblob : hash.blob = none)
      (hdeleted : write.deleted = some hash.ver) (hnewer : ∀ old ∈ key, old.ver ≤ hash.ver) :
      Ran write expireAt now key (some hash)

theorem ran_cacheSetIfNewer {row : Row β} (hheld : write.held = some row.cacheVersion)
    (hdeleted : write.deleted = none)
    (hdrops : write.drops expireAt now = isPast now (expireatArg row.sessionExpiresAt)) :
    Ran write expireAt now key (cacheSetIfNewer row now key) := by
  unfold cacheSetIfNewer
  split_ifs with hnewer
  · unfold expiring
    split_ifs with hpast
    · exact .dropped (hdrops.trans hpast)
    · refine .installed hheld fun old hold => ?_
      rw [hold] at hnewer
      exact of_decide_eq_true hnewer
  · cases key with
    | none => exact absurd rfl hnewer
    | some hash =>
      refine .kept rfl ?_ ?_
      · intro version hversion
        obtain rfl := Option.some.inj (hheld.symm.trans hversion)
        exact Nat.le_of_not_lt fun hlt => hnewer (decide_eq_true hlt)
      · intro version hversion
        rw [hdeleted] at hversion
        cases hversion

theorem ran_run (write : CacheWrite β) (expireAt now : ℤ) (key : Option (CacheHash β)) :
    Ran write expireAt now key (write.run expireAt now key) := by
  match write with
  | .populate _ _ => exact ran_cacheSetIfNewer rfl rfl rfl
  | .refresh _ => exact ran_cacheSetIfNewer rfl rfl rfl
  | .clear none => exact .dropped rfl
  | .clear (some deletedVersion) =>
    show Ran _ _ _ _ (cacheTombstone deletedVersion expireAt now key)
    unfold cacheTombstone
    split_ifs with holder
    · unfold expiring
      split_ifs with hpast
      · exact .dropped hpast
      · refine .buried rfl rfl fun old hold => ?_
        rw [hold] at holder
        exact of_decide_eq_true holder
    · cases key with
      | none => exact absurd rfl holder
      | some hash =>
        refine .kept rfl (fun version hversion => by cases hversion) ?_
        intro version hversion
        obtain rfl := Option.some.inj hversion
        exact Nat.lt_of_not_le fun hle => holder (decide_eq_true hle)

end

/-- The version of the row that a call may still install. -/
def Stage.held {β : Type} : Stage β → Option ℕ
  | .writing write => write.held
  | _ => none

/-- What a call whose script has failed was to do. -/
def Stage.failed {β : Type} : Stage β → Option (CacheWrite β)
  | .invalidating write => some write
  | _ => none

/-- What a call is about to do to the cache. -/
def Stage.pending {β : Type} : Stage β → Option (CacheWrite β)
  | .writing write => some write
  | _ => none

namespace Store

variable {β ι : Type}

/-! ## The condition -/

/-- No other call is to install a row that is not to be returned any more. -/
def AllAdmitted (settled : Settled) (call : ι) (s : Store β ι) : Prop :=
  ∀ other, other ≠ call → ∀ version ∈ (s.calls other).held, settled.Admits version

/-- The key goes only when no call under way would install an outdated row; the command that
deletes it after a failed write does not fail; and no row is inserted after one was deleted. -/
def KeepsFence (s : Store β ι) : Act β ι → Prop
  | .script call expireAt now =>
    ∀ write ∈ (s.calls call).pending, write.drops expireAt now = true →
      s.AllAdmitted (write.settle s.settled) call
  | .scriptFails call applied expireAt now =>
    ∀ write ∈ (s.calls call).pending, applied = true → write.drops expireAt now = true →
      s.AllAdmitted s.settled call
  | .invalidate call =>
    ∀ write ∈ (s.calls call).failed, s.AllAdmitted (write.settle s.settled) call
  | .invalidateFails call => (s.calls call).failed = none
  | .vanish => ∀ call, ∀ version ∈ (s.calls call).held, s.settled.Admits version
  | .put _ mode _ _ _ => mode.inserts = true → s.row = none → s.committed = 0
  | _ => True

instance [DecidableEq ι] [Fintype ι] (settled : Settled) (call : ι) (s : Store β ι) :
    Decidable (s.AllAdmitted settled call) :=
  inferInstanceAs (Decidable (∀ other, other ≠ call → ∀ version ∈ (s.calls other).held, _))

instance [DecidableEq ι] [Fintype ι] (s : Store β ι) (a : Act β ι) :
    Decidable (s.KeepsFence a) := by
  cases a <;> unfold KeepsFence <;> infer_instance

/-! ## The invariant -/

/-- Where a version is outdated, the key has a version that keeps it out. -/
def Fences (s : Store β ι) (version : ℕ) : Prop :=
  ¬s.settled.Admits version → ∃ hash ∈ s.key, version ≤ hash.ver

/-- What holds of a write to the cache: its row is no newer than the newest that was committed; the
row of a `get` could be returned when the call started; a deleted row was the last. -/
def WriteInv (s : Store β ι) : CacheWrite β → Prop
  | .populate since row => row.cacheVersion ≤ s.committed ∧ since.Admits row.cacheVersion
  | .refresh row => row.cacheVersion ≤ s.committed
  | .clear none => True
  | .clear (some version) => version = s.committed ∧ 1 ≤ s.committed ∧ s.row = none

/-- What holds of a call. -/
def CallInv (s : Store β ι) : Stage β → Prop
  | .idle => True
  | .reading since _ | .missed since _ => since.Before s.settled
  | .writing write | .invalidating write => s.WriteInv write
  | .got since record => ∀ entry ∈ record, since.Admits entry.1

/-- What holds of the row and the key: the row is the newest that was committed, and a blob in the
key can be returned. -/
structure Global (s : Store β ι) : Prop where
  row : ∀ row ∈ s.row, row.cacheVersion = s.committed ∧ s.settled.deleted = false ∧
    1 ≤ s.committed
  settled : s.settled.version ≤ s.committed
  deleted : s.settled.deleted = true → 1 ≤ s.committed
  key : ∀ hash ∈ s.key, hash.ver ≤ s.committed ∧
    (hash.blob.isSome = true → s.settled.Admits hash.ver)

structure Inv (s : Store β ι) : Prop extends Global s where
  calls : ∀ call, s.CallInv (s.calls call)
  held : ∀ call, ∀ version ∈ (s.calls call).held, s.Fences version

/-- How a store goes on: more is settled, newer rows are committed, and there is none any more
after the last was deleted. -/
structure Evolves (s s' : Store β ι) : Prop where
  settled : s.settled.Before s'.settled
  committed : s.committed ≤ s'.committed
  row : s.row = none → 1 ≤ s.committed → s'.row = none ∧ s'.committed = s.committed

section

variable {s s' : Store β ι} {stage : Stage β} {write : CacheWrite β} {version : ℕ}

theorem WriteInv.evolve (h : s.WriteInv write) (hevolves : s.Evolves s') : s'.WriteInv write := by
  match write with
  | .populate _ _ => exact ⟨h.1.trans hevolves.committed, h.2⟩
  | .refresh _ => exact le_trans h hevolves.committed
  | .clear none => trivial
  | .clear (some _) =>
    obtain ⟨hversion, hpos, hrow⟩ := h
    obtain ⟨hrow', hcommitted⟩ := hevolves.row hrow hpos
    rw [← hcommitted] at hversion hpos
    exact ⟨hversion, hpos, hrow'⟩

theorem CallInv.evolve (h : s.CallInv stage) (hevolves : s.Evolves s') : s'.CallInv stage := by
  match stage with
  | .idle => trivial
  | .reading _ _ => exact h.trans hevolves.settled
  | .missed _ _ => exact h.trans hevolves.settled
  | .writing _ => exact WriteInv.evolve h hevolves
  | .invalidating _ => exact WriteInv.evolve h hevolves
  | .got _ _ => exact h

/-- A call at its end has the row that it was to install. -/
theorem callInv_finish (h : s.WriteInv write) : s'.CallInv write.finish := by
  match write with
  | .populate _ _ =>
    intro entry hentry
    obtain rfl := Option.some.inj hentry
    exact h.2
  | .refresh _ => trivial
  | .clear _ => trivial

@[simp] theorem held_finish (write : CacheWrite β) : write.finish.held = none := by
  cases write <;> rfl

theorem Fences.of_admits (h : s.settled.Admits version) : s.Fences version :=
  fun hnot => absurd h hnot

/-- The invariant after a step, from what the step does to the row and the key and from what it
does to each call. -/
theorem Inv.step (h : s.Inv) (s' : Store β ι) (hevolves : s.Evolves s') (hglobal : s'.Global)
    (hcalls : ∀ call, s'.calls call = s.calls call ∨ s'.CallInv (s'.calls call))
    (hheld : ∀ call, ∀ version ∈ (s'.calls call).held, s'.Fences version) : s'.Inv := by
  refine { hglobal with calls := fun call => ?_, held := hheld }
  rcases hcalls call with hsame | hnew
  · rw [hsame]
    exact (h.calls call).evolve hevolves
  · exact hnew

end

/-! ## The steps -/

section

variable [DecidableEq ι] {s s' : Store β ι} {call : ι} {stage : Stage β} {write : CacheWrite β}
  {version : ℕ} {expireAt now : ℤ} {key key' : Option (CacheHash β)} {settled' : Settled}

/-- A step that ends with a call going on, from what it does before that. -/
theorem Inv.stepGoto (h : s.Inv) (hsame : s'.calls = s.calls) (hevolves : s.Evolves s')
    (hglobal : s'.Global) (hcall : s'.CallInv stage)
    (hheld : ∀ version ∈ stage.held, s'.Fences version)
    (hothers : ∀ other, other ≠ call → ∀ version ∈ (s.calls other).held, s'.Fences version) :
    (s'.goto call stage).Inv := by
  have hupdate : (s'.goto call stage).calls = Function.update s.calls call stage := by
    show Function.update s'.calls call stage = _
    rw [hsame]
  refine h.step (s'.goto call stage) ⟨hevolves.settled, hevolves.committed, hevolves.row⟩
    ⟨hglobal.row, hglobal.settled, hglobal.deleted, hglobal.key⟩ ?_ ?_
  · intro other
    rw [hupdate]
    by_cases hother : other = call
    · subst hother
      rw [Function.update_self]
      exact .inr hcall
    · rw [Function.update_of_ne hother]
      exact .inl rfl
  · intro other version
    rw [hupdate]
    by_cases hother : other = call
    · subst hother
      rw [Function.update_self]
      exact hheld version
    · rw [Function.update_of_ne hother]
      exact hothers other hother version

theorem Inv.goto (h : s.Inv) (stage : Stage β) (hcall : s.CallInv stage)
    (hheld : ∀ version ∈ stage.held, s.Fences version) : (s.goto call stage).Inv :=
  h.stepGoto rfl ⟨.refl _, le_refl _, fun hrow _ => ⟨hrow, rfl⟩⟩ h.toGlobal hcall hheld
    fun other _ => h.held other

end

section

variable {settled : Settled} {write : CacheWrite β} {version : ℕ} {s : Store β ι}

theorem admits_settle (h : settled.Admits version) (hheld : ∀ v ∈ write.held, v ≤ version)
    (hdeleted : write.deleted = none) : (write.settle settled).Admits version := by
  match write with
  | .populate _ _ => exact h
  | .refresh row => exact ⟨max_le h.1 (hheld _ rfl), h.2⟩
  | .clear none => exact h
  | .clear (some _) => cases hdeleted

/-- What a call outdates by its end was outdated, is older than the row that it installs, or is
deleted. -/
theorem not_admits_settle (h : ¬(write.settle settled).Admits version) :
    ¬settled.Admits version ∨ (∃ v, write.held = some v ∧ version < v) ∨
      ∃ v, write.deleted = some v := by
  match write with
  | .populate _ _ => exact .inl h
  | .refresh row =>
    by_cases hadmits : settled.Admits version
    · refine .inr (.inl ⟨row.cacheVersion, rfl, ?_⟩)
      by_contra hle
      exact h ⟨max_le hadmits.1 (not_lt.mp hle), hadmits.2⟩
    · exact .inl hadmits
  | .clear none => exact .inl h
  | .clear (some v) => exact .inr (.inr ⟨v, rfl⟩)

theorem WriteInv.held (h : s.WriteInv write) (hheld : write.held = some version) :
    version ≤ s.committed := by
  match write with
  | .populate _ _ =>
    obtain rfl := Option.some.inj hheld
    exact h.1
  | .refresh _ =>
    obtain rfl := Option.some.inj hheld
    exact h
  | .clear _ => cases hheld

/-- What a call may still install is no newer than the newest row that was committed. -/
theorem held_le {stage : Stage β} (h : s.CallInv stage) (hheld : version ∈ stage.held) :
    version ≤ s.committed := by
  match stage with
  | .writing _ => exact WriteInv.held h hheld

theorem WriteInv.deleted (h : s.WriteInv write) (hdeleted : write.deleted = some version) :
    version = s.committed ∧ 1 ≤ s.committed ∧ s.row = none := by
  match write with
  | .populate _ _ => cases hdeleted
  | .refresh _ => cases hdeleted
  | .clear none => cases hdeleted
  | .clear (some _) =>
    obtain rfl := Option.some.inj hdeleted
    exact h

end

/-- The store after a write to the cache that is at its end, or not. -/
def wrote (key' : Option (CacheHash β)) (settled' : Settled) (s : Store β ι) : Store β ι :=
  { s with key := key', settled := settled' }

section

variable {s : Store β ι} {write : CacheWrite β} {version : ℕ} {expireAt now : ℤ}
  {key' : Option (CacheHash β)} {settled' : Settled}

theorem evolves_wrote (hsettled : settled' = s.settled ∨ settled' = write.settle s.settled) :
    s.Evolves (s.wrote key' settled') := by
  refine ⟨?_, le_refl _, fun hrow _ => ⟨hrow, rfl⟩⟩
  rcases hsettled with rfl | rfl
  · exact .refl _
  · exact before_settle s.settled write

/-- What is settled by a write that does not concern the key. -/
theorem global_wrote (h : s.Inv) (hwrite : s.WriteInv write)
    (hsettled : settled' = s.settled ∨ settled' = write.settle s.settled)
    (hkey : ∀ hash ∈ key', hash.ver ≤ s.committed ∧
      (hash.blob.isSome = true → settled'.Admits hash.ver)) : (s.wrote key' settled').Global := by
  rcases hsettled with rfl | rfl
  · exact ⟨h.row, h.settled, h.deleted, hkey⟩
  · match write, hwrite with
    | .populate _ _, _ => exact ⟨h.row, h.settled, h.deleted, hkey⟩
    | .refresh _, hle => exact ⟨h.row, max_le h.settled hle, h.deleted, hkey⟩
    | .clear none, _ => exact ⟨h.row, h.settled, h.deleted, hkey⟩
    | .clear (some _), ⟨_, hpos, hrow⟩ =>
      refine ⟨fun row hmem => ?_, h.settled, fun _ => hpos, hkey⟩
      exact absurd (hrow.symm.trans hmem) (by simp)

/-- A blob that is in the key after a write may be returned. -/
theorem key_wrote (h : s.Inv) (hwrite : s.WriteInv write)
    (hfences : ∀ version ∈ write.held, s.Fences version)
    (hsettled : settled' = s.settled ∨ settled' = write.settle s.settled)
    (hran : Ran write expireAt now s.key key') (hash : CacheHash β) (hmem : hash ∈ key') :
    hash.ver ≤ s.committed ∧ (hash.blob.isSome = true → settled'.Admits hash.ver) := by
  cases hran with
  | dropped _ => cases hmem
  | @kept old hkey hheld hdeleted =>
    obtain rfl := Option.some.inj hmem
    obtain ⟨hle, hadmits⟩ := h.key old hkey
    refine ⟨hle, fun hblob => ?_⟩
    rcases hsettled with rfl | rfl
    · exact hadmits hblob
    · refine admits_settle (hadmits hblob) hheld ?_
      rw [Option.eq_none_iff_forall_ne_some]
      intro version hversion
      obtain ⟨rfl, -, -⟩ := hwrite.deleted hversion
      exact absurd hle (Nat.not_le_of_lt (hdeleted _ hversion))
  | @installed new hheld hnewer =>
    obtain rfl := Option.some.inj hmem
    have hadmits : s.settled.Admits new.ver := by
      by_contra hnot
      obtain ⟨old, hold, hle⟩ := hfences new.ver hheld hnot
      exact absurd hle (Nat.not_le_of_lt (hnewer old hold))
    refine ⟨hwrite.held hheld, fun _ => ?_⟩
    rcases hsettled with rfl | rfl
    · exact hadmits
    · refine admits_settle hadmits (fun version hversion => ?_) ?_
      · obtain rfl := Option.some.inj (hheld.symm.trans hversion)
        exact le_refl _
      · match write with
        | .populate _ _ => rfl
        | .refresh _ => rfl
        | .clear _ => cases hheld
  | @buried tomb hblob hdeleted _ =>
    obtain rfl := Option.some.inj hmem
    refine ⟨le_of_eq (hwrite.deleted hdeleted).1, fun hsome => ?_⟩
    rw [hblob] at hsome
    cases hsome

/-- A write keeps out what was kept out, and what it outdates itself. -/
theorem fences_wrote (h : s.Inv) (hwrite : s.WriteInv write)
    (hsettled : settled' = s.settled ∨ settled' = write.settle s.settled)
    (hran : Ran write expireAt now s.key key') (hfences : s.Fences version)
    (hle : version ≤ s.committed)
    (hdrops : write.drops expireAt now = true → settled'.Admits version) :
    (s.wrote key' settled').Fences version := by
  intro hnot
  have hnot : ¬settled'.Admits version := hnot
  have hold : ¬s.settled.Admits version ∨ (∃ v, write.held = some v ∧ version < v) ∨
      ∃ v, write.deleted = some v := by
    rcases hsettled with rfl | rfl
    · exact .inl hnot
    · exact not_admits_settle hnot
  show ∃ hash ∈ key', version ≤ hash.ver
  cases hran with
  | dropped hdropped => exact absurd (hdrops hdropped) hnot
  | @kept old hkey hheld hdeleted =>
    refine ⟨old, rfl, ?_⟩
    rcases hold with hout | ⟨v, hv, hlt⟩ | ⟨v, hv⟩
    · obtain ⟨hash, hmem, hver⟩ := hfences hout
      obtain rfl := Option.some.inj (hkey.symm.trans hmem)
      exact hver
    · exact (le_of_lt hlt).trans (hheld v hv)
    · obtain ⟨rfl, -, -⟩ := hwrite.deleted hv
      exact hle.trans (le_of_lt (hdeleted _ hv))
  | @installed new hheld hnewer =>
    refine ⟨new, rfl, ?_⟩
    rcases hold with hout | ⟨v, hv, hlt⟩ | ⟨v, hv⟩
    · obtain ⟨hash, hmem, hver⟩ := hfences hout
      exact hver.trans (le_of_lt (hnewer hash hmem))
    · obtain rfl := Option.some.inj (hheld.symm.trans hv)
      exact le_of_lt hlt
    · match write with
      | .populate _ _ => cases hv
      | .refresh _ => cases hv
      | .clear _ => cases hheld
  | @buried tomb _ hdeleted _ =>
    refine ⟨tomb, rfl, hle.trans (le_of_eq ?_)⟩
    exact (hwrite.deleted hdeleted).1.symm

end

section

variable [DecidableEq β] [DecidableEq ι] {s s' : Store β ι} {a : Act β ι} {write : CacheWrite β}
  {call : ι} {expireAt now : ℤ} {stage : Stage β} {settled' : Settled}

/-- The script or command of a call has run, and the call goes on to a stage at which it has
nothing to install. -/
theorem Inv.ran (h : s.Inv) (stage : Stage β) (hcall : s.calls call = .writing write)
    (hsettled : settled' = s.settled ∨ settled' = write.settle s.settled)
    (hdrops : write.drops expireAt now = true → s.AllAdmitted settled' call)
    (hstage : (s.wrote (write.run expireAt now s.key) settled').CallInv stage)
    (hheld : stage.held = none) :
    ((s.wrote (write.run expireAt now s.key) settled').goto call stage).Inv := by
  have hwrite : s.WriteInv write := by
    have hinv := h.calls call
    rw [hcall] at hinv
    exact hinv
  have hfences : ∀ version ∈ write.held, s.Fences version := by
    have hold := h.held call
    rw [hcall] at hold
    exact hold
  have hran := ran_run write expireAt now s.key
  refine h.stepGoto rfl (evolves_wrote hsettled) ?_ hstage ?_ ?_
  · exact global_wrote h hwrite hsettled (key_wrote h hwrite hfences hsettled hran)
  · intro version hmem
    rw [hheld] at hmem
    cases hmem
  · intro other hother version hmem
    exact fences_wrote h hwrite hsettled hran (h.held other version hmem)
      (held_le (h.calls other) hmem) fun hdropped => hdrops hdropped other hother version hmem

/-- The key is dropped, and a call whose script has failed is at its end. -/
theorem Inv.invalidate (h : s.Inv) (hcall : s.calls call = .invalidating write)
    (hadmitted : s.AllAdmitted (write.settle s.settled) call) :
    ((s.wrote none (write.settle s.settled)).goto call write.finish).Inv := by
  have hwrite : s.WriteInv write := by
    have hinv := h.calls call
    rw [hcall] at hinv
    exact hinv
  refine h.stepGoto rfl (evolves_wrote (.inr rfl)) ?_ (callInv_finish hwrite) ?_ ?_
  · exact global_wrote h hwrite (.inr rfl) fun hash hmem => by cases hmem
  · intro version hmem
    rw [held_finish] at hmem
    cases hmem
  · intro other hother version hmem
    exact .of_admits (hadmitted other hother version hmem)

/-- The key is dropped while no call is to install an outdated row. -/
theorem Inv.vanish (h : s.Inv)
    (hadmitted : ∀ call, ∀ version ∈ (s.calls call).held, s.settled.Admits version) :
    ({ s with key := none } : Store β ι).Inv := by
  have hevolves : s.Evolves { s with key := none } :=
    ⟨.refl _, le_refl _, fun hrow _ => ⟨hrow, rfl⟩⟩
  refine h.step _ hevolves ⟨h.row, h.settled, h.deleted, fun hash hmem => by cases hmem⟩ ?_ ?_
  · exact fun call => .inl rfl
  · exact fun call version hmem => .of_admits (hadmitted call version hmem)

/-- The version of a row that a `put` commits follows that of the row before. -/
theorem version_putRow {mode : PutMode β} {blob : β} {sessionExpiresAt : Option ℤ}
    {aliasTaken : Bool} {row : Option (Row β)} {row' : Row β}
    (h : putRow mode blob sessionExpiresAt aliasTaken row = .ok (some row')) :
    row'.cacheVersion = (row.elim 0 Row.cacheVersion) + 1 ∧ (row = none → mode.inserts = true) := by
  unfold putRow at h
  split at h
  · cases h
  · cases h
  · split_ifs at h
    · obtain rfl := Option.some.inj (Except.ok.inj h)
      exact ⟨rfl, fun hnone => by cases hnone⟩
    · cases Except.ok.inj h
  · split_ifs at h
    obtain rfl := Option.some.inj (Except.ok.inj h)
    exact ⟨rfl, fun _ => rfl⟩
  · split_ifs at h
    obtain rfl := Option.some.inj (Except.ok.inj h)
    exact ⟨rfl, fun _ => rfl⟩
  · split_ifs at h
    obtain rfl := Option.some.inj (Except.ok.inj h)
    exact ⟨rfl, fun _ => rfl⟩

theorem Inv.put {mode : PutMode β} {blob : β} {sessionExpiresAt : Option ℤ} {aliasTaken : Bool}
    {row : Row β} (h : s.Inv)
    (hreused : mode.inserts = true → s.row = none → s.committed = 0)
    (hput : putRow mode blob sessionExpiresAt aliasTaken s.row = .ok (some row)) :
    ({ s with row := some row, committed := row.cacheVersion }.goto call
      (.writing (.refresh row))).Inv := by
  obtain ⟨hnext, hinserts⟩ := version_putRow hput
  have hreused : s.row = none → s.committed = 0 := fun hnone => hreused (hinserts hnone) hnone
  have hversion : row.cacheVersion = s.committed + 1 := by
    rw [hnext]
    cases hrow : s.row with
    | none => rw [hreused hrow]; rfl
    | some old => rw [← (h.row old hrow).1]; rfl
  have hdeleted : s.settled.deleted = false := by
    cases hrow : s.row with
    | none =>
      have hpos := mt h.deleted
      rw [hreused hrow] at hpos
      exact Bool.eq_false_of_not_eq_true (hpos (by omega))
    | some old => exact (h.row old hrow).2.1
  have hevolves : s.Evolves { s with row := some row, committed := row.cacheVersion } := by
    refine ⟨.refl _, ?_, fun hrow hpos => ?_⟩
    · show s.committed ≤ row.cacheVersion
      omega
    · rw [hreused hrow] at hpos
      omega
  refine h.stepGoto rfl hevolves ⟨?_, ?_, ?_, ?_⟩ ?_ ?_ fun other _ => h.held other
  · intro new hmem
    obtain rfl := Option.some.inj hmem
    refine ⟨rfl, hdeleted, ?_⟩
    show 1 ≤ row.cacheVersion
    omega
  · exact h.settled.trans hevolves.committed
  · intro _
    show 1 ≤ row.cacheVersion
    omega
  · intro hash hmem
    obtain ⟨hle, hadmits⟩ := h.key hash hmem
    exact ⟨hle.trans hevolves.committed, hadmits⟩
  · exact le_refl row.cacheVersion
  · intro version hmem
    obtain rfl := Option.some.inj hmem
    exact .of_admits ⟨h.settled.trans hevolves.committed, hdeleted⟩

theorem Inv.delete (h : s.Inv) :
    ({ s with row := none }.goto call (.writing (.clear (s.row.map Row.cacheVersion)))).Inv := by
  refine h.stepGoto rfl ⟨.refl _, le_refl _, fun _ _ => ⟨rfl, rfl⟩⟩
    ⟨fun row hmem => absurd hmem (by simp), h.settled, h.deleted, h.key⟩ ?_ ?_ fun other _ =>
      h.held other
  · cases hrow : s.row with
    | none => trivial
    | some row =>
      obtain ⟨hversion, -, hpos⟩ := h.row row hrow
      exact ⟨hversion, hpos, rfl⟩
  · intro version hmem
    cases hmem

end

section

variable [DecidableEq β] [DecidableEq ι] {s s' : Store β ι} {a : Act β ι}

/-- The row that a `get` reads is the newest that was committed. -/
theorem admits_selectRow (h : s.Inv) {includeExpired : Bool} {now : ℤ} {row : Row β}
    (hselect : selectRow includeExpired now s.row = some row) :
    row.cacheVersion ≤ s.committed ∧ s.settled.Admits row.cacheVersion := by
  obtain ⟨hrow, -⟩ := Option.filter_eq_some_iff.mp hselect
  obtain ⟨hversion, hdeleted, -⟩ := h.row row hrow
  exact ⟨le_of_eq hversion, hversion ▸ h.settled, hdeleted⟩

theorem inv_next (h : s.Inv) (hkeeps : s.KeepsFence a) (hnext : s.next a = some s') : s'.Inv := by
  have hfree : ∀ version ∈ (none : Option ℕ), s.Fences version := fun version hmem => by cases hmem
  cases a with
  | get call includeExpired =>
    simp only [next] at hnext
    split at hnext
    · obtain rfl := Option.some.inj hnext
      exact h.goto (.reading s.settled includeExpired) (.refl s.settled) hfree
    · cases hnext
  | hget call fails =>
    have hcall := h.calls call
    simp only [next] at hnext
    split at hnext
    · next since includeExpired hstage =>
      rw [hstage] at hcall
      split at hnext
      · next ver blob expireAt hkey =>
        obtain rfl := Option.some.inj hnext
        refine h.goto _ ?_ hfree
        intro entry hentry
        obtain rfl := Option.some.inj hentry
        obtain ⟨-, hadmits⟩ := h.key _ hkey
        exact (hadmits rfl).of_before hcall
      · obtain rfl := Option.some.inj hnext
        exact h.goto (.missed since includeExpired) hcall hfree
    · cases hnext
  | select call now workerNow =>
    have hcall := h.calls call
    simp only [next] at hnext
    split at hnext
    · next since includeExpired hstage =>
      rw [hstage] at hcall
      split at hnext
      · obtain rfl := Option.some.inj hnext
        exact h.goto (.got since none) (fun entry hentry => by cases hentry) hfree
      · next row hselect =>
        obtain ⟨hle, hadmits⟩ := admits_selectRow h hselect
        split_ifs at hnext
        · obtain rfl := Option.some.inj hnext
          refine h.goto (.writing (.populate since row)) ⟨hle, hadmits.of_before hcall⟩ ?_
          intro version hmem
          obtain rfl := Option.some.inj hmem
          exact .of_admits hadmits
        · obtain rfl := Option.some.inj hnext
          refine h.goto _ ?_ hfree
          intro entry hentry
          obtain rfl := Option.some.inj hentry
          exact hadmits.of_before hcall
    · cases hnext
  | put call mode blob sessionExpiresAt aliasTaken =>
    simp only [next] at hnext
    split at hnext
    · split at hnext
      · next row hput =>
        obtain rfl := Option.some.inj hnext
        exact h.put hkeeps hput
      · obtain rfl := Option.some.inj hnext
        exact h
    · cases hnext
  | delete call =>
    simp only [next] at hnext
    split at hnext
    · obtain rfl := Option.some.inj hnext
      exact h.delete
    · cases hnext
  | script call expireAt now =>
    have hcall := h.calls call
    simp only [next] at hnext
    split at hnext
    · next write hstage =>
      rw [hstage] at hcall
      obtain rfl := Option.some.inj hnext
      refine h.ran write.finish hstage (.inr rfl) ?_ (callInv_finish hcall) (held_finish write)
      intro hdrops
      exact hkeeps write (by rw [hstage]; rfl) hdrops
    · cases hnext
  | scriptFails call applied expireAt now =>
    have hcall := h.calls call
    simp only [next] at hnext
    split at hnext
    · next write hstage =>
      rw [hstage] at hcall
      obtain rfl := Option.some.inj hnext
      cases applied with
      | true =>
        refine h.ran (.invalidating write) hstage (.inl rfl) ?_ hcall rfl
        intro hdrops
        exact hkeeps write (by rw [hstage]; rfl) rfl hdrops
      | false => exact h.goto (.invalidating write) hcall hfree
    · cases hnext
  | invalidate call =>
    simp only [next] at hnext
    split at hnext
    · next write hstage =>
      obtain rfl := Option.some.inj hnext
      exact h.invalidate hstage (hkeeps write (by rw [hstage]; rfl))
    · cases hnext
  | invalidateFails call =>
    have hkeeps : (s.calls call).failed = none := hkeeps
    simp only [next] at hnext
    split at hnext
    · next write hstage =>
      rw [hstage] at hkeeps
      cases hkeeps
    · cases hnext
  | vanish =>
    obtain rfl := Option.some.inj hnext
    exact h.vanish hkeeps

theorem inv_init : ({} : Store β ι).Inv where
  row _ hmem := by cases hmem
  settled := le_refl _
  deleted hdeleted := by cases hdeleted
  key _ hmem := by cases hmem
  calls _ := trivial
  held _ _ hmem := by cases hmem

end

end Store

section

variable {β ι : Type} [DecidableEq β] [DecidableEq ι]

/-- In every run that keeps the fence, no `get` returns a version older than one that a `put` had
committed, or a row that a `delete` had deleted, when that call was at its end before the `get`
started. -/
theorem admits_of_keepsFence {s : Store β ι}
    (h : ((tokenStore β ι).when Store.KeepsFence).Reachable s) (call : ι) (since : Settled)
    (version : ℕ) (blob : β) (hgot : s.calls call = .got since (some (version, blob))) :
    since.version ≤ version ∧ since.deleted = false := by
  have hinv : s.Inv := by
    refine h.invariant ?_ ?_
    · rintro s rfl
      exact Store.inv_init
    · rintro s a s' hinv ⟨hkeeps, hnext⟩
      exact Store.inv_next hinv hkeeps hnext
  have hcall := hinv.calls call
  rw [hgot] at hcall
  exact hcall _ rfl

end

/-! ## Runs -/

local instance calls_neZero : NeZero 3 := ⟨by decide⟩

/-- A store with three calls that a list of steps leads to. -/
def runCalls (acts : List (Act String (Fin 3))) : Option (Store String (Fin 3)) :=
  acts.foldlM Store.next {}

/-- A record is created and refreshed once, and read after that. -/
def refreshedActs : List (Act String (Fin 3)) :=
  [.put 0 .createOnly "first" none false, .script 0 0 0, .get 1 false, .hget 1 false,
    .put 2 (.compareAndSet "first") "second" none false, .script 2 0 0, .get 0 false,
    .hget 0 false]

/-- A reader has missed an evicted key and read the row. The refresh of the row fails to reach the
cache and deletes the key instead, and then the reader installs what it has read. -/
def slowReaderActs : List (Act String (Fin 3)) :=
  [.put 0 .createOnly "first" none false, .script 0 0 0, .vanish, .get 1 false, .hget 1 false,
    .select 1 0 0, .put 2 (.compareAndSet "first") "second" none false, .scriptFails 2 false 0 0,
    .invalidate 2, .script 1 0 0, .get 0 false, .hget 0 false]

/-- The refreshed record is read. -/
theorem admits_after_refresh :
    ∃ s, ((tokenStore String (Fin 3)).when Store.KeepsFence).Reachable s ∧
      s.calls 0 = .got { version := 2 } (some (2, "second")) ∧
      ({ version := 2 } : Settled).version ≤ 2 ∧ ({ version := 2 } : Settled).deleted = false := by
  have hrun : (refreshedActs.foldlM
      (System.guarded Store.next fun s a => decide (s.KeepsFence a)) {}).any
      (fun s => decide (s.calls 0 = .got { version := 2 } (some (2, "second")))) = true := by
    decide +kernel
  obtain ⟨s, hreachable, hs⟩ := System.Reachable.of_foldlM
    (S := (tokenStore String (Fin 3)).when Store.KeepsFence)
    (fun s a s' h => ⟨of_decide_eq_true (System.step_of_guarded h).1,
      (System.step_of_guarded h).2⟩) rfl hrun
  have hgot := of_decide_eq_true hs
  exact ⟨s, hreachable, hgot, admits_of_keepsFence hreachable 0 _ 2 "second" hgot⟩

/-- A `get` returns the first version of a record after the `put` of the second has returned. -/
theorem stale_after_failed_write :
    ∃ s, (tokenStore String (Fin 3)).Reachable s ∧
      s.calls 0 = .got { version := 2 } (some (1, "first")) := by
  have hrun : (runCalls slowReaderActs).any (fun s =>
      decide (s.calls 0 = .got { version := 2 } (some (1, "first")))) = true := by
    decide +kernel
  obtain ⟨s, hreachable, hs⟩ :=
    System.Reachable.of_foldlM (S := tokenStore String (Fin 3)) (fun _ _ _ h => h) rfl hrun
  exact ⟨s, hreachable, of_decide_eq_true hs⟩

/-- A deleted record comes back when its tombstone has expired before a reader installs it. -/
example : (runCalls
    [.put 0 .createOnly "first" none false, .script 0 0 0, .vanish, .get 1 false, .hget 1 false,
      .select 1 0 0, .delete 2, .script 2 300 0, .vanish, .script 1 0 0, .get 0 false,
      .hget 0 false]).any (fun s =>
        decide (s.calls 0 = .got { version := 1, deleted := true } (some (1, "first")))) =
    true := by
  decide +kernel

end TaiSkeleton.Connectors
