import TaiSkeleton.Presets.Doors

/-!
# What holds of the store and the live presets

A live preset is the active one of the store, or a call has still a step to take on its name. Each
step is known by what it leaves of the names that it reads or writes.
-/

namespace TaiSkeleton.Presets

open Lib Tools Versioning

variable {ι ε υ : Type}

/-! ## What a call has to do -/

/-- The names that a compensation is about. -/
def Compensation.names : Compensation → List String
  | .repoint name _ => [name]
  | .renameBack name newName => [name, newName]

/-- A call has a step to take on a name that it will not take with what it has read before. -/
def Stage.opensOn (name : String) : Stage ε υ → Prop
  | .registering name' _ => name' = name
  | .undoing name' => name' = name
  | .reloading compensation => name ∈ compensation.names
  | .reading compensation _ => name ∈ compensation.names
  | .binding (.renameBack name' _) _ _ => name' = name
  | .compensating compensation => name ∈ compensation.names
  | .removing name' => name' = name
  | _ => False

/-- A call binds what it has read. -/
def Stage.bindsOn (name : String) : Stage ε υ → Prop
  | .binding compensation _ _ => compensation.target = name
  | _ => False

/-- A call holds the lock of a name. -/
def Stage.holds (name : String) : Stage ε υ → Prop
  | .reading compensation _ => compensation.target = name
  | .binding compensation _ _ => compensation.target = name
  | _ => False

/-- A call renames. -/
def Stage.moves (name newName : String) : Stage ε υ → Prop
  | .naming name' newName' => name' = name ∧ newName' = newName
  | .moving name' newName' => name' = name ∧ newName' = newName
  | .reloading compensation => compensation = .renameBack name newName
  | .reading compensation _ => compensation = .renameBack name newName
  | .binding compensation _ _ => compensation = .renameBack name newName
  | .compensating compensation => compensation = .renameBack name newName
  | _ => False

/-- A call has found a name out of quarantine. -/
def Stage.touches (name : String) : Stage ε υ → Prop
  | .creating name' _ => name' = name
  | .registering name' _ => name' = name
  | .undoing name' => name' = name
  | .saving name' _ _ => name' = name
  | .validated name' _ _ _ => name' = name
  | .rollingBack name' _ _ => name' = name
  | .naming name' _ => name' = name
  | .moving name' newName => name' = name ∨ newName = name
  | .reloading compensation => name ∈ compensation.names
  | .reading compensation _ => name ∈ compensation.names
  | .binding compensation _ _ => name ∈ compensation.names
  | .compensating compensation => name ∈ compensation.names
  | .removing name' => name' = name
  | _ => False

/-- A call has not started or has ended. -/
def Stage.quiet : Stage ε υ → Bool
  | .idle => true
  | .over => true
  | _ => false

instance (stage : Stage ε υ) (name : String) : Decidable (stage.opensOn name) := by
  unfold Stage.opensOn
  split <;> infer_instance

namespace World

/-- What is bound is what the store has, and no reload is in between; or another call has still a
step to take on the name. -/
def Settled (s : World ι ε υ) (call : ι) (name : String) (row bound : Option (PresetBody ε υ)) :
    Prop :=
  (s.lock name = none ∧ bound = row) ∨ ∃ other, other ≠ call ∧ (s.calls other).opensOn name

/-- A save commits the body that it has validated, and each step that does not read the store
settles its names. -/
def Settles (s : World ι ε υ) : Act ι ε υ → Prop
  | .step call false =>
    match s.calls call with
    | .registering name body =>
      s.live name = none → s.Settled call name (s.active name) (some body)
    | .undoing name => s.Settled call name none (s.live name)
    | .validated name edit _ body => ∀ active ∈ s.active name, edit.apply active = body
    | .compensating compensation => ∀ name ∈ compensation.names,
      s.Settled call name ((s.compensate compensation).active name) (s.live name)
    | .removing name => s.Settled call name (s.active name) none
    | .hardDeleting name => s.quarantined name = true ∨ s.Settled call name none (s.live name)
    | _ => True
  | _ => True

instance [Fintype ι] [DecidableEq ι] [DecidableEq ε] [DecidableEq υ] (s : World ι ε υ) (call : ι)
    (name : String) (row bound : Option (PresetBody ε υ)) :
    Decidable (s.Settled call name row bound) :=
  inferInstanceAs (Decidable (_ ∨ ∃ _, _))

instance [Fintype ι] [DecidableEq ι] [DecidableEq ε] [DecidableEq υ] (s : World ι ε υ)
    (a : Act ι ε υ) : Decidable (s.Settles a) := by
  unfold Settles
  split
  · split <;> infer_instance
  · infer_instance

/-- No call is under way. -/
def Quiet (s : World ι ε υ) : Prop := ∀ call, (s.calls call).quiet

/-- What is active in the store is live, what is live is in the store, and what a save has committed
is what it has validated. -/
structure Agrees (s : World ι ε υ) : Prop where
  bound : ∀ name doc, s.store name = some doc → s.quarantined name = false →
    ∃ body, doc.activeBody = some body ∧ s.live name = some body
  stored : ∀ name body, s.live name = some body → ∃ doc, s.store name = some doc
  validated : ∀ pair ∈ s.saved, pair.1 = pair.2

/-! ## The invariant -/

structure Inv (s : World ι ε υ) : Prop where
  wellFormed : ∀ name doc, s.store name = some doc → doc.WellFormed
  locked : ∀ name call, s.lock name = some call ↔ (s.calls call).holds name
  torn : ∀ name call, s.lock name = some call → s.live name = none
  moves : ∀ call name newName, (s.calls call).moves name newName → name ≠ newName
  aside : ∀ name, s.quarantined name = true →
    s.live name = none ∧ ∀ call, ¬(s.calls call).touches name
  dropped : ∀ name call, s.calls call = .dropping name → s.quarantined name = true →
    s.store name = none
  settled : ∀ name, s.quarantined name = false → s.live name = s.active name ∨
    ∃ call, (s.calls call).opensOn name ∨ (s.calls call).bindsOn name
  bound : ∀ call compensation captured body, s.calls call = .binding compensation captured body →
    s.active compensation.target = some body ∨
      ∃ other, (s.calls other).opensOn compensation.target
  saved : ∀ pair ∈ s.saved, pair.1 = pair.2

/-- What a step leaves of a name that no other call has a step to take on. -/
def Kept (s s₁ : World ι ε υ) (call : ι) (old stage : Stage ε υ) (name : String) : Prop :=
  stage.opensOn name ∨ (∃ other, other ≠ call ∧ (s.calls other).opensOn name) ∨
  ((s.lock name = none ∨ s.lock name = some call) ∧
    (s₁.live name = s₁.active name ∨ stage.bindsOn name)) ∨
  (s.quarantined name = false ∧ s₁.live name = s.live name ∧ s₁.active name = s.active name ∧
    ¬old.opensOn name ∧ (old.bindsOn name → stage.bindsOn name))

/-- What is to be known of a step that takes a call from one stage to another. -/
structure Advance (s s₁ : World ι ε υ) (call : ι) (old stage : Stage ε υ) : Prop where
  was : s.calls call = old
  calls : s₁.calls = s.calls
  quarantine : ∀ name, s₁.quarantined name = true → s.quarantined name = true
  wellFormed : ∀ name doc, s₁.store name = some doc → doc.WellFormed
  lock : ∀ name holder, holder ≠ call → (s₁.lock name = some holder ↔ s.lock name = some holder)
  holds : ∀ name, s₁.lock name = some call ↔ stage.holds name
  torn : ∀ name holder, s₁.lock name = some holder → s₁.live name = none
  moves : ∀ name newName, stage.moves name newName → name ≠ newName
  aside : ∀ name, s₁.quarantined name = true → s₁.live name = none ∧ ¬stage.touches name
  dropped : ∀ name, s₁.quarantined name = true →
    (s.store name = none → s₁.store name = none) ∧ (stage = .dropping name → s₁.store name = none)
  kept : ∀ name, s₁.quarantined name = false → Kept s s₁ call old stage name
  bound : ∀ compensation captured body, stage = .binding compensation captured body →
    s₁.active compensation.target = some body
  saved : ∀ pair ∈ s₁.saved, pair.1 = pair.2

/-! ## Steps -/

variable {s : World ι ε υ} {call : ι} {old stage : Stage ε υ} {name : String}

theorem put_store (s : World ι ε υ) (name other : String)
    (doc : Option (Document (PresetBody ε υ))) :
    (s.put name doc).store other = if other = name then doc else s.store other :=
  Function.update_apply s.store name doc other

theorem put_active (s : World ι ε υ) (name other : String)
    (doc : Option (Document (PresetBody ε υ))) :
    (s.put name doc).active other =
      if other = name then doc.bind Document.activeBody else s.active other := by
  rw [active, put_store]
  split_ifs <;> rfl

theorem bind_live (s : World ι ε υ) (name other : String) (body : Option (PresetBody ε υ)) :
    (s.bind name body).live other = if other = name then body else s.live other :=
  Function.update_apply s.live name body other

theorem hold_lock (s : World ι ε υ) (name other : String) (holder : Option ι) :
    (s.hold name holder).lock other = if other = name then holder else s.lock other :=
  Function.update_apply s.lock name holder other

theorem Settled.kept {s₁ : World ι ε υ} {row bound : Option (PresetBody ε υ)}
    (h : s.Settled call name row bound) (hlive : s₁.live name = bound)
    (hactive : s₁.active name = row) : Kept s s₁ call old stage name := by
  obtain ⟨hfree, heq⟩ | hother := h
  · exact .inr (.inr (.inl ⟨.inl hfree, .inl (hlive.trans (heq.trans hactive.symm))⟩))
  · exact .inr (.inl hother)

/-- A name that the call has nothing to do on, and that the step leaves alone. -/
theorem Kept.frame {s₁ : World ι ε υ} (hout : s.quarantined name = false)
    (hlive : s₁.live name = s.live name) (hactive : s₁.active name = s.active name)
    (hopens : ¬old.opensOn name) (hbinds : ¬old.bindsOn name) :
    Kept s s₁ call old stage name :=
  .inr (.inr (.inr ⟨hout, hlive, hactive, hopens, fun h => absurd h hbinds⟩))

theorem Inv.active_eq_some (h : s.Inv) {doc : Document (PresetBody ε υ)}
    (hdoc : s.store name = some doc) : ∃ body, doc.activeBody = some body :=
  Document.bodyAt_of_mem_numbers (h.wellFormed name doc hdoc).active

theorem Inv.out (h : s.Inv) (call : ι) (htouches : (s.calls call).touches name) :
    s.quarantined name = false :=
  Bool.eq_false_iff.mpr fun hin => (h.aside name hin).2 call htouches

theorem move_store {newName other : String} {doc : Document (PresetBody ε υ)}
    (hname : other ≠ name) (hnew : other ≠ newName) :
    (s.move name newName doc).store other = s.store other := by
  rw [move, put_store, if_neg hnew, put_store, if_neg hname]

theorem Inv.move_wellFormed {newName : String} {doc : Document (PresetBody ε υ)} (h : s.Inv)
    (hdoc : s.store name = some doc) (other : String) (doc' : Document (PresetBody ε υ))
    (hstore : (s.move name newName doc).store other = some doc') : doc'.WellFormed := by
  rw [move, put_store] at hstore
  split_ifs at hstore
  · cases hstore
    exact ⟨(h.wellFormed name doc hdoc).numbers, (h.wellFormed name doc hdoc).active⟩
  · rw [put_store] at hstore
    split_ifs at hstore
    exact h.wellFormed other doc' hstore

/-- A save commits what it has validated. -/
theorem Inv.save (h : s.Inv) (body : PresetBody ε υ) :
    ({ s with saved := (body, body) :: s.saved } : World ι ε υ).Inv := by
  refine ⟨h.wellFormed, h.locked, h.torn, h.moves, h.aside, h.dropped, h.settled, h.bound, ?_⟩
  rintro pair (_ | ⟨_, hmem⟩)
  · rfl
  · exact h.saved pair hmem

theorem bind_self (s : World ι ε υ) (name : String) : s.bind name (s.live name) = s := by
  rw [bind, Function.update_eq_self]

theorem target_mem_names (compensation : Compensation) :
    compensation.target ∈ compensation.names := by
  cases compensation <;> simp [Compensation.target, Compensation.names]

/-- What is bound is the active body, or another call has still a step to take on the name. -/
theorem Inv.bound_kept {compensation : Compensation} {captured : Option (PresetBody ε υ)}
    {body : PresetBody ε υ} (h : s.Inv)
    (hwas : s.calls call = .binding compensation captured body) :
    Kept s ((s.bind compensation.target (some body)).hold compensation.target none) call
      (.binding compensation captured body) stage compensation.target := by
  have hlive : (s.bind compensation.target (some body)).live compensation.target = some body := by
    rw [bind_live, if_pos rfl]
  have hholds : s.lock compensation.target = some call := by
    rw [h.locked, hwas]
    rfl
  obtain hactive | ⟨other, hother⟩ := h.bound call compensation captured body hwas
  · exact .inr (.inr (.inl ⟨.inr hholds, .inl (hlive.trans hactive.symm)⟩))
  · refine .inr (.inl ⟨other, ?_, hother⟩)
    rintro rfl
    rw [hwas] at hother
    cases compensation with
    | repoint name prior => exact hother
    | renameBack name newName =>
      exact h.moves other name newName (by rw [hwas]; rfl) hother

/-- A compensation writes the store only. -/
theorem compensate_eq (s : World ι ε υ) (compensation : Compensation) :
    s.compensate compensation = { s with store := (s.compensate compensation).store } := by
  cases compensation with
  | repoint name version =>
    simp only [compensate]
    split
    · split_ifs <;> rfl
    · rfl
  | renameBack name newName =>
    simp only [compensate]
    split <;> rfl

theorem compensate_store {compensation : Compensation} {other : String}
    (hother : other ∉ compensation.names) :
    (s.compensate compensation).store other = s.store other := by
  cases compensation with
  | repoint name version =>
    have hne : other ≠ name := fun heq => hother (List.mem_singleton.mpr heq)
    simp only [compensate]
    split
    · split_ifs
      · rw [put_store, if_neg hne]
      · rfl
    · rfl
  | renameBack name newName =>
    have hne : other ≠ name ∧ other ≠ newName := by
      simpa [Compensation.names, not_or] using hother
    simp only [compensate]
    split
    · exact move_store hne.2 hne.1
    · rfl

theorem Inv.compensate_wellFormed {compensation : Compensation} (h : s.Inv) (other : String)
    (doc : Document (PresetBody ε υ))
    (hstore : (s.compensate compensation).store other = some doc) : doc.WellFormed := by
  cases compensation with
  | repoint name version =>
    simp only [compensate] at hstore
    split at hstore
    · next doc' hdoc =>
      split_ifs at hstore with hbody
      · rw [put_store] at hstore
        split_ifs at hstore
        · obtain ⟨body, hbody⟩ := Option.isSome_iff_exists.mp hbody
          cases hstore
          exact (h.wellFormed name doc' hdoc).point (Document.mem_numbers_of_bodyAt hbody)
        · exact h.wellFormed other doc hstore
      · exact h.wellFormed other doc hstore
    · exact h.wellFormed other doc hstore
  | renameBack name newName =>
    simp only [compensate] at hstore
    split at hstore
    · next doc' hdoc _ => exact h.move_wellFormed hdoc other doc hstore
    · exact h.wellFormed other doc hstore

theorem holds_touches {stage : Stage ε υ} (h : stage.holds name) : stage.touches name := by
  cases stage <;> first | exact h.elim | exact h ▸ target_mem_names _

/-- A stage without a step to take on any name, and without a lock. -/
def Calm (stage : Stage ε υ) : Prop :=
  ∀ name, ¬stage.opensOn name ∧ ¬stage.bindsOn name ∧ ¬stage.holds name

theorem calm_of_eq (hwas : s.calls call = old)
    (hold : ∀ name, ¬old.opensOn name ∧ ¬old.bindsOn name ∧ ¬old.holds name) :
    Calm (s.calls call) := by
  rw [hwas]
  exact hold

theorem not_opensOn_of_quiet {stage : Stage ε υ} (h : stage.quiet) (name : String) :
    ¬stage.opensOn name ∧ ¬stage.bindsOn name := by
  cases stage <;> first | exact ⟨id, id⟩ | cases h

/-- Where no call has a step to take, the live presets are those of the store. -/
theorem Inv.agrees (h : s.Inv) (hquiet : s.Quiet) : s.Agrees := by
  have hlive : ∀ name, s.quarantined name = false → s.live name = s.active name := by
    intro name hname
    obtain heq | ⟨call, hcall⟩ := h.settled name hname
    · exact heq
    · have hnot := not_opensOn_of_quiet (hquiet call) name
      exact absurd hcall (not_or.mpr hnot)
  refine ⟨fun name doc hdoc hname => ?_, fun name body hbody => ?_, h.saved⟩
  · obtain ⟨body, hactive⟩ := h.active_eq_some hdoc
    refine ⟨body, hactive, ?_⟩
    rw [hlive name hname, active, hdoc, Option.bind_some, hactive]
  · cases hname : s.quarantined name with
    | true =>
      rw [(h.aside name hname).1] at hbody
      cases hbody
    | false =>
      rw [hlive name hname] at hbody
      obtain ⟨doc, hdoc, -⟩ := Option.bind_eq_some_iff.mp hbody
      exact ⟨doc, hdoc⟩

variable [DecidableEq ι]

theorem goto_calls (s : World ι ε υ) (call other : ι) (stage : Stage ε υ) :
    (s.goto call stage).calls other = if other = call then stage else s.calls other :=
  Function.update_apply s.calls call stage other

/-- A name that the step leaves alone, or settles, or leaves to a call, is as the invariant has it.
-/
theorem Inv.advance {s s₁ : World ι ε υ} {call : ι} {old stage : Stage ε υ} (h : s.Inv)
    (ha : Advance s s₁ call old stage) : (s₁.goto call stage).Inv := by
  have hcalls : ∀ other, (s₁.goto call stage).calls other =
      if other = call then stage else s.calls other := by
    intro other
    rw [goto_calls, ha.calls]
  have hopens : ∀ name, stage.opensOn name → ∃ other,
      ((s₁.goto call stage).calls other).opensOn name := by
    intro name hopen
    exact ⟨call, by rwa [hcalls, if_pos rfl]⟩
  have hothers : ∀ name, (∃ other, other ≠ call ∧ (s.calls other).opensOn name) → ∃ other,
      ((s₁.goto call stage).calls other).opensOn name := by
    rintro name ⟨other, hne, hopen⟩
    exact ⟨other, by rwa [hcalls, if_neg hne]⟩
  refine ⟨ha.wellFormed, fun name holder => ?_, ha.torn, fun other name newName hmoves => ?_,
    fun name hname => ⟨(ha.aside name hname).1, fun other => ?_⟩, fun name other hother hname => ?_,
    fun name hname => ?_, fun other compensation captured body hother => ?_, ha.saved⟩
  · rw [hcalls]
    split_ifs with hholder
    · subst hholder
      exact ha.holds name
    · exact (ha.lock name holder hholder).trans (h.locked name holder)
  · rw [hcalls] at hmoves
    split_ifs at hmoves
    · exact ha.moves name newName hmoves
    · exact h.moves other name newName hmoves
  · rw [hcalls]
    split_ifs
    · exact (ha.aside name hname).2
    · exact (h.aside name (ha.quarantine name hname)).2 other
  · rw [hcalls] at hother
    split_ifs at hother
    · exact (ha.dropped name hname).2 hother
    · exact (ha.dropped name hname).1 (h.dropped name other hother (ha.quarantine name hname))
  · obtain hopen | hother | ⟨-, heq⟩ | ⟨hout, hlive, hactive, hnot, hbinds⟩ := ha.kept name hname
    · obtain ⟨other, hother⟩ := hopens name hopen
      exact .inr ⟨other, .inl hother⟩
    · obtain ⟨other, hother⟩ := hothers name hother
      exact .inr ⟨other, .inl hother⟩
    · refine heq.imp id fun hbinds => ⟨call, .inr ?_⟩
      rwa [hcalls, if_pos rfl]
    · obtain heq | ⟨other, hother⟩ := h.settled name hout
      · exact .inl (hlive.trans (heq.trans hactive.symm))
      · refine .inr ⟨other, ?_⟩
        rw [hcalls]
        split_ifs with heq
        · subst heq
          rw [ha.was] at hother
          exact .inr (hbinds (hother.resolve_left hnot))
        · exact hother
  · rw [hcalls] at hother
    split_ifs at hother with heq
    · exact .inl (ha.bound compensation captured body hother)
    · have hbound := h.bound other compensation captured body hother
      have hholds : s.lock compensation.target = some other := by
        rw [h.locked, hother]
        rfl
      have hout : s₁.quarantined compensation.target = false := by
        refine Bool.eq_false_iff.mpr fun hin => ?_
        refine (h.aside _ (ha.quarantine _ hin)).2 other ?_
        rw [hother]
        cases compensation <;> simp [Stage.touches, Compensation.names, Compensation.target]
      obtain hopen | hopen | ⟨hfree, -⟩ | ⟨-, -, hactive, hnot, -⟩ := ha.kept _ hout
      · exact .inr (hopens _ hopen)
      · exact .inr (hothers _ hopen)
      · rw [hholds] at hfree
        obtain hfree | hfree := hfree
        · cases hfree
        · exact absurd (Option.some.inj hfree) heq
      · obtain hbound | ⟨third, hthird⟩ := hbound
        · exact .inl (hactive.trans hbound)
        · refine .inr (hothers _ ⟨third, ?_, hthird⟩)
          rintro rfl
          rw [ha.was] at hthird
          exact hnot hthird

/-- A call that has nothing to do on any name goes on to a stage like it. -/
theorem Inv.calm (h : s.Inv) (hold : Calm (s.calls call)) (hstage : Calm stage)
    (hmoves : ∀ name newName, stage.moves name newName → name ≠ newName)
    (hout : ∀ name, stage.touches name → s.quarantined name = false)
    (hdropping : ∀ name, stage ≠ .dropping name) : (s.goto call stage).Inv := by
  have ha : Advance s s call (s.calls call) stage :=
    { was := rfl
      calls := rfl
      quarantine := fun _ hname => hname
      wellFormed := h.wellFormed
      lock := fun _ _ _ => Iff.rfl
      holds := fun name => (h.locked name call).trans
        (iff_of_false (hold name).2.2 (hstage name).2.2)
      torn := h.torn
      moves := hmoves
      aside := fun name hname => ⟨(h.aside name hname).1,
        fun htouches => Bool.false_ne_true ((hout name htouches).symm.trans hname)⟩
      dropped := fun name _ => ⟨id, fun heq => absurd heq (hdropping name)⟩
      kept := fun name hname => .inr (.inr (.inr ⟨hname, rfl, rfl, (hold name).1,
        fun hbinds => absurd hbinds (hold name).2.1⟩))
      bound := fun compensation _ _ heq =>
        absurd (by rw [heq]; rfl) (hstage compensation.target).2.1
      saved := h.saved }
  exact h.advance ha

/-- A step that writes the store or binds, outside of a reload. -/
theorem Inv.act {s₁ : World ι ε υ} (h : s.Inv) (hwas : s.calls call = old)
    (hcalls : s₁.calls = s.calls) (hquarantined : s₁.quarantined = s.quarantined)
    (hlock : s₁.lock = s.lock) (hsaved : ∀ pair ∈ s₁.saved, pair.1 = pair.2)
    (hfree : ∀ name, ¬old.holds name ∧ ¬stage.holds name)
    (hwellFormed : ∀ name doc, s₁.store name = some doc → doc.WellFormed)
    (hmoves : ∀ name newName, stage.moves name newName → name ≠ newName)
    (hlive : ∀ name, s₁.live name = s.live name ∨ s.lock name = none ∧ s.quarantined name = false)
    (hout : ∀ name, stage.touches name → s.quarantined name = false)
    (hdropped : ∀ name, s.quarantined name = true →
      (s.store name = none → s₁.store name = none) ∧
      (stage = .dropping name → s₁.store name = none))
    (hkept : ∀ name, s.quarantined name = false → Kept s s₁ call old stage name) :
    (s₁.goto call stage).Inv := by
  have ha : Advance s s₁ call old stage :=
    { was := hwas
      calls := hcalls
      quarantine := fun name hname => by rwa [hquarantined] at hname
      wellFormed := hwellFormed
      lock := fun name holder _ => by rw [hlock]
      holds := fun name => by
        rw [hlock, h.locked, hwas]
        exact iff_of_false (hfree name).1 (hfree name).2
      torn := fun name holder hholder => by
        rw [hlock] at hholder
        obtain heq | ⟨hnone, -⟩ := hlive name
        · exact heq.trans (h.torn name holder hholder)
        · rw [hnone] at hholder
          cases hholder
      moves := hmoves
      aside := fun name hname => by
        rw [hquarantined] at hname
        refine ⟨?_, fun htouches => Bool.false_ne_true ((hout name htouches).symm.trans hname)⟩
        obtain heq | ⟨-, hfalse⟩ := hlive name
        · exact heq.trans (h.aside name hname).1
        · rw [hname] at hfalse
          cases hfalse
      dropped := fun name hname => hdropped name (by rwa [hquarantined] at hname)
      kept := fun name hname => hkept name (by rwa [hquarantined] at hname)
      bound := fun compensation captured body heq => by
        subst heq
        exact absurd rfl (hfree compensation.target).2
      saved := hsaved }
  exact h.advance ha

theorem Inv.put (h : s.Inv) (hwas : s.calls call = old)
    {doc : Option (Document (PresetBody ε υ))}
    (hdoc : ∀ doc' ∈ doc, doc'.WellFormed ∧ s.quarantined name = false)
    (hfree : ∀ other, ¬old.holds other ∧ ¬stage.holds other)
    (hmoves : ∀ name newName, stage.moves name newName → name ≠ newName)
    (hout : ∀ other, stage.touches other → s.quarantined other = false)
    (hdropping : ∀ other, stage = .dropping other → other = name ∧ doc = none)
    (honly : ∀ other, other ≠ name → ¬old.opensOn other ∧ ¬old.bindsOn other)
    (hname : s.quarantined name = false → Kept s (s.put name doc) call old stage name) :
    ((s.put name doc).goto call stage).Inv := by
  refine h.act hwas rfl rfl rfl h.saved hfree (fun other doc' hstore => ?_) hmoves
    (fun _ => .inl rfl) hout (fun other hother => ⟨fun hnone => ?_, fun hdrop => ?_⟩)
    (fun other hother => ?_)
  · rw [put_store] at hstore
    split_ifs at hstore
    · exact (hdoc doc' hstore).1
    · exact h.wellFormed other doc' hstore
  · rw [put_store]
    split_ifs with heq
    · cases doc with
      | none => rfl
      | some doc =>
        have hfalse := (hdoc doc rfl).2
        rw [← heq, hother] at hfalse
        cases hfalse
    · exact hnone
  · obtain ⟨rfl, rfl⟩ := hdropping other hdrop
    rw [put_store, if_pos rfl]
  · by_cases heq : other = name
    · subst heq
      exact hname hother
    · exact .frame hother rfl (by rw [put_active, if_neg heq]) (honly other heq).1
        (honly other heq).2

theorem Inv.bind (h : s.Inv) (hwas : s.calls call = old) {body : Option (PresetBody ε υ)}
    (hlock : s.lock name = none) (hin : s.quarantined name = false)
    (hfree : ∀ other, ¬old.holds other ∧ ¬stage.holds other)
    (hmoves : ∀ name newName, stage.moves name newName → name ≠ newName)
    (hout : ∀ other, stage.touches other → s.quarantined other = false)
    (hdropping : ∀ other, stage ≠ .dropping other)
    (honly : ∀ other, other ≠ name → ¬old.opensOn other ∧ ¬old.bindsOn other)
    (hname : Kept s (s.bind name body) call old stage name) :
    ((s.bind name body).goto call stage).Inv := by
  refine h.act hwas rfl rfl rfl h.saved hfree h.wellFormed hmoves (fun other => ?_) hout
    (fun other _ => ⟨id, fun hdrop => absurd hdrop (hdropping other)⟩) (fun other hother => ?_)
  · rw [bind_live]
    split_ifs with heq
    · subst heq
      exact .inr ⟨hlock, hin⟩
    · exact .inl rfl
  · by_cases heq : other = name
    · subst heq
      exact hname
    · exact .frame hother (by rw [bind_live, if_neg heq]) rfl (honly other heq).1
        (honly other heq).2

theorem Inv.start (h : s.Inv) (hidle : s.calls call = .idle) (request : Call ε υ) :
    (s.start call request).Inv := by
  have hcalm : Calm (s.calls call) := by
    rw [hidle]
    exact fun _ => ⟨id, id, id⟩
  have hover : (s.goto call .over).Inv :=
    h.calm hcalm (fun _ => ⟨id, id, id⟩) nofun nofun nofun
  cases request with
  | createPreset name body =>
    simp only [World.start]
    split_ifs with hcheck
    · exact hover
    · have hin := (Bool.not_eq_true _).mp (not_or.mp hcheck).1
      exact h.calm hcalm (fun _ => ⟨id, id, id⟩) nofun (fun _ heq => heq ▸ hin) nofun
  | saveVersion name edit =>
    simp only [World.start]
    split
    · next doc hin _ =>
        exact h.calm hcalm (fun _ => ⟨id, id, id⟩) nofun (fun _ heq => heq ▸ hin) nofun
    · exact hover
  | rollbackPreset name version =>
    simp only [World.start]
    split
    · next doc hin _ =>
        exact h.calm hcalm (fun _ => ⟨id, id, id⟩) nofun (fun _ heq => heq ▸ hin) nofun
    · exact hover
  | renamePreset name newName =>
    simp only [World.start]
    split_ifs with hcheck
    · exact hover
    · simp only [not_or] at hcheck
      have hin := (Bool.not_eq_true _).mp hcheck.2.1
      refine h.calm hcalm (fun _ => ⟨id, id, id⟩) ?_ (fun _ heq => heq ▸ hin) nofun
      rintro _ _ ⟨rfl, rfl⟩
      exact Ne.symm hcheck.1
  | deletePreset name =>
    simp only [World.start]
    split_ifs with hin hnone
    · exact h.calm hcalm (fun _ => ⟨id, id, id⟩) nofun nofun nofun
    · exact hover
    · have hin := (Bool.not_eq_true _).mp hin
      exact h.put hidle nofun (fun _ => ⟨id, id⟩) nofun (fun _ heq => heq ▸ hin) nofun
        (fun _ _ => ⟨id, id⟩) fun _ => .inl rfl

end World

end TaiSkeleton.Presets
