import TaiSkeleton.AccessControl.RoleAssignment

/-!
# The roles of the holders

As long as a role gets no holder between the count of its deletion and the deletion, and no policy
write brings back a role that has gone since it was read, every policy points to a role that is
there, that is not the admin's, and that has been assigned to the user since it was created.
-/

namespace TaiSkeleton.AccessControl

open Lib Versioning

/-- The pointer of a user's policy. -/
def RoleWorld.pointer (s : RoleWorld) (user : String) : Option String :=
  (s.policies.lookup user).bind fun body => pointerOf body.policyData

/-- What the task has read still stands where it writes: a role that is deleted has no holders, one
that is assigned is there, and any other that a policy comes to point to is assigned to the user. -/
def RoleWorld.standing (s : RoleWorld) : RoleTask → Bool
  | .deleting name => s.holders name = ∅
  | .writing user roleName role _ =>
    role.allowAll || (s.roles roleName).isSome || user ∉ s.policies
  | .inserting user roleName role _ =>
    role.allowAll || (s.roles roleName).isSome || user ∈ s.policies
  | .marking user policyData => user ∉ s.policies || (pointerOf policyData).all (s.holds user)
  | .restoring user _ target =>
    user ∉ s.policies || (pointerOf target.policyData).all (s.holds user)
  | _ => true

/-- The condition on a step of a run. -/
def RoleWorld.steady (s : RoleWorld) : RoleLabel → Bool
  | .step n => (s.tasks.lookup n).all s.standing
  | _ => true

/-! ## Pointers -/

section Pointers

variable {policyData stored : Members Datum} {name : String} {value : Option Datum}

theorem pointerOf_insert_of_ne (h : name ≠ rolePointerKey) :
    pointerOf (policyData.insert name value) = pointerOf policyData := by
  simp only [pointerOf, Members.get?, Finmap.lookup_insert_of_ne _ h.symm]

theorem pointerOf_erase_of_ne (h : name ≠ rolePointerKey) :
    pointerOf (policyData.erase name) = pointerOf policyData := by
  simp only [pointerOf, Members.get?, Finmap.lookup_erase_ne h.symm]

theorem keyFingerprintClaim_ne : keyFingerprintClaim ≠ rolePointerKey := by decide

/-- An edit keeps the pointer that it is given. -/
theorem pointerOf_editPolicyData : pointerOf (editPolicyData stored policyData) =
    pointerOf policyData := by
  unfold editPolicyData
  split
  · exact pointerOf_erase_of_ne keyFingerprintClaim_ne
  · rw [pointerOf_insert_of_ne keyFingerprintClaim_ne, pointerOf_erase_of_ne keyFingerprintClaim_ne]

theorem pointerOf_restorePolicyBody {target body : PolicyBody Datum} :
    pointerOf (restorePolicyBody target body).policyData = pointerOf target.policyData := by
  unfold restorePolicyBody
  dsimp only
  split
  · exact pointerOf_insert_of_ne keyFingerprintClaim_ne
  · exact pointerOf_erase_of_ne keyFingerprintClaim_ne

/-- The pointer that `apply_role` writes. -/
theorem pointerOf_point {role : RoleBody} {roleName : String} :
    pointerOf ((role.definition roleName).point policyData) =
      if role.allowAll then none else some roleName := by
  unfold RoleDefinition.point RoleBody.definition
  dsimp only
  split_ifs
  · simp only [pointerOf, Members.get?, Finmap.lookup_erase, Option.join_none, Option.map_none]
  · simp only [pointerOf, Members.get?, Finmap.lookup_insert, Option.join_some, Option.map_some,
      Datum.text]

end Pointers

/-! ## Role documents -/

namespace RoleDoc.Sound

variable {name : String} {role : RoleDoc}

theorem allowAll_of_bodyAt (h : role.Sound name) {version : ℕ} {body : RoleBody}
    (hbody : role.doc.bodyAt version = some body) :
    body.allowAll = (name == reservedAdminRole) := by
  obtain ⟨row, hrow, rfl⟩ := Option.map_eq_some_iff.mp hbody
  exact h.allowAll row (List.mem_of_find?_eq_some hrow)

theorem create {incarnation : ℕ} {body : RoleBody} (hname : name ≠ reservedAdminRole)
    (hbody : body.allowAll = false) :
    (RoleDoc.mk incarnation (Document.create "role" name body)).Sound name where
  wellFormed := Document.create_wellFormed
  allowAll row hrow := by
    obtain rfl := List.mem_singleton.mp hrow
    rw [hbody, beq_false_of_ne hname]

theorem saveVersion (h : role.Sound name) {body : RoleBody} (hname : name ≠ reservedAdminRole)
    (hbody : body.allowAll = false) :
    RoleDoc.Sound name { role with doc := role.doc.saveVersion body } where
  wellFormed := h.wellFormed.saveVersion
  allowAll row hrow := by
    obtain hrow | hrow := List.mem_append.mp hrow
    · exact h.allowAll row hrow
    · obtain rfl := List.mem_singleton.mp hrow
      rw [hbody, beq_false_of_ne hname]

theorem rollback (h : role.Sound name) {version : ℕ} {body : RoleBody}
    (hbody : role.doc.bodyAt version = some body) :
    RoleDoc.Sound name { role with doc := role.doc.rollback version } where
  wellFormed := h.wellFormed.point (Document.mem_numbers_of_bodyAt hbody)
  allowAll := h.allowAll

end RoleDoc.Sound

theorem allowAll_of_resolvedCreate {grantable : String → Bool} {name description baseTier : String}
    {grants : List (String × GrantLevel)} {body : RoleBody}
    (h : resolvedCreate grantable name description baseTier grants = some body) :
    name ≠ reservedAdminRole ∧ body.allowAll = false := by
  unfold resolvedCreate at h
  split at h
  · cases h
  · next hname =>
    split at h
    · cases h
    · split_ifs at h
      obtain rfl := Option.some.inj h
      exact ⟨hname, rfl⟩

theorem allowAll_of_updatedRole {grantable : String → Bool}
    {grants : Option (List (String × GrantLevel))} {description : Option String}
    {role body : RoleBody} (h : updatedRole grantable grants description role = some body) :
    body.allowAll = false := by
  unfold updatedRole at h
  split_ifs at h with _ hallow
  obtain rfl := Option.some.inj h
  simpa using hallow

/-! ## The invariant -/

/-- What a task has read of its role. -/
def RoleTask.Sound : RoleTask → Prop
  | .assigning _ roleName role => role.allowAll = (roleName == reservedAdminRole)
  | .writing _ roleName role policyData | .inserting _ roleName role policyData =>
    role.allowAll = (roleName == reservedAdminRole) ∧
      pointerOf policyData = if role.allowAll then none else some roleName
  | _ => True

structure RoleWorld.Sound (s : RoleWorld) : Prop where
  roles : ∀ name role, s.roles name = some role → role.Sound name ∧ role.incarnation < s.nextRole
  assigned : ∀ user name k, (user, name, k) ∈ s.assigned →
    name ≠ reservedAdminRole ∧ k < s.nextRole
  pointers : ∀ user body name, s.policies.lookup user = some body →
    pointerOf body.policyData = some name → s.holds user name = true
  tasks : ∀ n task, s.tasks.lookup n = some task → task.Sound

namespace RoleWorld

variable {s s' : RoleWorld} {n : ℕ} {user name : String}

theorem holds_iff : s.holds user name = true ↔
    ∃ role, s.roles name = some role ∧ (user, name, role.incarnation) ∈ s.assigned := by
  cases hrole : s.roles name with
  | none => simp [holds, hrole]
  | some role => simp [holds, hrole]

namespace Sound

theorem goOn (h : s.Sound) {task : RoleTask} (htask : task.Sound) : (s.goOn n task).Sound where
  roles := h.roles
  assigned := h.assigned
  pointers := h.pointers
  tasks m task' hlookup := by
    by_cases hm : m = n
    · subst hm
      rw [RoleWorld.goOn, Finmap.lookup_insert] at hlookup
      obtain rfl := Option.some.inj hlookup
      exact htask
    · rw [RoleWorld.goOn, Finmap.lookup_insert_of_ne _ hm] at hlookup
      exact h.tasks m task' hlookup

theorem stop (h : s.Sound) : (s.stop n).Sound where
  roles := h.roles
  assigned := h.assigned
  pointers := h.pointers
  tasks m task hlookup := by
    by_cases hm : m = n
    · subst hm
      rw [RoleWorld.stop, Finmap.lookup_erase] at hlookup
      cases hlookup
    · rw [RoleWorld.stop, Finmap.lookup_erase_ne hm] at hlookup
      exact h.tasks m task hlookup

theorem setHistory (h : s.Sound) {doc : Document (PolicyBody Datum)} :
    (s.setHistory user doc).Sound := ⟨h.roles, h.assigned, h.pointers, h.tasks⟩

/-- A policy is written that points to a role of its user, if to any. -/
theorem setPolicy (h : s.Sound) {body : PolicyBody Datum}
    (hpointer : ∀ name, pointerOf body.policyData = some name → s.holds user name = true) :
    (s.setPolicy user body).Sound where
  roles := h.roles
  assigned := h.assigned
  pointers user' body' name hlookup hname := by
    by_cases huser : user' = user
    · subst huser
      rw [RoleWorld.setPolicy, Finmap.lookup_insert] at hlookup
      obtain rfl := Option.some.inj hlookup
      exact hpointer name hname
    · rw [RoleWorld.setPolicy, Finmap.lookup_insert_of_ne _ huser] at hlookup
      exact h.pointers user' body' name hlookup hname
  tasks := h.tasks

theorem erasePolicy (h : s.Sound) :
    Sound { s with policies := s.policies.erase user } where
  roles := h.roles
  assigned := h.assigned
  pointers user' body name hlookup hname := by
    by_cases huser : user' = user
    · subst huser
      rw [Finmap.lookup_erase] at hlookup
      cases hlookup
    · rw [Finmap.lookup_erase_ne huser] at hlookup
      exact h.pointers user' body name hlookup hname
  tasks := h.tasks

/-- A role that no policy points to is created or deleted. -/
theorem setRole (h : s.Sound) {role : Option RoleDoc} {k : ℕ} (hk : s.nextRole ≤ k)
    (hrole : ∀ r, role = some r → r.Sound name ∧ r.incarnation < k)
    (hfree : ∀ user body, s.policies.lookup user = some body →
      pointerOf body.policyData ≠ some name) :
    Sound { s.setRole name role with nextRole := k } where
  roles name' role' hlookup := by
    by_cases hname : name' = name
    · subst hname
      simp only [RoleWorld.setRole, Function.update_self] at hlookup
      exact hrole role' hlookup
    · simp only [RoleWorld.setRole, Function.update_of_ne hname] at hlookup
      obtain ⟨hsound, hlt⟩ := h.roles name' role' hlookup
      exact ⟨hsound, hlt.trans_le hk⟩
  assigned user' name' k' hmem := by
    obtain ⟨hne, hlt⟩ := h.assigned user' name' k' hmem
    exact ⟨hne, hlt.trans_le hk⟩
  pointers user body name' hlookup hpointer := by
    have hne : name' ≠ name := by
      rintro rfl
      exact hfree user body hlookup hpointer
    obtain ⟨role', hrole', hmem⟩ := holds_iff.mp (h.pointers user body name' hlookup hpointer)
    refine holds_iff.mpr ⟨role', ?_, hmem⟩
    simpa only [RoleWorld.setRole, Function.update_of_ne hne] using hrole'
  tasks := h.tasks

/-- The document of a role is edited. -/
theorem editRole (h : s.Sound) {role : RoleDoc} {doc : Document RoleBody}
    (hlookup : s.roles name = some role) (hdoc : RoleDoc.Sound name { role with doc := doc }) :
    (s.setRole name (some { role with doc := doc })).Sound where
  roles name' role' hlookup' := by
    by_cases hname : name' = name
    · subst hname
      simp only [RoleWorld.setRole, Function.update_self, Option.some.injEq] at hlookup'
      subst hlookup'
      exact ⟨hdoc, (h.roles name' role hlookup).2⟩
    · simp only [RoleWorld.setRole, Function.update_of_ne hname] at hlookup'
      exact h.roles name' role' hlookup'
  assigned := h.assigned
  pointers user body name' hpolicy hpointer := by
    obtain ⟨role', hrole', hmem⟩ := holds_iff.mp (h.pointers user body name' hpolicy hpointer)
    by_cases hname : name' = name
    · subst hname
      rw [hlookup] at hrole'
      obtain rfl := Option.some.inj hrole'
      refine holds_iff.mpr ⟨{ role with doc := doc }, ?_, hmem⟩
      simp only [RoleWorld.setRole, Function.update_self]
    · refine holds_iff.mpr ⟨role', ?_, hmem⟩
      simpa only [RoleWorld.setRole, Function.update_of_ne hname] using hrole'
  tasks := h.tasks

theorem assign (h : s.Sound) (hname : name ≠ reservedAdminRole) : (s.assign user name).Sound := by
  unfold RoleWorld.assign
  split
  · exact h
  · next role hrole =>
    refine ⟨h.roles, fun user' name' k hmem => ?_, fun user' body name' hlookup hpointer => ?_,
      h.tasks⟩
    · obtain heq | hmem := List.mem_cons.mp hmem
      · obtain ⟨rfl, rfl, rfl⟩ : user' = user ∧ name' = name ∧ k = role.incarnation := by
          simpa using heq
        exact ⟨hname, (h.roles name' role hrole).2⟩
      · exact h.assigned user' name' k hmem
    · obtain ⟨role', hrole', hmem⟩ :=
        holds_iff.mp (h.pointers user' body name' hlookup hpointer)
      exact holds_iff.mpr ⟨role', hrole', List.mem_cons_of_mem _ hmem⟩

theorem holds_assign {role : RoleDoc} (hrole : s.roles name = some role) :
    (s.assign user name).holds user name = true := by
  simp only [RoleWorld.assign, hrole]
  exact holds_iff.mpr ⟨role, hrole, List.mem_cons_self⟩

/-- `apply_role` writes a body with the pointer to a role that is there, or without one. -/
theorem applied (h : s.Sound) {role : RoleBody} {body : PolicyBody Datum}
    (hallow : role.allowAll = (name == reservedAdminRole))
    (hpointer : pointerOf body.policyData = if role.allowAll then none else some name)
    (hthere : role.allowAll = false → (s.roles name).isSome = true) :
    (s.applied n user name role body).Sound := by
  unfold RoleWorld.applied
  cases hrole : role.allowAll with
  | true =>
    rw [hrole, if_pos rfl] at hpointer
    refine (h.setPolicy fun name' hname' => ?_).goOn trivial
    rw [hpointer] at hname'
    cases hname'
  | false =>
    rw [hrole, if_neg Bool.false_ne_true] at hpointer
    obtain ⟨role', hrole'⟩ := Option.isSome_iff_exists.mp (hthere hrole)
    have hne : name ≠ reservedAdminRole := by
      rintro rfl
      rw [hrole, beq_self_eq_true] at hallow
      cases hallow
    have hassigned : ((s.assign user name).setPolicy user body).Sound := by
      refine (h.assign hne).setPolicy fun name' hname' => ?_
      rw [hpointer] at hname'
      obtain rfl := Option.some.inj hname'
      exact holds_assign hrole'
    have heq : ((s.setPolicy user body).goOn n (.recording user body)).assign user name =
        ((s.assign user name).setPolicy user body).goOn n (.recording user body) := by
      simp only [RoleWorld.assign, RoleWorld.setPolicy, RoleWorld.goOn, hrole']
    simp only [Bool.false_eq_true, if_false, heq]
    exact hassigned.goOn trivial

/-! ### The steps -/

variable {grantable : String → Bool}

theorem free_of_missing (h : s.Sound) (hname : s.roles name = none) :
    ∀ user body, s.policies.lookup user = some body → pointerOf body.policyData ≠ some name := by
  intro user body hlookup hpointer
  obtain ⟨role, hrole, -⟩ := holds_iff.mp (h.pointers user body name hlookup hpointer)
  rw [hname] at hrole
  cases hrole

theorem free_of_holders (hname : s.holders name = ∅) :
    ∀ user body, s.policies.lookup user = some body → pointerOf body.policyData ≠ some name := by
  intro user body hlookup hpointer
  have hmem : user ∈ s.holders name := by
    refine Finset.mem_filter.mpr ⟨Finmap.mem_keys.mpr (Finmap.mem_of_lookup_eq_some hlookup), ?_⟩
    rw [hlookup, Option.bind_some, hpointer]
  rw [hname] at hmem
  cases hmem

theorem begin (h : s.Sound) (request : RoleRequest) : (s.begin grantable n request).Sound := by
  cases request with
  | createRole name description baseTier grants =>
    simp only [RoleWorld.begin]
    split
    · exact h.stop
    · next body hbody =>
      obtain ⟨hname, hallow⟩ := allowAll_of_resolvedCreate hbody
      split
      · exact h.stop
      · next hmissing =>
        refine (h.setRole (Nat.le_succ _) (fun role hrole => ?_) (h.free_of_missing hmissing)).stop
        obtain rfl := Option.some.inj hrole
        exact ⟨RoleDoc.Sound.create hname hallow, Nat.lt_succ_self _⟩
  | updateRole name grants description =>
    simp only [RoleWorld.begin]
    split
    · exact h.stop
    · next hname =>
      split
      · exact h.stop
      · next role hrole =>
        split
        · exact h.stop
        · next body hbody =>
          obtain ⟨old, -, hupdated⟩ := Option.bind_eq_some_iff.mp hbody
          have hdoc := (h.roles name role hrole).1
          exact (h.editRole hrole
            (hdoc.saveVersion hname (allowAll_of_updatedRole hupdated))).stop
  | rollbackRole name version =>
    simp only [RoleWorld.begin]
    split
    · exact h.stop
    · split
      · exact h.stop
      · next role hrole =>
        split
        · exact h.stop
        · next body hbody =>
          exact (h.editRole hrole ((h.roles name role hrole).1.rollback hbody)).stop
  | deleteRole name =>
    simp only [RoleWorld.begin]
    split_ifs
    · exact h.stop
    · exact h.goOn trivial
    · exact h.stop
  | applyRole user roleName =>
    simp only [RoleWorld.begin]
    split
    · exact h.stop
    · next body hbody =>
      obtain ⟨role, hrole, hactive⟩ := Option.bind_eq_some_iff.mp hbody
      split_ifs
      · exact h.goOn ((h.roles roleName role hrole).1.allowAll_of_bodyAt hactive)
      · exact h.stop
  | setUserDisabled user disabled =>
    simp only [RoleWorld.begin]
    split
    · exact h.stop
    · exact h.goOn trivial
  | removePolicy user owned => exact h.goOn trivial
  | rollbackPolicy user version =>
    simp only [RoleWorld.begin]
    split
    · exact h.stop
    · exact h.goOn trivial

theorem stepTask (h : s.Sound) {task : RoleTask} (htask : task.Sound)
    (hstanding : s.standing task = true) : (s.stepTask grantable n task).Sound := by
  cases task with
  | calling request => exact h.begin request
  | deleting name =>
    have hfree : ∀ user body, s.policies.lookup user = some body →
        pointerOf body.policyData ≠ some name :=
      free_of_holders (of_decide_eq_true hstanding)
    refine (h.setRole le_rfl (fun role hrole => ?_) hfree).stop
    cases hrole
  | assigning user roleName role => exact h.goOn ⟨htask, pointerOf_point⟩
  | writing user roleName role policyData =>
    simp only [RoleWorld.stepTask]
    split
    · exact h.goOn htask
    · next body hbody =>
      have hmem : user ∈ s.policies := Finmap.mem_of_lookup_eq_some hbody
      refine h.applied htask.1 ?_ fun hallow => ?_
      · exact pointerOf_editPolicyData.trans htask.2
      · simpa [RoleWorld.standing, hallow, hmem] using hstanding
  | inserting user roleName role policyData =>
    simp only [RoleWorld.stepTask]
    split
    · exact h.stop
    · next hnone =>
      have hmem : user ∉ s.policies := Finmap.lookup_eq_none.mp hnone
      refine h.applied htask.1 htask.2 fun hallow => ?_
      simpa [RoleWorld.standing, hallow, hmem] using hstanding
  | marking user policyData =>
    simp only [RoleWorld.stepTask]
    split
    · exact h.stop
    · next body hbody =>
      have hmem : user ∈ s.policies := Finmap.mem_of_lookup_eq_some hbody
      refine (h.setPolicy fun name hname => ?_).goOn trivial
      have hpointer : pointerOf policyData = some name :=
        pointerOf_editPolicyData.symm.trans hname
      simpa [RoleWorld.standing, hmem, hpointer] using hstanding
  | removing user owned =>
    cases owned with
    | nil => exact h.erasePolicy.stop
    | cons key owned => exact h.erasePolicy.goOn trivial
  | restoring user version target =>
    simp only [RoleWorld.stepTask]
    split
    · exact h.stop
    · next body hbody =>
      have hmem : user ∈ s.policies := Finmap.mem_of_lookup_eq_some hbody
      refine (h.setPolicy fun name hname => ?_).goOn trivial
      have hpointer : pointerOf target.policyData = some name :=
        pointerOf_restorePolicyBody.symm.trans hname
      simpa [RoleWorld.standing, hmem, hpointer] using hstanding
  | repointing user version =>
    simp only [RoleWorld.stepTask]
    split
    · exact h.stop
    · exact h.setHistory.stop
  | recording user body =>
    simp only [RoleWorld.stepTask]
    split
    · exact h.goOn trivial
    · split_ifs
      · exact h.stop
      · exact h.goOn trivial
  | founding user body =>
    simp only [RoleWorld.stepTask]
    split
    · exact h.stop
    · exact h.setHistory.stop
  | saving user body =>
    simp only [RoleWorld.stepTask]
    split
    · exact h.stop
    · exact h.setHistory.stop

theorem step (h : s.Sound) {a : RoleLabel} (hsteady : s.steady a = true)
    (hstep : s.next grantable a = some s') : s'.Sound := by
  cases a with
  | call n request =>
    simp only [RoleWorld.next] at hstep
    split at hstep
    · obtain rfl := Option.some.inj hstep
      exact h.goOn trivial
    · cases hstep
  | step n =>
    obtain ⟨task, htask, rfl⟩ := Option.map_eq_some_iff.mp hstep
    refine h.stepTask (h.tasks n task htask) ?_
    simpa [RoleWorld.steady, htask] using hsteady
  | fail n =>
    obtain rfl := Option.some.inj hstep
    exact h.stop

theorem of_first (h : s.First) : s.Sound where
  roles := h.roles
  assigned := h.assigned
  pointers := h.pointers
  tasks n task hlookup := by
    rw [h.idle, Finmap.lookup_empty] at hlookup
    cases hlookup

end Sound

end RoleWorld

/-- In the steady runs each policy points to a role that is there, that does not allow all, and
that has been assigned to the user since it was created. -/
theorem assigned_of_steady {grantable : String → Bool} {s : RoleWorld}
    (h : ((roleMutations grantable).when fun s a => s.steady a = true).Reachable s) :
    ∀ user body name, s.policies.lookup user = some body →
      pointerOf body.policyData = some name →
      ∃ role active, s.roles name = some role ∧ role.doc.activeBody = some active ∧
        active.allowAll = false ∧ (user, name, role.incarnation) ∈ s.assigned := by
  have hsound : s.Sound := by
    refine h.invariant (p := RoleWorld.Sound) (fun s hfirst => .of_first hfirst) ?_
    rintro s a s' hs ⟨hsteady, hstep⟩
    exact hs.step hsteady hstep
  intro user body name hlookup hpointer
  obtain ⟨role, hrole, hmem⟩ :=
    RoleWorld.holds_iff.mp (hsound.pointers user body name hlookup hpointer)
  have hdoc := (hsound.roles name role hrole).1
  obtain ⟨active, hactive⟩ := Document.bodyAt_of_mem_numbers hdoc.wellFormed.active
  refine ⟨role, active, hrole, hactive, ?_, hmem⟩
  rw [hdoc.allowAll_of_bodyAt hactive, beq_false_of_ne (hsound.assigned user name _ hmem).1]

/-! ## Unsteady steps -/

namespace RoleWorld

variable {s s' : RoleWorld} {n : ℕ} {user name : String}

theorem pointer_setPolicy {body : PolicyBody Datum} {task : RoleTask} :
    ((s.setPolicy user body).goOn n task).pointer user = pointerOf body.policyData := by
  simp only [pointer, setPolicy, goOn, Finmap.lookup_insert, Option.bind_some]

/-- `apply_role` writes the pointer to a role that is gone. -/
theorem applied_missing {role : RoleBody} {body : PolicyBody Datum} (hallow : role.allowAll = false)
    (hpointer : pointerOf body.policyData = if role.allowAll then none else some name)
    (hmissing : s.roles name = none) :
    (s.applied n user name role body).pointer user = some name ∧
      (s.applied n user name role body).holds user name = false := by
  simp only [hallow, Bool.false_eq_true, if_false] at hpointer
  simp only [applied, hallow, Bool.false_eq_true, if_false, assign, setPolicy, goOn, hmissing]
  refine ⟨?_, ?_⟩
  · rw [pointer, Finmap.lookup_insert, Option.bind_some, hpointer]
  · rw [holds, hmissing, Option.any_none]

/-- A step that is not steady leaves a user with a role that it was not assigned. -/
theorem unassigned_of_unsteady {grantable : String → Bool} {a : RoleLabel} (h : s.Sound)
    (ha : s.steady a = false) (hstep : s.next grantable a = some s') :
    ∃ user name, s'.pointer user = some name ∧ s'.holds user name = false := by
  cases a with
  | call n request => cases ha
  | fail n => cases ha
  | step n =>
    obtain ⟨task, htask, rfl⟩ := Option.map_eq_some_iff.mp hstep
    have hstanding : s.standing task = false := by simpa [steady, htask] using ha
    have hsound := h.tasks n task htask
    cases task with
    | deleting name =>
      have hne : s.holders name ≠ ∅ := by simpa [standing] using hstanding
      obtain ⟨user, huser⟩ := Finset.nonempty_iff_ne_empty.mpr hne
      refine ⟨user, name, (Finset.mem_filter.mp huser).2, ?_⟩
      simp only [stepTask, stop, setRole, holds, Function.update_self, Option.any_none]
    | writing user roleName role policyData =>
      obtain ⟨⟨hallow, hmissing⟩, hmem⟩ :
          (role.allowAll = false ∧ s.roles roleName = none) ∧ user ∈ s.policies := by
        simpa [standing] using hstanding
      obtain ⟨body, hbody⟩ := Finmap.mem_iff.mp hmem
      simp only [stepTask, hbody]
      exact ⟨user, roleName, applied_missing hallow
        (pointerOf_editPolicyData.trans hsound.2) hmissing⟩
    | inserting user roleName role policyData =>
      obtain ⟨⟨hallow, hmissing⟩, hmem⟩ :
          (role.allowAll = false ∧ s.roles roleName = none) ∧ user ∉ s.policies := by
        simpa [standing] using hstanding
      simp only [stepTask, Finmap.lookup_eq_none.mpr hmem]
      exact ⟨user, roleName, applied_missing hallow hsound.2 hmissing⟩
    | marking user policyData =>
      obtain ⟨hmem, name, hname, hholds⟩ : user ∈ s.policies ∧
          ∃ name, pointerOf policyData = some name ∧ s.holds user name = false := by
        simpa [standing, Option.all_eq_false] using hstanding
      obtain ⟨body, hbody⟩ := Finmap.mem_iff.mp hmem
      simp only [stepTask, hbody]
      exact ⟨user, name, pointer_setPolicy.trans (pointerOf_editPolicyData.trans hname), hholds⟩
    | restoring user version target =>
      obtain ⟨hmem, name, hname, hholds⟩ : user ∈ s.policies ∧
          ∃ name, pointerOf target.policyData = some name ∧ s.holds user name = false := by
        simpa [standing, Option.all_eq_false] using hstanding
      obtain ⟨body, hbody⟩ := Finmap.mem_iff.mp hmem
      simp only [stepTask, hbody]
      exact ⟨user, name, pointer_setPolicy.trans (pointerOf_restorePolicyBody.trans hname), hholds⟩
    | _ => cases hstanding

end RoleWorld

/-- No roles, no policies and no operation in flight. -/
def noRoles : RoleWorld where
  roles _ := none
  nextRole := 0
  policies := ∅
  history _ := none
  assigned := []
  tasks := ∅

theorem noRoles_first : noRoles.First := by
  refine ⟨rfl, ?_, ?_, ?_⟩
  · rintro name role hrole
    cases hrole
  · rintro user name k hmem
    cases hmem
  · rintro user body name hlookup
    cases hlookup

/-- Two roles are created and assigned to a user one after the other. -/
def twoAssignments : List RoleLabel :=
  [.call 0 (.createRole "r" "" "editor" []), .step 0,
    .call 0 (.createRole "q" "" "viewer" []), .step 0] ++
    .call 0 (.applyRole "u" "r") :: List.replicate 6 (.step 0) ++
    .call 0 (.applyRole "u" "q") :: List.replicate 5 (.step 0)

/-- The user holds the second role, as it is now. -/
theorem assigned_twice : ∃ s : RoleWorld, s.pointer "u" = some "q" ∧
    ∃ role active, s.roles "q" = some role ∧ role.doc.activeBody = some active ∧
      active.allowAll = false ∧ ("u", "q", role.incarnation) ∈ s.assigned := by
  obtain ⟨s, hs, hp⟩ := System.Reachable.of_foldlM
    (S := (roleMutations fun _ => true).when fun s a => s.steady a = true)
    (f := System.guarded (fun s a => s.next (fun _ => true) a) RoleWorld.steady) (s := noRoles)
    (p := fun s => s.pointer "u" == some "q") (l := twoAssignments)
    (fun s a s' h => System.step_of_guarded h) noRoles_first (by decide +kernel)
  have hpointer : s.pointer "u" = some "q" := by simpa using hp
  obtain ⟨body, hbody, hname⟩ := Option.bind_eq_some_iff.mp hpointer
  exact ⟨s, hpointer, assigned_of_steady hs "u" body "q" hbody hname⟩

/-- The first role is deleted, and the user's policy is rolled back to it. -/
theorem rolled_back_to_deleted : ∃ s, (roleMutations fun _ => true).Reachable s ∧
    (∀ n, s.tasks.lookup n = none) ∧ s.pointer "u" = some "r" ∧ s.roles "r" = none := by
  obtain ⟨s, hs, hp⟩ := System.Reachable.of_foldlM (S := roleMutations fun _ => true)
    (f := fun s a => s.next (fun _ => true) a) (s := noRoles)
    (p := fun s => decide (s.tasks.keys = ∅) && s.pointer "u" == some "r" && (s.roles "r").isNone)
    (l := twoAssignments ++ .call 0 (.deleteRole "r") :: List.replicate 2 (.step 0) ++
      .call 0 (.rollbackPolicy "u" 1) :: List.replicate 3 (.step 0))
    (fun s a s' h => h) noRoles_first (by decide +kernel)
  simp only [Bool.and_eq_true, decide_eq_true_eq, beq_iff_eq, Option.isNone_iff_eq_none] at hp
  obtain ⟨⟨hidle, hpointer⟩, hrole⟩ := hp
  refine ⟨s, hs, fun n => Finmap.lookup_eq_none.mpr fun hmem => ?_, hpointer, hrole⟩
  have hkey : n ∈ s.tasks.keys := Finmap.mem_keys.mpr hmem
  rw [hidle] at hkey
  cases hkey

end TaiSkeleton.AccessControl
