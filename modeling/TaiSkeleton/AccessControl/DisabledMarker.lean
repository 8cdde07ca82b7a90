import TaiSkeleton.AccessControl.AssignedRoles

/-!
# The disabled marker and the removed policy

An assignment of a role writes back the policy data that it has read. One that is between its read
and its write when a user is disabled writes the marker away, and one that is on its way when a
policy is removed brings the policy back; no other does.
-/

namespace TaiSkeleton.AccessControl

open Lib Versioning

/-- The marker of a disabled user. -/
def isMarked (policyData : Members Datum) : Bool :=
  policyData.get? "disabled" == some (.bool true)

section Marker

variable {policyData stored : Members Datum} {name : String} {value : Option Datum}

theorem isMarked_insert_of_ne (h : name ≠ "disabled") :
    isMarked (policyData.insert name value) = isMarked policyData := by
  simp only [isMarked, Members.get?, Finmap.lookup_insert_of_ne _ h.symm]

theorem isMarked_erase_of_ne (h : name ≠ "disabled") :
    isMarked (policyData.erase name) = isMarked policyData := by
  simp only [isMarked, Members.get?, Finmap.lookup_erase_ne h.symm]

/-- An edit keeps the marker that it is given. -/
theorem isMarked_editPolicyData :
    isMarked (editPolicyData stored policyData) = isMarked policyData := by
  have hne : keyFingerprintClaim ≠ "disabled" := by decide
  unfold editPolicyData
  split
  · exact isMarked_erase_of_ne hne
  · rw [isMarked_insert_of_ne hne, isMarked_erase_of_ne hne]

/-- An assignment keeps the marker that it has read. -/
theorem isMarked_point {role : RoleDefinition Datum} :
    isMarked (role.point policyData) = isMarked policyData := by
  have hne : rolePointerKey ≠ "disabled" := by decide
  unfold RoleDefinition.point
  split_ifs
  · exact isMarked_erase_of_ne hne
  · exact isMarked_insert_of_ne hne

end Marker

/-! ## The operations -/

namespace RoleRequest

/-- `set_user_disabled(user, False)` -/
def enables (user : String) : RoleRequest → Bool
  | setUserDisabled user' disabled => user' == user && !disabled
  | _ => false

def assigns (user : String) : RoleRequest → Bool
  | applyRole user' _ => user' == user
  | _ => false

/-- An assignment of a role, or a change of the marker. -/
def assignsOrMarks : RoleRequest → Bool
  | applyRole .. | setUserDisabled .. => true
  | _ => false

def removes : RoleRequest → Bool
  | removePolicy .. => true
  | _ => false

end RoleRequest

namespace RoleTask

def enables (user : String) : RoleTask → Bool
  | calling request => request.enables user
  | marking user' policyData => user' == user && !isMarked policyData
  | _ => false

def assignsOrMarks : RoleTask → Bool
  | calling request => request.assignsOrMarks
  | assigning .. | writing .. | inserting .. | marking .. => true
  | recording .. | founding .. | saving .. => true
  | _ => false

def removes : RoleTask → Bool
  | calling request => request.removes
  | removing .. => true
  | _ => false

end RoleTask

namespace RoleWorld

/-- Steps of assignments and of changes of the marker, of which none enables the user. -/
def neverEnabling (user : String) (s : RoleWorld) : RoleLabel → Bool
  | .call _ request => request.assignsOrMarks && !request.enables user
  | .step n => (s.tasks.lookup n).all fun task => task.assignsOrMarks && !task.enables user
  | .fail _ => true

/-- Steps of assignments, changes of the marker and removals, with no new assignment to the user. -/
def neverAssigning (user : String) (s : RoleWorld) : RoleLabel → Bool
  | .call _ request => (request.assignsOrMarks || request.removes) && !request.assigns user
  | .step n => (s.tasks.lookup n).all fun task => task.assignsOrMarks || task.removes
  | .fail _ => true

/-- The stored policy data has the marker. -/
def Disabled (s : RoleWorld) (user : String) : Prop :=
  ∃ body, s.policies.lookup user = some body ∧ isMarked body.policyData = true

/-- `apply_role` finds the role, and may assign it. -/
def assignable (s : RoleWorld) (roleName : String) : Bool :=
  ((s.roles roleName).bind fun role => role.doc.activeBody).any fun role =>
    (role.definition roleName).assignable

/-- An assignment to the user on its way to its write. -/
def assigns (s : RoleWorld) (user : String) : RoleTask → Bool
  | .calling (.applyRole user' roleName) => user' == user && s.assignable roleName
  | .assigning user' _ _ | .writing user' _ _ _ | .inserting user' _ _ _ => user' == user
  | _ => false

/-- From when the call has returned the user is disabled, as long as nobody enables it. -/
def StaysDisabled (grantable : String → Bool) (s : RoleWorld) (n : ℕ) (user : String) : Prop :=
  let S := (roleMutations grantable).when fun s a => s.neverEnabling user a = true
  ∀ returned s', S.Run s returned → returned.tasks.lookup n = none → S.Run returned s' →
    s'.Disabled user

/-- The policy stays removed, as long as no role is assigned anew. -/
def StaysRemoved (grantable : String → Bool) (s : RoleWorld) (user : String) : Prop :=
  ∀ s', ((roleMutations grantable).when fun s a => s.neverAssigning user a = true).Run s s' →
    s'.policies.lookup user = none

/-! ## What the steps change -/

section Fields

variable (s : RoleWorld) (n : ℕ) (task : RoleTask) (user roleName : String)
  (body : PolicyBody Datum) (doc : Document (PolicyBody Datum)) (role : RoleBody)

@[simp] theorem policies_assign : (s.assign user roleName).policies = s.policies := by
  unfold assign
  split
  · rfl
  · rfl

@[simp] theorem policies_applied :
    (s.applied n user roleName role body).policies = s.policies.insert user body := by
  unfold applied
  split_ifs
  · rfl
  · exact policies_assign _ _ _

@[simp] theorem tasks_assign : (s.assign user roleName).tasks = s.tasks := by
  unfold assign
  split
  · rfl
  · rfl

@[simp] theorem tasks_applied :
    (s.applied n user roleName role body).tasks =
      s.tasks.insert n (.recording user body) := by
  unfold applied
  split_ifs
  · rfl
  · exact tasks_assign _ _ _

@[simp] theorem roles_assign : (s.assign user roleName).roles = s.roles := by
  unfold assign
  split
  · rfl
  · rfl

@[simp] theorem roles_applied : (s.applied n user roleName role body).roles = s.roles := by
  unfold applied
  split_ifs
  · rfl
  · exact roles_assign _ _ _

end Fields

variable {s : RoleWorld} {n : ℕ} {user : String}

/-- What holds of every task holds after a task has gone on, if it holds of that. -/
theorem forall_insert {p : RoleTask → Prop} {tasks : Finmap fun _ : ℕ => RoleTask}
    (h : ∀ m task, tasks.lookup m = some task → p task) {task : RoleTask} (htask : p task) :
    ∀ m task', (tasks.insert n task).lookup m = some task' → p task' := by
  intro m task' hm
  by_cases hmn : m = n
  · subst hmn
    rw [Finmap.lookup_insert] at hm
    exact Option.some.inj hm ▸ htask
  · rw [Finmap.lookup_insert_of_ne _ hmn] at hm
    exact h m task' hm

theorem forall_erase {p : RoleTask → Prop} {tasks : Finmap fun _ : ℕ => RoleTask}
    (h : ∀ m task, tasks.lookup m = some task → p task) :
    ∀ m task', (tasks.erase n).lookup m = some task' → p task' := by
  intro m task' hm
  by_cases hmn : m = n
  · subst hmn
    rw [Finmap.lookup_erase] at hm
    cases hm
  · rw [Finmap.lookup_erase_ne hmn] at hm
    exact h m task' hm

end RoleWorld

/-! ## A disabled user -/

/-- What an assignment to the user writes has the marker. -/
def RoleTask.writesMarker (user : String) : RoleTask → Bool
  | writing user' _ _ policyData => user' != user || isMarked policyData
  | _ => true

namespace RoleWorld

/-- The user is disabled, and no assignment is about to write the marker away. -/
structure KeepsMarker (s : RoleWorld) (user : String) : Prop where
  disabled : s.Disabled user
  written : ∀ m task, s.tasks.lookup m = some task → task.writesMarker user = true

namespace KeepsMarker

variable {s : RoleWorld} {n : ℕ} {user user' : String} {grantable : String → Bool}

theorem goOn (h : s.KeepsMarker user) {task : RoleTask} (htask : task.writesMarker user = true) :
    (s.goOn n task).KeepsMarker user :=
  ⟨h.disabled, forall_insert h.written htask⟩

theorem stop (h : s.KeepsMarker user) : (s.stop n).KeepsMarker user :=
  ⟨h.disabled, forall_erase h.written⟩

theorem setPolicy (h : s.KeepsMarker user) {body : PolicyBody Datum}
    (hbody : user' = user → isMarked body.policyData = true) :
    (s.setPolicy user' body).KeepsMarker user := by
  refine ⟨?_, h.written⟩
  by_cases huser : user' = user
  · subst huser
    exact ⟨body, Finmap.lookup_insert _, hbody rfl⟩
  · obtain ⟨stored, hstored, hmarked⟩ := h.disabled
    exact ⟨stored, (Finmap.lookup_insert_of_ne _ (Ne.symm huser)).trans hstored, hmarked⟩

theorem applied (h : s.KeepsMarker user) {role : RoleBody} {roleName : String}
    {body : PolicyBody Datum} (hbody : user' = user → isMarked body.policyData = true) :
    (s.applied n user' roleName role body).KeepsMarker user := by
  have hrecording : RoleTask.writesMarker user (.recording user' body) = true := rfl
  have hset := (h.setPolicy hbody).goOn (n := n) hrecording
  obtain ⟨hdisabled, hwritten⟩ := hset
  refine ⟨?_, ?_⟩
  · unfold Disabled
    rw [policies_applied]
    exact hdisabled
  · rw [tasks_applied]
    exact hwritten

theorem stepTask (h : s.KeepsMarker user) {task : RoleTask}
    (htask : task.writesMarker user = true)
    (hops : (task.assignsOrMarks && !task.enables user) = true) :
    (s.stepTask grantable n task).KeepsMarker user := by
  obtain ⟨hops, henables⟩ := Bool.and_eq_true_iff.mp hops
  cases task with
  | calling request =>
    cases request with
    | applyRole user' roleName =>
      simp only [RoleWorld.stepTask, begin]
      split
      · exact h.stop
      · split_ifs
        · exact h.goOn rfl
        · exact h.stop
    | setUserDisabled user' disabled =>
      simp only [RoleWorld.stepTask, begin]
      split
      · exact h.stop
      · exact h.goOn rfl
    | _ => cases hops
  | assigning user' roleName role =>
    refine h.goOn ?_
    by_cases huser : user' = user
    · -- It reads the marker.
      subst huser
      obtain ⟨stored, hstored, hmarked⟩ := h.disabled
      simp [RoleTask.writesMarker, hstored, isMarked_point, hmarked]
    · simp [RoleTask.writesMarker, huser]
  | writing user' roleName role policyData =>
    simp only [RoleWorld.stepTask]
    split
    · exact h.goOn rfl
    · refine h.applied fun huser => ?_
      have hmarked : isMarked policyData = true := by
        simpa [RoleTask.writesMarker, huser] using htask
      exact isMarked_editPolicyData.trans hmarked
  | inserting user' roleName role policyData =>
    simp only [RoleWorld.stepTask]
    split
    · exact h.stop
    next hnone =>
      refine h.applied fun huser => ?_
      obtain ⟨stored, hstored, -⟩ := h.disabled
      rw [huser, hstored] at hnone
      cases hnone
  | marking user' policyData =>
    simp only [RoleWorld.stepTask]
    split
    · exact h.stop
    · refine (h.setPolicy fun huser => ?_).goOn rfl
      have hmarked : isMarked policyData = true := by
        simpa [RoleTask.enables, huser] using henables
      exact isMarked_editPolicyData.trans hmarked
  | recording user' body =>
    simp only [RoleWorld.stepTask]
    split
    · exact h.goOn rfl
    · split_ifs
      · exact h.stop
      · exact h.goOn rfl
  | founding user' body =>
    simp only [RoleWorld.stepTask]
    split
    · exact h.stop
    · exact KeepsMarker.stop ⟨h.disabled, h.written⟩
  | saving user' body =>
    simp only [RoleWorld.stepTask]
    split
    · exact h.stop
    · exact KeepsMarker.stop ⟨h.disabled, h.written⟩
  | _ => cases hops

theorem step (h : s.KeepsMarker user) {a : RoleLabel} {s' : RoleWorld}
    (ha : s.neverEnabling user a = true) (hstep : s.next grantable a = some s') :
    s'.KeepsMarker user := by
  cases a with
  | call m request =>
    simp only [next] at hstep
    split at hstep
    · exact Option.some.inj hstep ▸ h.goOn rfl
    · cases hstep
  | step m =>
    obtain ⟨task, htask, rfl⟩ := Option.map_eq_some_iff.mp hstep
    exact h.stepTask (h.written m task htask) (by simpa [neverEnabling, htask] using ha)
  | fail m => exact Option.some.inj hstep ▸ h.stop

end KeepsMarker

/-! ## A removed policy -/

/-- The policy is gone, and no assignment is on its way to bring it back. -/
structure KeepsRemoved (s : RoleWorld) (user : String) : Prop where
  removed : s.policies.lookup user = none
  unassigned : ∀ m task, s.tasks.lookup m = some task → s.assigns user task = false

namespace KeepsRemoved

variable {s : RoleWorld} {n : ℕ} {user user' : String} {grantable : String → Bool}

theorem goOn (h : s.KeepsRemoved user) {task : RoleTask} (htask : s.assigns user task = false) :
    (s.goOn n task).KeepsRemoved user :=
  ⟨h.removed, forall_insert h.unassigned htask⟩

theorem stop (h : s.KeepsRemoved user) : (s.stop n).KeepsRemoved user :=
  ⟨h.removed, forall_erase h.unassigned⟩

theorem setPolicy (h : s.KeepsRemoved user) {body : PolicyBody Datum} (hne : user' ≠ user) :
    (s.setPolicy user' body).KeepsRemoved user :=
  ⟨(Finmap.lookup_insert_of_ne _ hne.symm).trans h.removed, h.unassigned⟩

theorem erasePolicy (h : s.KeepsRemoved user) :
    ({ s with policies := s.policies.erase user' } : RoleWorld).KeepsRemoved user := by
  refine ⟨?_, h.unassigned⟩
  by_cases huser : user = user'
  · rw [huser]
    exact Finmap.lookup_erase _ _
  · exact (Finmap.lookup_erase_ne huser).trans h.removed

theorem applied (h : s.KeepsRemoved user) {role : RoleBody} {roleName : String}
    {body : PolicyBody Datum} (hne : user' ≠ user) :
    (s.applied n user' roleName role body).KeepsRemoved user := by
  have hassigns : (s.applied n user' roleName role body).assigns user = s.assigns user := by
    funext task
    unfold assigns assignable
    rw [roles_applied]
  refine ⟨?_, ?_⟩
  · rw [policies_applied]
    exact (Finmap.lookup_insert_of_ne _ hne.symm).trans h.removed
  · rw [hassigns, tasks_applied]
    exact forall_insert h.unassigned rfl

theorem stepTask (h : s.KeepsRemoved user) {task : RoleTask}
    (htask : s.assigns user task = false) (hops : (task.assignsOrMarks || task.removes) = true) :
    (s.stepTask grantable n task).KeepsRemoved user := by
  cases task with
  | calling request =>
    cases request with
    | applyRole user' roleName =>
      simp only [RoleWorld.stepTask, begin]
      split
      · exact h.stop
      next role hrole =>
        split_ifs with hassignable
        · refine h.goOn ?_
          simp only [assigns, assignable, hrole, Option.any_some, hassignable, Bool.and_true]
            at htask
          exact htask
        · exact h.stop
    | setUserDisabled user' disabled =>
      simp only [RoleWorld.stepTask, begin]
      split
      · exact h.stop
      · exact h.goOn rfl
    | removePolicy user' owned => exact h.goOn rfl
    | _ => cases hops
  | assigning user' roleName role => exact h.goOn htask
  | writing user' roleName role policyData =>
    simp only [RoleWorld.stepTask]
    split
    · exact h.goOn htask
    · exact h.applied (by simpa [assigns] using htask)
  | inserting user' roleName role policyData =>
    simp only [RoleWorld.stepTask]
    split
    · exact h.stop
    · exact h.applied (by simpa [assigns] using htask)
  | marking user' policyData =>
    simp only [RoleWorld.stepTask]
    split
    · exact h.stop
    next body hbody =>
      refine (h.setPolicy fun huser => ?_).goOn rfl
      rw [huser, h.removed] at hbody
      cases hbody
  | removing user' owned =>
    cases owned with
    | nil => exact h.erasePolicy.stop
    | cons key owned => exact h.erasePolicy.goOn rfl
  | recording user' body =>
    simp only [RoleWorld.stepTask]
    split
    · exact h.goOn rfl
    · split_ifs
      · exact h.stop
      · exact h.goOn rfl
  | founding user' body =>
    simp only [RoleWorld.stepTask]
    split
    · exact h.stop
    · exact KeepsRemoved.stop ⟨h.removed, h.unassigned⟩
  | saving user' body =>
    simp only [RoleWorld.stepTask]
    split
    · exact h.stop
    · exact KeepsRemoved.stop ⟨h.removed, h.unassigned⟩
  | _ => cases hops

theorem step (h : s.KeepsRemoved user) {a : RoleLabel} {s' : RoleWorld}
    (ha : s.neverAssigning user a = true) (hstep : s.next grantable a = some s') :
    s'.KeepsRemoved user := by
  cases a with
  | call m request =>
    simp only [next] at hstep
    split at hstep
    · refine Option.some.inj hstep ▸ h.goOn ?_
      have hassigns : request.assigns user = false := by
        have hboth := Bool.and_eq_true_iff.mp ha
        simpa using hboth.2
      cases request with
      | applyRole user' roleName =>
        have hne : (user' == user) = false := hassigns
        simp [assigns, hne]
      | _ => rfl
    · cases hstep
  | step m =>
    obtain ⟨task, htask, rfl⟩ := Option.map_eq_some_iff.mp hstep
    exact h.stepTask (h.unassigned m task htask) (by simpa [neverAssigning, htask] using ha)
  | fail m => exact Option.some.inj hstep ▸ h.stop

end KeepsRemoved

/-! ## The assignments that undo -/

variable (grantable : String → Bool) {s : RoleWorld} {n m : ℕ} {user roleName : String}

/-- A call that has written goes on to its return, and changes nothing but the history. -/
theorem exists_returned {body : PolicyBody Datum}
    (htask : s.tasks.lookup n = some (.recording user body)) :
    ∃ s', ((roleMutations grantable).when fun s a => s.neverEnabling user a = true).Run s s' ∧
      s'.tasks = s.tasks.erase n ∧ s'.policies = s.policies := by
  have hstep : ∀ (s : RoleWorld) task, s.tasks.lookup n = some task →
      (task.assignsOrMarks && !task.enables user) = true →
      ((roleMutations grantable).when fun s a => s.neverEnabling user a = true).step s (.step n)
        (s.stepTask grantable n task) := by
    intro s task hlookup hops
    exact ⟨by simpa [neverEnabling, hlookup] using hops, by simp [roleMutations, next, hlookup]⟩
  have herase : ∀ task, (s.tasks.insert n task).erase n = s.tasks.erase n := by
    intro task
    refine Finmap.ext_lookup fun m => ?_
    by_cases hm : m = n
    · rw [hm, Finmap.lookup_erase, Finmap.lookup_erase]
    · rw [Finmap.lookup_erase_ne hm, Finmap.lookup_erase_ne hm, Finmap.lookup_insert_of_ne _ hm]
  have hfirst := hstep s _ htask rfl
  cases hactive : (s.history user).bind Document.activeBody with
  | none =>
    have hnext : s.stepTask grantable n (.recording user body) =
        s.goOn n (.founding user body) := by simp [RoleWorld.stepTask, hactive]
    rw [hnext] at hfirst
    have hlast := hstep (s.goOn n (.founding user body)) _ (Finmap.lookup_insert _) rfl
    refine ⟨_, (System.Run.single hfirst).tail hlast, ?_⟩
    simp only [RoleWorld.stepTask]
    split
    · exact ⟨herase _, rfl⟩
    · exact ⟨herase _, rfl⟩
  | some active =>
    by_cases hsame : active = body
    · have hnext : s.stepTask grantable n (.recording user body) = s.stop n := by
        simp [RoleWorld.stepTask, hactive, hsame]
      rw [hnext] at hfirst
      exact ⟨_, .single hfirst, rfl, rfl⟩
    · have hnext : s.stepTask grantable n (.recording user body) =
          s.goOn n (.saving user body) := by simp [RoleWorld.stepTask, hactive, hsame]
      rw [hnext] at hfirst
      have hlast := hstep (s.goOn n (.saving user body)) _ (Finmap.lookup_insert _) rfl
      refine ⟨_, (System.Run.single hfirst).tail hlast, ?_⟩
      simp only [RoleWorld.stepTask]
      split
      · exact ⟨herase _, rfl⟩
      · exact ⟨herase _, rfl⟩

/-- An assignment that has read no marker writes it away. -/
theorem not_disabled_of_writing {role : RoleBody} {policyData : Members Datum}
    (hdisabled : s.Disabled user)
    (htask : s.tasks.lookup m = some (.writing user roleName role policyData))
    (hmarked : isMarked policyData = false) :
    ∃ s', ((roleMutations grantable).when fun s a => s.neverEnabling user a = true).Run s s' ∧
      ¬ s'.Disabled user := by
  obtain ⟨stored, hstored, -⟩ := hdisabled
  have hallowed : s.neverEnabling user (.step m) = true := by
    simp [neverEnabling, htask, RoleTask.assignsOrMarks, RoleTask.enables]
  have hstep : s.next grantable (.step m) = some (s.applied m user roleName role
      (updatePolicyFields ((role.definition roleName).updates policyData) stored)) := by
    simp [next, htask, RoleWorld.stepTask, hstored]
  refine ⟨_, .single ⟨hallowed, hstep⟩, ?_⟩
  rintro ⟨body, hbody, hbodyMarked⟩
  rw [policies_applied, Finmap.lookup_insert] at hbody
  obtain rfl := Option.some.inj hbody
  have hdata : isMarked policyData = true := isMarked_editPolicyData.symm.trans hbodyMarked
  rw [hmarked] at hdata
  cases hdata

/-- An assignment on its way writes a policy for a user that has none. -/
theorem exists_reassigned {task : RoleTask} (hremoved : s.policies.lookup user = none)
    (htask : s.tasks.lookup m = some task) (hassigns : s.assigns user task = true) :
    ∃ s', ((roleMutations grantable).when fun s a => s.neverAssigning user a = true).Run s s' ∧
      s'.policies.lookup user ≠ none := by
  have hstep : ∀ (s : RoleWorld) task, s.tasks.lookup m = some task →
      task.assignsOrMarks = true →
      ((roleMutations grantable).when fun s a => s.neverAssigning user a = true).step s (.step m)
        (s.stepTask grantable m task) := by
    intro s task hlookup hops
    exact ⟨by simp [neverAssigning, hlookup, hops], by simp [roleMutations, next, hlookup]⟩
  have hinserting : ∀ (s : RoleWorld) roleName role policyData,
      s.policies.lookup user = none →
      s.tasks.lookup m = some (.inserting user roleName role policyData) →
      ∃ s', ((roleMutations grantable).when fun s a => s.neverAssigning user a = true).Run s s' ∧
        s'.policies.lookup user ≠ none := by
    intro s roleName role policyData hnone hlookup
    refine ⟨_, .single (hstep s _ hlookup rfl), ?_⟩
    simp [RoleWorld.stepTask, hnone]
  have hwriting : ∀ (s : RoleWorld) roleName role policyData,
      s.policies.lookup user = none →
      s.tasks.lookup m = some (.writing user roleName role policyData) →
      ∃ s', ((roleMutations grantable).when fun s a => s.neverAssigning user a = true).Run s s' ∧
        s'.policies.lookup user ≠ none := by
    intro s roleName role policyData hnone hlookup
    have hfirst := hstep s _ hlookup rfl
    simp only [RoleWorld.stepTask, hnone] at hfirst
    obtain ⟨s', hrun, hback⟩ := hinserting (s.goOn m (.inserting user roleName role policyData))
      roleName role policyData hnone (Finmap.lookup_insert _)
    exact ⟨s', (System.Run.single hfirst).trans hrun, hback⟩
  have hassigning : ∀ (s : RoleWorld) roleName role,
      s.policies.lookup user = none → s.tasks.lookup m = some (.assigning user roleName role) →
      ∃ s', ((roleMutations grantable).when fun s a => s.neverAssigning user a = true).Run s s' ∧
        s'.policies.lookup user ≠ none := by
    intro s roleName role hnone hlookup
    have hfirst := hstep s _ hlookup rfl
    obtain ⟨s', hrun, hback⟩ := hwriting (s.stepTask grantable m (.assigning user roleName role))
      _ _ _ hnone (Finmap.lookup_insert _)
    exact ⟨s', (System.Run.single hfirst).trans hrun, hback⟩
  cases task with
  | inserting user' roleName role policyData =>
    obtain rfl : user' = user := by simpa [assigns] using hassigns
    exact hinserting s roleName role policyData hremoved htask
  | writing user' roleName role policyData =>
    obtain rfl : user' = user := by simpa [assigns] using hassigns
    exact hwriting s roleName role policyData hremoved htask
  | assigning user' roleName role =>
    obtain rfl : user' = user := by simpa [assigns] using hassigns
    exact hassigning s roleName role hremoved htask
  | calling request =>
    cases request with
    | applyRole user' roleName =>
      obtain ⟨rfl, hassignable⟩ : user' = user ∧ s.assignable roleName = true := by
        simpa [assigns] using hassigns
      obtain ⟨role, hrole, hrole'⟩ : ∃ role, ((s.roles roleName).bind fun role =>
          role.doc.activeBody) = some role ∧ (role.definition roleName).assignable = true := by
        unfold assignable at hassignable
        cases hrole : (s.roles roleName).bind fun role => role.doc.activeBody with
        | none => simp [hrole] at hassignable
        | some role => exact ⟨role, rfl, by simpa [hrole] using hassignable⟩
      have hfirst := hstep s _ htask rfl
      simp only [RoleWorld.stepTask, begin, hrole, hrole', if_true] at hfirst
      obtain ⟨s', hrun, hback⟩ := hassigning (s.goOn m (.assigning user' roleName role)) roleName
        role hremoved (Finmap.lookup_insert _)
      exact ⟨s', (System.Run.single hfirst).trans hrun, hback⟩
    | _ => cases hassigns
  | _ => cases hassigns

end RoleWorld

/-! ## Both -/

open RoleWorld

variable {grantable : String → Bool} {s s' : RoleWorld} {n : ℕ} {user : String}

theorem staysDisabled_iff {policyData : Members Datum}
    (htask : s.tasks.lookup n = some (.marking user policyData))
    (hmarked : isMarked policyData = true) (hthere : s.policies.lookup user ≠ none)
    (hstep : s.next grantable (.step n) = some s') :
    s'.StaysDisabled grantable n user ↔ ∀ m roleName role policyData,
      s.tasks.lookup m = some (.writing user roleName role policyData) →
        isMarked policyData = true := by
  obtain ⟨stored, hstored⟩ := Option.ne_none_iff_exists'.mp hthere
  simp only [next, htask, Option.map_some, stepTask, hstored, Option.some.injEq] at hstep
  subst hstep
  have hdata : isMarked (updatePolicyFields { policyData := some (some policyData) }
      stored).policyData = true := isMarked_editPolicyData.trans hmarked
  have hdisabled : ((s.setPolicy user (updatePolicyFields { policyData := some (some policyData) }
      stored)).goOn n (.recording user (updatePolicyFields { policyData := some (some policyData) }
      stored))).Disabled user := ⟨_, Finmap.lookup_insert _, hdata⟩
  constructor
  · intro hstays m roleName role read hwriting
    by_contra hread
    obtain ⟨returned, hrun, htasks, hpolicies⟩ := exists_returned grantable
      (s := (s.setPolicy user _).goOn n (.recording user _)) (Finmap.lookup_insert _)
    have hne : m ≠ n := by
      rintro rfl
      rw [htask] at hwriting
      cases hwriting
    have hwriting' : returned.tasks.lookup m = some (.writing user roleName role read) := by
      rw [htasks, Finmap.lookup_erase_ne hne]
      exact (Finmap.lookup_insert_of_ne _ hne).trans hwriting
    have hdisabled' : returned.Disabled user := by
      unfold Disabled
      rw [hpolicies]
      exact hdisabled
    obtain ⟨s', hrun', hlost⟩ := not_disabled_of_writing grantable hdisabled'
      hwriting' (by simpa using hread)
    exact hlost (hstays returned s' hrun (by rw [htasks, Finmap.lookup_erase]) hrun')
  · intro hread returned s' hrun _ hrun'
    refine ((hrun.trans hrun').invariant
      (p := fun s : RoleWorld => s.KeepsMarker user) ?_ ?_).disabled
    · rintro s a s' hkeeps ⟨ha, hstep⟩
      exact hkeeps.step ha hstep
    · refine ⟨hdisabled, forall_insert (fun m task hm => ?_) rfl⟩
      cases task with
      | writing user' roleName role read =>
        by_cases huser : user' = user
        · subst huser
          simp [RoleTask.writesMarker, hread m roleName role read hm]
        · simp [RoleTask.writesMarker, huser]
      | _ => rfl

theorem staysRemoved_iff (htask : s.tasks.lookup n = some (.removing user []))
    (hstep : s.next grantable (.step n) = some s') :
    s'.StaysRemoved grantable user ↔
      ∀ m task, s.tasks.lookup m = some task → s.assigns user task = false := by
  simp only [next, htask, Option.map_some, stepTask, Option.some.injEq] at hstep
  subst hstep
  have hremoved : (s.policies.erase user).lookup user = none := Finmap.lookup_erase _ _
  constructor
  · intro hstays m task hm
    by_contra hassigns
    have hne : m ≠ n := by
      rintro rfl
      rw [htask] at hm
      obtain rfl := Option.some.inj hm
      exact hassigns rfl
    obtain ⟨s', hrun, hback⟩ := exists_reassigned grantable (m := m)
      (s := ({ s with policies := s.policies.erase user } : RoleWorld).stop n) hremoved
      ((Finmap.lookup_erase_ne hne).trans hm) (Bool.eq_true_of_not_eq_false hassigns)
    exact hback (hstays s' hrun)
  · intro hassigns s' hrun
    refine (hrun.invariant (p := fun s : RoleWorld => s.KeepsRemoved user) ?_ ?_).removed
    · rintro s a s' hkeeps ⟨ha, hstep⟩
      exact hkeeps.step ha hstep
    · exact ⟨hremoved, forall_erase hassigns⟩

/-- A user stays disabled just when no assignment has read its policy data without the marker and is
yet to write when the marker is written; a policy stays removed just when no assignment is on its
way when it is removed. -/
theorem disabled_and_removed_iff (grantable : String → Bool) :
    (∀ (s s' : RoleWorld) n user policyData, s.tasks.lookup n = some (.marking user policyData) →
      isMarked policyData = true → s.policies.lookup user ≠ none →
      s.next grantable (.step n) = some s' →
      (s'.StaysDisabled grantable n user ↔ ∀ m roleName role read,
        s.tasks.lookup m = some (.writing user roleName role read) → isMarked read = true)) ∧
    ∀ (s s' : RoleWorld) n user, s.tasks.lookup n = some (.removing user []) →
      s.next grantable (.step n) = some s' →
      (s'.StaysRemoved grantable user ↔
        ∀ m task, s.tasks.lookup m = some task → s.assigns user task = false) :=
  ⟨fun _ _ _ _ _ htask hmarked hthere hstep => staysDisabled_iff htask hmarked hthere hstep,
    fun _ _ _ _ htask hstep => staysRemoved_iff htask hstep⟩

/-! ## Two operators at once -/

/-- A user has a role, and an assignment of it is between its read and its write. -/
def assigningAgain : List RoleLabel :=
  [.call 0 (.createRole "r" "" "editor" []), .step 0, .call 0 (.applyRole "u" "r")] ++
    List.replicate 6 (.step 0) ++ .call 1 (.applyRole "u" "r") :: List.replicate 2 (.step 1)

/-- The other task of the world is an assignment to the user that has read no marker. -/
def writesUnmarked (s : RoleWorld) : Bool :=
  match s.tasks.lookup 1 with
  | some (.writing user _ _ policyData) => user == "u" && !isMarked policyData
  | _ => false

theorem exists_of_writesUnmarked {s : RoleWorld} (h : writesUnmarked s = true) :
    ∃ roleName role policyData, s.tasks.lookup 1 = some (.writing "u" roleName role policyData) ∧
      isMarked policyData = false := by
  unfold writesUnmarked at h
  split at h
  next user roleName role policyData htask =>
    obtain ⟨rfl, hunmarked⟩ : user = "u" ∧ isMarked policyData = false := by simpa using h
    exact ⟨roleName, role, policyData, htask, hunmarked⟩
  next => cases h

/-- The first task disables the user, whose data has the marker. -/
def marksAgain (s : RoleWorld) : Bool :=
  match s.tasks.lookup 0 with
  | some (.marking user policyData) => user == "u" && isMarked policyData
  | _ => false

/-- The first task removes the user, who owns nothing. -/
def removesUser (s : RoleWorld) : Bool :=
  match s.tasks.lookup 0 with
  | some (.removing user []) => user == "u"
  | _ => false

/-- An assignment enables a user that has been disabled, and another brings back a policy that has
been removed. -/
theorem assignment_undoes :
    (∃ s s' policyData, (roleMutations fun _ => true).Reachable s ∧
      s.tasks.lookup 0 = some (.marking "u" policyData) ∧ isMarked policyData = true ∧
      s.policies.lookup "u" ≠ none ∧ s.next (fun _ => true) (.step 0) = some s' ∧
      ¬ s'.StaysDisabled (fun _ => true) 0 "u") ∧
    ∃ s s', (roleMutations fun _ => true).Reachable s ∧
      s.tasks.lookup 0 = some (.removing "u" []) ∧ s.policies.lookup "u" ≠ none ∧
      s.next (fun _ => true) (.step 0) = some s' ∧
      ¬ s'.StaysRemoved (fun _ => true) "u" := by
  constructor
  · obtain ⟨s, hs, hp⟩ := System.Reachable.of_foldlM (S := roleMutations fun _ => true)
      (f := fun s a => s.next (fun _ => true) a) (s := noRoles)
      (p := fun s => writesUnmarked s && (s.policies.lookup "u").isSome && marksAgain s)
      (l := assigningAgain ++ [.call 0 (.setUserDisabled "u" true), .step 0])
      (fun s a s' h => h) noRoles_first (by decide +kernel)
    simp only [Bool.and_eq_true] at hp
    obtain ⟨⟨hwrites, hpolicy⟩, hmarking⟩ := hp
    unfold marksAgain at hmarking
    split at hmarking
    next user policyData htask =>
      obtain ⟨rfl, hmarked⟩ : user = "u" ∧ isMarked policyData = true := by simpa using hmarking
      have hthere : s.policies.lookup "u" ≠ none := Option.isSome_iff_ne_none.mp hpolicy
      obtain ⟨roleName, role, read, hwriting, hread⟩ := exists_of_writesUnmarked hwrites
      have hstep : s.next (fun _ => true) (.step 0) =
          some (s.stepTask (fun _ => true) 0 (.marking "u" policyData)) := by
        rw [RoleWorld.next, htask, Option.map_some]
      refine ⟨s, _, policyData, hs, htask, hmarked, hthere, hstep, fun hstays => ?_⟩
      have hall := (staysDisabled_iff htask hmarked hthere hstep).mp hstays 1 roleName role read
        hwriting
      rw [hread] at hall
      cases hall
    next => cases hmarking
  · obtain ⟨s, hs, hp⟩ := System.Reachable.of_foldlM (S := roleMutations fun _ => true)
      (f := fun s a => s.next (fun _ => true) a) (s := noRoles)
      (p := fun s => writesUnmarked s && (s.policies.lookup "u").isSome && removesUser s)
      (l := assigningAgain ++ [.call 0 (.removePolicy "u" []), .step 0])
      (fun s a s' h => h) noRoles_first (by decide +kernel)
    simp only [Bool.and_eq_true] at hp
    obtain ⟨⟨hwrites, hpolicy⟩, hremoving⟩ := hp
    unfold removesUser at hremoving
    split at hremoving
    next user htask =>
      obtain rfl : user = "u" := by simpa using hremoving
      have hthere : s.policies.lookup "u" ≠ none := Option.isSome_iff_ne_none.mp hpolicy
      obtain ⟨roleName, role, read, hwriting, -⟩ := exists_of_writesUnmarked hwrites
      have hstep : s.next (fun _ => true) (.step 0) =
          some (s.stepTask (fun _ => true) 0 (.removing "u" [])) := by
        rw [RoleWorld.next, htask, Option.map_some]
      refine ⟨s, _, hs, htask, hthere, hstep, fun hstays => ?_⟩
      have hall := (staysRemoved_iff htask hstep).mp hstays 1 _ hwriting
      simp [RoleWorld.assigns] at hall
    next => cases hremoving

end TaiSkeleton.AccessControl
