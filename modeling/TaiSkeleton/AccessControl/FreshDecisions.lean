import TaiSkeleton.AccessControl.PolicyVersions

/-!
# No finished mutation is overlooked

A decision that reads the policy version after a mutation has returned takes every row from after
the mutation's commit. The repetition of a revoke that has failed counts, as long as it finds either
the identity record or the version incremented since.
-/

namespace TaiSkeleton.AccessControl

open Lib

variable {ν : Type} {s s' : PolicyDeployment ν} {i : ℕ}

/-- A revoke that finds no identity record finds the version incremented since the revoke of that
user that had failed. -/
def PolicyDeployment.incremented (s : PolicyDeployment ν) : PolicyStep ν → Bool
  | .step i _ =>
    match s.calls i with
    | some (.absent _ owes) => owes ≤ s.source.covered
    | _ => true
  | _ => true

namespace MutationCall

/-- A commit that the version may not have been incremented after. -/
def pending : MutationCall → ℕ
  | committed commit => commit
  | revoking _ owes | found _ owes | absent _ owes => owes
  | deleted _ owes commit => max owes commit
  | _ => 0

/-- A commit that it has been incremented after. -/
def settled : MutationCall → ℕ
  | bumped commit => commit
  | incremented _ owes commit | cleared _ owes commit | revoked _ owes commit => max owes commit
  | _ => 0

structure Sound (call : MutationCall) (source : Versioned PolicyRow ν) : Prop where
  pending : call.pending ≤ source.log.length
  settled : call.settled ≤ source.covered

end MutationCall

structure PolicyDeployment.Sound (s : PolicyDeployment ν) : Prop where
  cached : s.cached.Sound
  returned : s.returned ≤ s.source.covered
  failed : ∀ user, s.failed user ≤ s.source.log.length
  calls : ∀ i call, s.calls i = some call → call.Sound s.source

namespace PolicyDeployment.Sound

theorem goOn (h : s.Sound) {call : Option MutationCall}
    (hcall : ∀ c, call = some c → c.Sound s.source) : (s.goOn i call).Sound where
  cached := h.cached
  returned := h.returned
  failed := h.failed
  calls j c hc := by
    by_cases hj : j = i
    · subst hj
      simp only [PolicyDeployment.goOn, Function.update_self] at hc
      exact hcall c hc
    · simp only [PolicyDeployment.goOn, Function.update_of_ne hj] at hc
      exact h.calls j c hc

theorem pass (h : s.Sound) {call : MutationCall} (hcall : call.Sound s.source) :
    (s.goOn i (some call)).Sound := by
  refine h.goOn fun c hc => ?_
  obtain rfl := Option.some.inj hc
  exact hcall

/-- A commit or an increment. -/
theorem setSource (h : s.Sound) {source : Versioned PolicyRow ν} (hgrows : s.source.Grows source)
    (hsource : source.Sound) : (s.setSource source).Sound where
  cached := h.cached.grow hgrows hsource
  returned := h.returned.trans (hgrows.covered_le hsource)
  failed user := (h.failed user).trans hgrows.length_le
  calls j c hc := by
    have hsound := h.calls j c hc
    exact ⟨hsound.pending.trans hgrows.length_le,
      hsound.settled.trans (hgrows.covered_le hsource)⟩

theorem commit (h : s.Sound) (updates : List (PolicyRow × Option ν)) :
    (s.setSource (s.source.commit updates)).Sound :=
  h.setSource Versioned.grows_commit h.cached.source.commit

theorem bump (h : s.Sound) : (s.setSource s.source.bump).Sound :=
  h.setSource Versioned.grows_bump h.cached.source.bump

theorem finish (h : s.Sound) {commit : ℕ} (hcommit : commit ≤ s.source.covered) :
    (s.finish i commit).Sound := by
  have hidle : (s.goOn i none).Sound := h.goOn nofun
  exact ⟨hidle.cached, max_le h.returned hcommit, hidle.failed, hidle.calls⟩

theorem stepCall (h : s.Sound) {updates : List (PolicyRow × Option ν)} {call : MutationCall}
    (hcall : s.calls i = some call) (hok : s.incremented (.step i updates) = true) :
    (s.stepCall i updates call).Sound := by
  have hsound := h.calls i call hcall
  cases call with
  | mutating =>
    exact (h.commit updates).pass ⟨Versioned.length_commit.ge, Nat.zero_le _⟩
  | committed commit =>
    exact h.bump.pass ⟨Nat.zero_le _, hsound.pending.trans_eq Versioned.covered_bump.symm⟩
  | bumped commit => exact h.finish hsound.settled
  | revoking user owes =>
    simp only [PolicyDeployment.stepCall]
    split_ifs
    · exact h.pass ⟨hsound.pending, Nat.zero_le _⟩
    · exact h.pass ⟨hsound.pending, Nat.zero_le _⟩
  | found user owes =>
    simp only [PolicyDeployment.stepCall]
    have howes : owes ≤ s.source.log.length := hsound.pending
    split
    · exact h.pass ⟨max_le howes (Nat.zero_le _), Nat.zero_le _⟩
    · refine (h.commit _).pass ⟨max_le ?_ ?_, Nat.zero_le _⟩
      · exact howes.trans Versioned.grows_commit.length_le
      · exact Versioned.length_commit.ge
  | deleted user owes commit =>
    exact h.bump.pass ⟨Nat.zero_le _, hsound.pending.trans_eq Versioned.covered_bump.symm⟩
  | incremented user owes commit =>
    have hcleared : Sound { s with contexts := Function.update s.contexts user false } :=
      ⟨h.cached, h.returned, h.failed, h.calls⟩
    exact hcleared.pass ⟨Nat.zero_le _, hsound.settled⟩
  | cleared user owes commit =>
    have hgone : Sound { s with identities := Function.update s.identities user false } :=
      ⟨h.cached, h.returned, h.failed, h.calls⟩
    exact hgone.pass ⟨Nat.zero_le _, hsound.settled⟩
  | revoked user owes commit => exact h.finish hsound.settled
  | absent user owes =>
    refine h.finish ?_
    simpa only [PolicyDeployment.incremented, hcall, decide_eq_true_eq] using hok

theorem crashCall (h : s.Sound) {call : MutationCall} (hcall : s.calls i = some call) :
    (s.crashCall i call).Sound := by
  have hsound := h.calls i call hcall
  have hidle : (s.goOn i none).Sound := h.goOn nofun
  cases call with
  | deleted user owes commit =>
    refine ⟨hidle.cached, hidle.returned, fun user' => ?_, hidle.calls⟩
    by_cases huser : user' = user
    · subst huser
      simp only [PolicyDeployment.crashCall, Function.update_self]
      exact max_le (h.failed user') ((le_max_right _ _).trans hsound.pending)
    · simp only [PolicyDeployment.crashCall, Function.update_of_ne huser]
      exact h.failed user'
  | _ => exact hidle

theorem call (h : s.Sound) {first : MutationCall} (hfirst : first.Sound s.source)
    (hs' : s.call i first = some s') : s'.Sound := by
  unfold PolicyDeployment.call at hs'
  split at hs'
  · obtain rfl := Option.some.inj hs'
    exact h.pass hfirst
  · cases hs'

/-- A step of a decision. -/
theorem read (h : s.Sound) {step : ReadStep PolicyRow ℕ}
    (hfloor : ∀ d worker floor, step = .start d worker floor → floor ≤ s.source.covered)
    (hs' : (s.cached.read step).map (fun cached => { s with cached := cached }) = some s') :
    s'.Sound := by
  obtain ⟨cached, hcached, rfl⟩ := Option.map_eq_some_iff.mp hs'
  have hsource : cached.source = s.source := Cached.source_of_read hcached
  refine ⟨h.cached.read hfloor hcached, ?_, fun user => ?_, fun j c hc => ?_⟩
  · show s.returned ≤ cached.source.covered
    rw [hsource]
    exact h.returned
  · show s.failed user ≤ cached.source.log.length
    rw [hsource]
    exact h.failed user
  · show c.Sound cached.source
    rw [hsource]
    exact h.calls j c hc

theorem step (h : s.Sound) {a : PolicyStep ν} (hok : s.incremented a = true)
    (hs' : s.next a = some s') : s'.Sound := by
  cases a with
  | mutate i => exact h.call ⟨Nat.zero_le _, Nat.zero_le _⟩ hs'
  | revoke i user =>
    have hfirst : (MutationCall.revoking user (s.failed user)).Sound s.source :=
      ⟨h.failed user, Nat.zero_le _⟩
    exact h.call hfirst hs'
  | step i updates =>
    obtain ⟨call, hcall, rfl⟩ := Option.map_eq_some_iff.mp hs'
    exact h.stepCall hcall hok
  | crash i =>
    obtain ⟨call, hcall, rfl⟩ := Option.map_eq_some_iff.mp hs'
    exact h.crashCall hcall
  | provision user =>
    obtain rfl := Option.some.inj hs'
    exact ⟨h.cached, h.returned, h.failed, h.calls⟩
  | decide d worker =>
    refine h.read (fun d' worker' floor heq => ?_) hs'
    injection heq with _ _ hfloor
    rw [← hfloor]
    exact h.returned
  | read step =>
    have hnot : ∀ d worker floor, step ≠ .start d worker floor := by
      rintro d worker floor rfl
      cases hs'
    have hread : (s.cached.read step).map (fun cached => { s with cached := cached }) = some s' := by
      cases step with
      | start d worker floor => exact absurd rfl (hnot d worker floor)
      | _ => exact hs'
    exact h.read (fun d worker floor heq => absurd heq (hnot d worker floor)) hread

theorem of_first (h : s.First) : s.Sound where
  cached := .of_unread h.bumpAt h.fetches h.slots h.readers
  returned := h.returned.trans_le (Nat.zero_le _)
  failed user := (congrFun h.failed user).trans_le (Nat.zero_le _)
  calls i call hcall := by
    rw [h.calls] at hcall
    cases hcall

end PolicyDeployment.Sound

/-- A revoke that runs alone from its first step to its return. -/
def PolicyDeployment.revokeAlone (s : PolicyDeployment ν) (i : ℕ) (user : String) :
    Option (PolicyDeployment ν) :=
  (PolicyStep.revoke i user :: List.replicate 6 (.step i [])).foldlM PolicyDeployment.next s

/-- The revoke of a user whose identity record is there leaves nothing of the key, and a version
that has been incremented after all that has failed before. -/
structure PolicyDeployment.Revoked (s s' : PolicyDeployment ν) (user : String) : Prop where
  policy : s'.policy user = none
  context : s'.contexts user = false
  identity : s'.identities user = false
  returned : s.failed user ≤ s'.returned
  covered : s'.returned ≤ s'.source.covered

namespace PolicyDeployment

/-- The next step of a call that does not return `False`. -/
theorem Sound.stepAlone (h : s.Sound) {call : MutationCall} (hcall : s.calls i = some call)
    (hne : ∀ user owes, call ≠ .absent user owes) :
    s.next (.step i []) = some (s.stepCall i [] call) ∧ (s.stepCall i [] call).Sound := by
  refine ⟨by rw [next, hcall, Option.map_some], h.stepCall hcall ?_⟩
  simp only [incremented, hcall]
  split
  · next user owes heq => exact absurd (Option.some.inj heq) (hne user owes)
  · rfl

theorem goOn_calls {call : Option MutationCall} : (s.goOn i call).calls i = call :=
  Function.update_self ..

/-- The delete of the policy, as a step of a revoke. -/
theorem delete_alone {user : String} {owes : ℕ} : ∃ commit,
    (s.stepCall i [] (.found user owes)).calls i = some (.deleted user owes commit) ∧
      (s.stepCall i [] (.found user owes)).policy user = none := by
  simp only [stepCall]
  split
  · next hnone => exact ⟨0, goOn_calls, hnone⟩
  · refine ⟨_, goOn_calls, ?_⟩
    show (s.source.commit [(.policy user, none)]).rowAt
      (s.source.commit [(.policy user, none)]).log.length (.policy user) = none
    rw [Versioned.rowAt_commit]
    exact Function.update_self ..

theorem Sound.revoked_alone {user : String} (h : s.Sound) (hidle : s.calls i = none)
    (hidentity : s.identities user = true) :
    ∃ s', s.revokeAlone i user = some s' ∧ s.Revoked s' user := by
  have hfirst : s.next (.revoke i user) =
      some (s.goOn i (some (.revoking user (s.failed user)))) := by
    show s.call i (.revoking user (s.failed user)) = _
    unfold PolicyDeployment.call
    rw [hidle]
  have hcalled : (s.goOn i (some (.revoking user (s.failed user)))).Sound :=
    h.pass ⟨h.failed user, Nat.zero_le _⟩
  obtain ⟨hread, hfound⟩ := hcalled.stepAlone goOn_calls nofun
  have hthere : ((s.goOn i (some (.revoking user (s.failed user)))).stepCall i []
      (.revoking user (s.failed user))).calls i = some (.found user (s.failed user)) :=
    goOn_calls.trans (congrArg some (if_pos hidentity))
  generalize (s.goOn i (some (.revoking user (s.failed user)))).stepCall i []
    (.revoking user (s.failed user)) = s₁ at hread hfound hthere
  obtain ⟨hdelete, hdeleted⟩ := hfound.stepAlone hthere nofun
  obtain ⟨commit, hpending, hpolicy⟩ : ∃ commit,
      (s₁.stepCall i [] (.found user (s.failed user))).calls i =
        some (.deleted user (s.failed user) commit) ∧
      (s₁.stepCall i [] (.found user (s.failed user))).policy user = none := delete_alone
  generalize s₁.stepCall i [] (.found user (s.failed user)) = s₂ at hdelete hdeleted hpending hpolicy
  obtain ⟨hbump, hbumped⟩ := hdeleted.stepAlone hpending nofun
  obtain ⟨hclear, hcleared⟩ := hbumped.stepAlone goOn_calls nofun
  obtain ⟨hrevoke, hrevoked⟩ := hcleared.stepAlone goOn_calls nofun
  obtain ⟨hreturn, hreturned⟩ := hrevoked.stepAlone goOn_calls nofun
  have hrun : s.revokeAlone i user = some
      ((((s₂.stepCall i [] (.deleted user (s.failed user) commit)).stepCall i []
        (.incremented user (s.failed user) commit)).stepCall i []
        (.cleared user (s.failed user) commit)).stepCall i []
        (.revoked user (s.failed user) commit)) := by
    simp only [revokeAlone, List.replicate_succ, List.replicate_zero, List.foldlM_cons, hfirst,
      Option.bind_eq_bind, Option.bind_some, hread, hdelete, hbump, hclear, hrevoke, hreturn,
      List.foldlM_nil]
    rfl
  refine ⟨_, hrun, hpolicy, ?_, ?_, ?_, hreturned.returned⟩
  · exact Function.update_self ..
  · exact Function.update_self ..
  · exact (le_max_left _ _).trans (le_max_right _ _)

end PolicyDeployment

/-- One key with its policy. -/
def oneKey : PolicyDeployment ℕ where
  cached :=
    { source :=
        { base := fun row => if row = .policy "u" then some 0 else none
          log := []
          version := 0
          bumpAt := fun _ => 0 }
      fetches := fun _ => none
      slots := fun _ _ _ => none
      readers := fun _ => none }
  identities user := user == "u"
  contexts _ := true
  returned := 0
  failed _ := 0
  calls _ := none

theorem oneKey_first : oneKey.First := ⟨rfl, rfl, rfl, rfl, rfl, rfl, rfl, rfl, rfl⟩

end TaiSkeleton.AccessControl
